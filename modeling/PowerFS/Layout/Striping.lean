import PowerFS.Net.Tlv

/-! # File layouts and striped placement

A file layout combines where the data lies, how it is protected and how its
chunks are listed. A striped placement maps every file offset to a volume and an
offset inside that volume by a division with the stripe count and a second one
with the number of volumes. The mapping keeps different offsets apart only when
the ranks in use meet different volumes, which `validate` does not look at. -/
namespace PowerFS.Layout.Striping

open Net.Tlv (NetError)

/-! ## The three dimensions of a layout -/

/-- The geometry of the `Stripe` and `WideStripe` placements. -/
structure Stripes where
  stripeSize : UInt64
  stripeCount : UInt32
  startVolumeIdx : UInt32
  volumeIds : List UInt64
  deriving DecidableEq, Repr

inductive Placement where
  | inline (maxSize : UInt32)
  | flat
  | stripe (s : Stripes)
  | wideStripe (s : Stripes)
  deriving DecidableEq, Repr

inductive Reliability where
  | singleReplica
  | replicated (count : UInt32)
  | ec (data parity : UInt32)
  deriving DecidableEq, Repr

inductive ReliabilityState where
  | pendingReplicated | replicated | pendingEC | ec | degraded
  deriving DecidableEq, Repr

inductive CompressionState where
  | none | pending | compressed
  deriving DecidableEq, Repr

inductive CompressionAlgo where
  | none | zstd
  deriving DecidableEq, Repr

structure ChunkRef where
  offset : UInt64
  size : UInt64
  needleId : UInt64
  volumeId : UInt64
  crc32 : UInt32
  mtime : UInt64
  compression : CompressionAlgo
  deriving DecidableEq, Repr

inductive ChunkEncoding where
  | inlineData (data : List UInt8)
  | perChunk (chunks : List ChunkRef)
  | stripeDescriptor (startNeedleId : UInt64) (chunkSize chunkCount : UInt32)
      (volumeIds : List UInt64) (startVolumeIdx : UInt32)
  | paginated (chunks : List ChunkRef) (totalCount : UInt32) (hasMore : Bool) (nextOffset : UInt64)
  deriving DecidableEq, Repr

structure FileLayout where
  placement : Placement
  reliability : Reliability
  reliabilityState : ReliabilityState
  compression : CompressionState
  encoding : ChunkEncoding
  deriving DecidableEq, Repr

/-! ## Locating an offset -/

inductive Trap where
  | overflow
  deriving DecidableEq, Repr

/-- Arithmetic of width `w`: a result that does not fit traps. -/
def fitting (w n : Nat) : Except Trap Nat :=
  if n < 2 ^ w then .ok n else .error .overflow

theorem fitting_of_lt {w n : Nat} (h : n < 2 ^ w) : fitting w n = .ok n := if_pos h

theorem fitting_of_ge {w n : Nat} (h : ¬ n < 2 ^ w) : fitting w n = .error .overflow := if_neg h

/-- The stripe size `locate` computes with. -/
def Stripes.unit (s : Stripes) : Nat := max s.stripeSize.toNat 1

def Stripes.locate (s : Stripes) (fileOffset : UInt64) : Except Trap (Option (Nat × Nat)) :=
  if s.volumeIds.isEmpty || s.stripeCount == 0 then .ok none
  else do
    let stripeIdx := fileOffset.toNat / s.unit
    let volRank := stripeIdx % s.stripeCount.toNat
    let volIdx ← fitting 32 (s.startVolumeIdx.toNat + volRank)
    let volStart ← fitting 64 (stripeIdx / s.stripeCount.toNat * s.unit)
    let volOffset ← fitting 64 (volStart + fileOffset.toNat % s.unit)
    return some (volIdx % s.volumeIds.length, volOffset)

def Placement.locate : Placement → UInt64 → Except Trap (Option (Nat × Nat))
  | .inline _, _ | .flat, _ => .ok none
  | .stripe s, fileOffset | .wideStripe s, fileOffset => s.locate fileOffset

def Placement.volumeIdAt : Placement → Nat → Option UInt64
  | .inline _, _ | .flat, _ => none
  | .stripe s, idx | .wideStripe s, idx => s.volumeIds[idx]?

def FileLayout.locate (l : FileLayout) (fileOffset : UInt64) :
    Except Trap (Option (UInt64 × Nat)) := do
  match ← l.placement.locate fileOffset with
  | none => return none
  | some (idx, volOffset) => return (l.placement.volumeIdAt idx).map (·, volOffset)

inductive LayoutError where
  | invalidPlacement (text : String)
  | invalidReliability (text : String)
  | invalidEncoding (text : String)
  | tlvDecode (text : String)
  | inlineOversize (actual max : Nat)
  | invalidStripeParams (text : String)
  | net (e : NetError)
  deriving DecidableEq

def Stripes.validate (s : Stripes) : Except LayoutError Unit :=
  if s.stripeCount == 0 then .error (.invalidStripeParams "stripe_count must be > 0")
  else if s.volumeIds.isEmpty then
    .error (.invalidStripeParams "volume_ids must not be empty")
  else .ok ()

def Placement.validate : Placement → Except LayoutError Unit
  | .inline maxSize =>
    if maxSize == 0 then .error (.invalidPlacement "Inline max_size must be > 0")
    else if maxSize.toNat > 8 * 1024 then .error (.inlineOversize maxSize.toNat (8 * 1024))
    else .ok ()
  | .flat => .ok ()
  | .stripe s | .wideStripe s => s.validate

/-- The stripes of a striped placement. -/
def Placement.stripes? : Placement → Option Stripes
  | .inline _ | .flat => none
  | .stripe s | .wideStripe s => some s

/-! ## What a valid placement computes -/

/-- The rank of the stripe that holds an offset. -/
def Stripes.rank (s : Stripes) (fileOffset : UInt64) : Nat :=
  fileOffset.toNat / s.unit % s.stripeCount.toNat

/-- The offset inside the volume that `locate` computes. -/
def Stripes.inside (s : Stripes) (fileOffset : UInt64) : Nat :=
  fileOffset.toNat / s.unit / s.stripeCount.toNat * s.unit + fileOffset.toNat % s.unit

/-- The volume that serves a rank. -/
def Stripes.volumeOf (s : Stripes) (r : Nat) : Option UInt64 :=
  s.volumeIds[(s.startVolumeIdx.toNat + r) % s.volumeIds.length]?

/-- How many ranks the offsets of a file reach. -/
def Stripes.ranks (s : Stripes) : Nat :=
  min s.stripeCount.toNat ((2 ^ 64 - 1) / s.unit + 1)

structure Stripes.Valid (s : Stripes) : Prop where
  count : 0 < s.stripeCount.toNat
  volumes : 0 < s.volumeIds.length

open Stripes

theorem Stripes.unit_pos (s : Stripes) : 0 < s.unit := by
  unfold unit
  omega

variable {s : Stripes}

theorem Stripes.valid_of_validate (h : s.validate = .ok ()) : s.Valid := by
  unfold validate at h
  split at h
  · cases h
  rename_i hc
  split at h
  · cases h
  rename_i hv
  refine ⟨?_, List.length_pos_iff.mpr (by simpa using hv)⟩
  have hne : s.stripeCount.toNat ≠ 0 := by
    intro h0
    exact hc (beq_iff_eq.mpr (UInt32.toNat_inj.mp h0))
  omega

/-- The offset inside the volume is at most the file offset, so it never traps. -/
theorem Stripes.inside_le (s : Stripes) (o : UInt64) : s.inside o ≤ o.toNat := by
  have hdiv : o.toNat / s.unit / s.stripeCount.toNat * s.unit ≤ o.toNat / s.unit * s.unit :=
    Nat.mul_le_mul_right _ (Nat.div_le_self _ _)
  have hsplit := Nat.div_add_mod' o.toNat s.unit
  unfold inside
  omega

theorem Stripes.locate_eq (hs : s.Valid) (o : UInt64) :
    s.locate o = (fitting 32 (s.startVolumeIdx.toNat + s.rank o)).map
      fun idx => some (idx % s.volumeIds.length, s.inside o) := by
  have hle := s.inside_le o
  have hlt := o.toNat_lt
  have hfst : o.toNat / s.unit / s.stripeCount.toNat * s.unit < 2 ^ 64 := by
    unfold inside at hle
    omega
  have hsnd : o.toNat / s.unit / s.stripeCount.toNat * s.unit + o.toNat % s.unit < 2 ^ 64 := by
    unfold inside at hle
    omega
  have hempty : (s.volumeIds.isEmpty || s.stripeCount == 0) = false := by
    have hne : s.stripeCount ≠ 0 := fun h0 => by
      have := hs.count
      simp [h0] at this
    have hnil : s.volumeIds ≠ [] := List.length_pos_iff.mp hs.volumes
    simp [hne, hnil]
  unfold locate rank inside
  rw [hempty]
  by_cases h32 : s.startVolumeIdx.toNat + o.toNat / s.unit % s.stripeCount.toNat < 2 ^ 32
  · simp only [fitting_of_lt h32, fitting_of_lt hfst, fitting_of_lt hsnd, bind, Except.bind]
    rfl
  · simp only [fitting_of_ge h32]
    rfl

/-- What the layout answers: the volume of the rank, unless the index overflows. -/
theorem FileLayout.locate_eq {l : FileLayout} (hl : l.placement.stripes? = some s) (hs : s.Valid)
    (o : UInt64) :
    l.locate o =
      if s.startVolumeIdx.toNat + s.rank o < 2 ^ 32 then
        .ok ((s.volumeOf (s.rank o)).map (·, s.inside o))
      else .error .overflow := by
  have hplace : l.placement.locate o = s.locate o ∧
      ∀ idx, l.placement.volumeIdAt idx = s.volumeIds[idx]? := by
    cases hp : l.placement <;> simp_all [Placement.stripes?, Placement.locate, Placement.volumeIdAt]
  unfold FileLayout.locate
  rw [hplace.1, Stripes.locate_eq hs]
  split
  · rename_i h32
    rw [fitting_of_lt h32]
    simp [bind, Except.bind, Except.map, pure, Except.pure, hplace.2, Stripes.volumeOf]
  · rename_i h32
    rw [fitting_of_ge h32]
    rfl

/-! ## When offsets stay apart -/

/-- Every offset is located, and different offsets go to different places. -/
def FileLayout.NeverOverlaps (l : FileLayout) : Prop :=
  (∀ o, ∃ place, l.locate o = .ok (some place)) ∧ ∀ a b, l.locate a = l.locate b → a = b

theorem Stripes.volumeOf_isSome (hs : s.Valid) (r : Nat) : ∃ v, s.volumeOf r = some v :=
  ⟨_, List.getElem?_eq_getElem (Nat.mod_lt _ hs.volumes)⟩

theorem Stripes.rank_lt (hs : s.Valid) (o : UInt64) : s.rank o < s.ranks := by
  have hdiv : o.toNat / s.unit ≤ (2 ^ 64 - 1) / s.unit :=
    Nat.div_le_div_right (by have := o.toNat_lt; omega)
  have hmod := Nat.mod_le (o.toNat / s.unit) s.stripeCount.toNat
  have hcount := Nat.mod_lt (o.toNat / s.unit) hs.count
  unfold rank ranks
  omega

/-- The first offset of every reachable rank is a file offset, at the start of its volume. -/
theorem Stripes.exists_first {r : Nat} (hr : r < s.ranks) :
    ∃ o : UInt64, o.toNat = r * s.unit ∧ s.rank o = r ∧ s.inside o = 0 := by
  have hpos := s.unit_pos
  unfold ranks at hr
  have hle : r * s.unit ≤ 2 ^ 64 - 1 :=
    (Nat.le_div_iff_mul_le hpos).mp (by omega)
  have ho : (UInt64.ofNat (r * s.unit)).toNat = r * s.unit :=
    UInt64.toNat_ofNat_of_lt' (by have : UInt64.size = 2 ^ 64 := rfl; omega)
  refine ⟨UInt64.ofNat (r * s.unit), ho, ?_, ?_⟩
  · unfold rank
    rw [ho, Nat.mul_div_cancel _ hpos, Nat.mod_eq_of_lt (by omega)]
  · unfold inside
    rw [ho, Nat.mul_div_cancel _ hpos, Nat.div_eq_of_lt (by omega), Nat.mul_mod_left]
    simp

/-- An offset is determined by its rank and its offset inside the volume. -/
theorem Stripes.eq_of_rank_inside {a b : UInt64} (hr : s.rank a = s.rank b)
    (hi : s.inside a = s.inside b) : a = b := by
  have hpos := s.unit_pos
  unfold inside at hi
  have hmod : a.toNat % s.unit = b.toNat % s.unit := by
    have := congrArg (· % s.unit) hi
    simpa [Nat.mul_add_mod'] using this
  have hdiv : a.toNat / s.unit / s.stripeCount.toNat = b.toNat / s.unit / s.stripeCount.toNat := by
    rw [hmod] at hi
    exact Nat.eq_of_mul_eq_mul_right hpos (by omega)
  have hidx : a.toNat / s.unit = b.toNat / s.unit := by
    unfold rank at hr
    rw [← Nat.div_add_mod (a.toNat / s.unit) s.stripeCount.toNat, hdiv, hr, Nat.div_add_mod]
  apply UInt64.toNat_inj.mp
  rw [← Nat.div_add_mod a.toNat s.unit, hidx, hmod, Nat.div_add_mod]

/-- **A striped layout accepted by `validate` keeps all offsets apart, without an
overflow, exactly when the ranks its offsets reach have fitting indices and are
served by pairwise different volumes.** -/
theorem neverOverlaps_iff (l : FileLayout) (s : Stripes) (hl : l.placement.stripes? = some s)
    (hv : l.placement.validate = .ok ()) :
    l.NeverOverlaps ↔
      s.startVolumeIdx.toNat + s.ranks ≤ 2 ^ 32 ∧
        ∀ r < s.ranks, ∀ r' < s.ranks, s.volumeOf r = s.volumeOf r' → r = r' := by
  have hs : s.Valid := by
    apply valid_of_validate
    cases hp : l.placement <;> simp_all [Placement.stripes?, Placement.validate]
  have hlocate := FileLayout.locate_eq hl hs
  constructor
  · rintro ⟨hall, hinj⟩
    have hfits : ∀ r, r < s.ranks → s.startVolumeIdx.toNat + r < 2 ^ 32 := by
      intro r hr
      obtain ⟨o, -, hrank, -⟩ := exists_first hr
      obtain ⟨place, hplace⟩ := hall o
      rw [hlocate, hrank] at hplace
      by_contra hbig
      rw [if_neg hbig] at hplace
      cases hplace
    refine ⟨?_, ?_⟩
    · have hpos : 0 < s.ranks := (Nat.zero_le _).trans_lt (rank_lt hs 0)
      have := hfits (s.ranks - 1) (by omega)
      omega
    · intro r hr r' hr' hvol
      obtain ⟨o, ho, hrank, hin⟩ := exists_first hr
      obtain ⟨o', ho', hrank', hin'⟩ := exists_first hr'
      have heq : o = o' := by
        apply hinj
        rw [hlocate, hlocate, hrank, hrank', hin, hin', hvol, if_pos (hfits r hr),
          if_pos (hfits r' hr')]
      rw [heq, ho'] at ho
      exact (Nat.eq_of_mul_eq_mul_right s.unit_pos ho).symm
  · rintro ⟨hfit, hdiff⟩
    have hok : ∀ o, ∃ v, s.volumeOf (s.rank o) = some v ∧
        l.locate o = .ok (some (v, s.inside o)) := by
      intro o
      obtain ⟨v, hvol⟩ := volumeOf_isSome hs (s.rank o)
      have hlt := rank_lt hs o
      have h32 : s.startVolumeIdx.toNat + s.rank o < 2 ^ 32 := by omega
      exact ⟨v, hvol, by rw [hlocate, if_pos h32, hvol]; rfl⟩
    refine ⟨fun o => ?_, fun a b hab => ?_⟩
    · obtain ⟨v, -, hloc⟩ := hok o
      exact ⟨_, hloc⟩
    · obtain ⟨v, hva, hloca⟩ := hok a
      obtain ⟨w, hwb, hlocb⟩ := hok b
      rw [hloca, hlocb] at hab
      simp only [Except.ok.injEq, Option.some.injEq, Prod.mk.injEq] at hab
      refine eq_of_rank_inside ?_ hab.2
      exact hdiff _ (rank_lt hs a) _ (rank_lt hs b) (by rw [hva, hwb, hab.1])

/-- A layout over the given stripes. -/
def stripedLayout (s : Stripes) : FileLayout where
  placement := .stripe s
  reliability := .singleReplica
  reliabilityState := .pendingReplicated
  compression := .none
  encoding := .perChunk []

/-- Two volumes for two ranks keep all offsets apart. -/
theorem two_volumes_neverOverlap : (stripedLayout ⟨64, 2, 1, [7, 9]⟩).NeverOverlaps := by
  refine (neverOverlaps_iff _ ⟨64, 2, 1, [7, 9]⟩ rfl rfl).mpr ⟨by decide, ?_⟩
  have hranks : (mk 64 2 1 [7, 9]).ranks = 2 := by decide
  rw [hranks]
  decide

/-- Two volumes for four ranks: the first and the third stripe of a file, which
`validate` accepts, lie at one place. -/
theorem shared_volume_overlaps :
    (stripedLayout ⟨64, 4, 0, [7, 9]⟩).placement.validate = .ok () ∧
      (stripedLayout ⟨64, 4, 0, [7, 9]⟩).locate 0 = .ok (some (7, 0)) ∧
      (stripedLayout ⟨64, 4, 0, [7, 9]⟩).locate 128 = .ok (some (7, 0)) ∧
      ¬ (stripedLayout ⟨64, 4, 0, [7, 9]⟩).NeverOverlaps := by
  have hfirst : (stripedLayout ⟨64, 4, 0, [7, 9]⟩).locate 0 = .ok (some (7, 0)) := by decide
  have hthird : (stripedLayout ⟨64, 4, 0, [7, 9]⟩).locate 128 = .ok (some (7, 0)) := by decide
  refine ⟨rfl, hfirst, hthird, fun h => ?_⟩
  have := h.2 0 128 (hfirst.trans hthird.symm)
  simp at this

end PowerFS.Layout.Striping
