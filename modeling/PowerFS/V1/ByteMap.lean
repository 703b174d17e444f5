import PowerFS.V1.FlushLoss
import PowerFS.V1.Sliding

/-! # A volume is a byte map

The content of a needle is in a dirty entry or in a record of the data file. Against a
map from ids to contents: a full write replaces a content, a partial write overlays
bytes, and flushing and compacting change nothing. -/
namespace PowerFS.V1.ByteMap
open Lib.ByteString Lib.FinTable Lib.Calls Lib.SparseFiles Needle Metadata Coalescer State
  Operations Outcomes Requests Compaction V1.Layout Sliding FlushLoss List WriteCoalescer

section

variable [Env] {v v' w : Volume} {S : Set Bytes}

/-- The reference: the content of every needle. -/
abbrev Contents := Nat → Option Bytes

/-- A record of this content fits the 32-bit numbers of the index. -/
def Small (data : Bytes) : Prop := recordSize data.length < 2 ^ 32

instance (data : Bytes) : Decidable (Small data) :=
  inferInstanceAs (Decidable (recordSize data.length < 2 ^ 32))

/-- The checksum tells contents of the same length apart. -/
def Separates (S : Set Bytes) : Prop :=
  ∀ a ∈ S, ∀ b ∈ S, a.length = b.length → contentSum a = contentSum b → a = b

/-! ## Records and their contents -/

/-- The record of a needle holds this content. -/
def IsRecord (id : Nat) (data : Bytes) (rec : Option (NeedleInfo × Bytes)) : Prop :=
  ∃ info, rec = some (info, toBytes id data (contentSum data)) ∧
    info.dataSize = data.length ∧ info.checksum = contentSum data ∧
    info.checksumAlgorithm = Env.algorithm ∧ info.deletedAt = none

variable {data : Bytes} {id : Nat} {dirty : Nat → Option (Bytes × Bool)} {ref : Contents}
  {q : Request}

omit [Env] in
theorem Small.length_lt (h : Small data) : data.length < 2 ^ 32 := by
  unfold Small recordSize at h
  omega

theorem IsRecord.decode {rec : Option (NeedleInfo × Bytes)} (h : IsRecord id data rec)
    (hsmall : Small data) : readRecord id rec = .ok data := by
  obtain ⟨info, rfl, _, _, halg, hlive⟩ := h
  show (if info.deletedAt.isSome then _ else Layout.decode info _) = _
  unfold Layout.decode
  rw [hlive, halg, contentSum, fromBytes_toBytes Env.checksum Env.algorithm id hsmall.length_lt]
  rfl

variable {info : NeedleInfo} {e : DirtyEntry} {log : List Attempt} {offset size : Int}
  {r : Result Unit} {qs : List Request} {known : List Bytes}

/-- What a write publishes holds the content. -/
theorem isRecord_recordFor {offset : Nat} (hinfo : Describes info id data offset)
    (hsmall : Small data) :
    IsRecord id data (some (recordFor info id data)) := by
  have hsize : info.dataSize = data.length := by
    rw [hinfo.size_eq, u32, Nat.mod_eq_of_lt hsmall.length_lt]
  refine ⟨{ info with offset := 0 }, ?_, hsize, hinfo.sum_eq, hinfo.algorithm_eq, hinfo.live⟩
  have hread : readSize info = (toBytes id data (contentSum data)).length := by
    unfold readSize NeedleInfo.size u32
    rw [hsize, Nat.mod_eq_of_lt hsmall, toBytes_length]
  unfold recordFor
  rw [hread, take_length]

/-- A needle has no record, or one with a content of the run. -/
def Backed (S : Set Bytes) (id : Nat) (rec : Option (NeedleInfo × Bytes)) : Prop :=
  rec = none ∨ ∃ old ∈ S, IsRecord id old rec

/-- A successful write leaves a record of the content. -/
theorem wrote_isRecord {known good : Prop} (hS : Separates S) (hdata : data ∈ S)
    (hsmall : Small data) (hw : Placed w) (hback : Backed S id (recordOf w id))
    (h : Wrote known good w id data (.ok info) v') : IsRecord id data (recordOf v' id) := by
  cases h with
  | skipped n _ hold hsame =>
    have hrec := recordOf_found hold
    rcases hback with hnone | ⟨old, hold', hisrec⟩
    · rw [hrec] at hnone
      cases hnone
    have heq : old = data := by
      obtain ⟨i, hi, hsize, hsum, _⟩ := hisrec
      rw [hrec] at hi
      obtain ⟨rfl, _⟩ := Prod.mk.inj (Option.some.inj hi)
      unfold identical at hsame
      simp only [Bool.and_eq_true, decide_eq_true_eq] at hsame
      exact hS old hold' data hdata (hsize.symm.trans hsame.1.2) (hsum.symm.trans hsame.2)
    rw [← heq]
    exact hisrec
  | published n now _ _ hfits hinfo =>
    rw [hw.recordOf_published hinfo now, Function.update_self]
    exact isRecord_recordFor hinfo hsmall

/-! ## The invariant -/

/-- The record of a needle with this content. -/
def Stores (id : Nat) (rec : Option (NeedleInfo × Bytes)) : Option Bytes → Prop
  | none => rec = none
  | some data => IsRecord id data rec

/-- A needle with this record, and this entry still to be stored, has the content of the
reference. -/
structure Shown (S : Set Bytes) (id : Nat) (rec : Option (NeedleInfo × Bytes))
    (held : Option (Bytes × Bool)) (content : Option Bytes) : Prop where
  known : ∀ data, content = some data → data ∈ S ∧ Small data
  backed : Backed S id rec
  pending : ∀ merged isNew, held = some (merged, isNew) → content = some merged
  stored : held = none → Stores id rec content

def Shows (S : Set Bytes) (v : Volume) (dirty : Nat → Option (Bytes × Bool))
    (ref : Contents) : Prop :=
  ∀ id, Shown S id (recordOf v id) (dirty id) (ref id)

theorem shown_stored {rec : Option (NeedleInfo × Bytes)} (hdata : data ∈ S) (hsmall : Small data)
    (hrec : IsRecord id data rec) : Shown S id rec none (some data) where
  known := by
    rintro _ ⟨⟩
    exact ⟨hdata, hsmall⟩
  backed := .inr ⟨data, hdata, hrec⟩
  pending := nofun
  stored _ := hrec

theorem shown_held {rec : Option (NeedleInfo × Bytes)} {isNew : Bool} (hdata : data ∈ S)
    (hsmall : Small data) (hback : Backed S id rec) :
    Shown S id rec (some (data, isNew)) (some data) where
  known := by
    rintro _ ⟨⟩
    exact ⟨hdata, hsmall⟩
  backed := hback
  pending := by
    rintro _ _ ⟨⟩
    rfl
  stored := nofun

/-- One needle gets a content, in a record or in a dirty entry; the others are as they were. -/
theorem Shows.set {dirty' : Nat → Option (Bytes × Bool)} (h : Shows S v dirty ref)
    (hother : ∀ x, x ≠ id → recordOf v' x = recordOf v x)
    (hdirty : ∀ x, x ≠ id → dirty' x = dirty x)
    (hset : Shown S id (recordOf v' id) (dirty' id) (some data)) :
    Shows S v' dirty' (Function.update ref id (some data)) := by
  intro x
  by_cases hx : x = id
  · subst hx
    rw [Function.update_self]
    exact hset
  · rw [Function.update_of_ne hx, hother x hx, hdirty x hx]
    exact h x

/-! ## Flushing -/

/-- A flush writes to the needle of the entry, unless that is needle 0. -/
theorem FlushTarget.same {k : Nat} (h : FlushTarget v id w k) (hid : id ≠ 0)
    (htaken : v.coalescer.held id = none) : k = id ∧ recordOf w = recordOf v ∧ SameSide v w := by
  have hkey : keyOf v id = id := if_neg hid
  obtain ⟨n, ⟨rfl, rfl⟩ | ⟨rfl, rfl⟩⟩ := h
  · exact ⟨rfl, rfl, rfl, rfl, rfl, rfl⟩
  refine ⟨hkey, rfl, ?_, config_invalidate _ _ _, rfl, if_neg hid⟩
  funext x
  rw [held_begun]
  split
  · rename_i hx
    rw [hx, show keyOf (v.ticks n) id = id from hkey, htaken]
  · rfl

/-- The flush of an entry that has been taken stores its content. -/
theorem flushEntry_stores {merged : Bytes} {isNew : Bool} (hS : Separates S) (hid : id ≠ 0)
    (hdata : merged ∈ S) (hsmall : Small merged) (hv : Placed v)
    (hback : Backed S id (recordOf v id))
    (htaken : v.coalescer.held id = none)
    (h : Returns (flushCoalescerEntry id merged isNew) v (.ok ()) v') :
    IsRecord id merged (recordOf v' id) ∧ (∀ x, x ≠ id → recordOf v' x = recordOf v x) ∧
      SameSide v v' := by
  rcases flushCoalescerEntry_returns h with ⟨_, ⟨_, hr⟩, _⟩ | ⟨_, w, k, r₀, ht, hr, hw⟩
  · cases hr
  have hplaced : Placed w := hv.target ht
  obtain ⟨rfl, hrecord, hside⟩ := FlushTarget.same ht hid htaken
  cases r₀ with
  | error err => cases hr
  | ok info =>
    refine ⟨wrote_isRecord hS hdata hsmall hplaced ?_ hw, fun x hx => ?_, hside.trans hw.sameSide⟩
    · rw [hrecord]
      exact hback
    · rw [hplaced.recordOf_wrote hw hx, hrecord]

theorem Shows.flushEntry (hS : Separates S) (h : Shows S v dirty ref) (hid : id ≠ 0)
    (hdirty : dirty id = some (e.merged, e.isNewNeedle)) (hv : Placed v)
    (htaken : v.coalescer.held id = none)
    (hf : Returns (flushCoalescerEntry id e.merged e.isNewNeedle) v (.ok ()) v') :
    Shows S v' (fun x => if x = id then none else dirty x) ref ∧ SameSide v v' := by
  have href : ref id = some e.merged := (h id).pending e.merged e.isNewNeedle hdirty
  obtain ⟨hdata, hsmall⟩ := (h id).known e.merged href
  obtain ⟨hrec, hother, hside⟩ :=
    flushEntry_stores hS hid hdata hsmall hv (h id).backed htaken hf
  refine ⟨?_, hside⟩
  rw [← Function.update_eq_self id ref, href]
  refine h.set hother (fun x hx => if_neg hx) ?_
  rw [if_pos rfl]
  exact shown_stored hdata hsmall hrec

/-- All entries that were taken are stored, and none is left. -/
theorem Shows.drained {es : List (Nat × DirtyEntry)} (hS : Separates S)
    (hd : Drained es v log v') (hall : ∀ a ∈ log, a.succeeded = true)
    (h : Shows S v dirty ref) (hv : Placed v) (hempty : ∀ x, v.coalescer.held x = none)
    (hdirty : ∀ p ∈ es, p.1 ≠ 0 ∧ dirty p.1 = some (p.2.merged, p.2.isNewNeedle))
    (hnodup : (es.map Prod.fst).Nodup) (hmem : ∀ x, dirty x ≠ none → x ∈ es.map Prod.fst) :
    Shows S v' (fun _ => none) ref ∧ SameSide v v' := by
  induction hd generalizing dirty with
  | nil v =>
    have hnone : dirty = fun _ => none := by
      funext x
      by_contra hx
      exact absurd (hmem x hx) not_mem_nil
    rw [← hnone]
    exact ⟨h, rfl, rfl, rfl, rfl⟩
  | @cons id e es v v₁ v' log r hflush hrest ih =>
    obtain ⟨hfirst, hothers⟩ := forall_mem_cons.mp hall
    obtain ⟨⟨hid, hentry⟩, hdirty'⟩ := forall_mem_cons.mp hdirty
    obtain ⟨hnotin, hnodup'⟩ := nodup_cons.mp hnodup
    cases attempt_succeeded_iff.mp hfirst
    obtain ⟨hshows, hside⟩ := h.flushEntry hS hid hentry hv (hempty id) hflush
    obtain ⟨hend, hside'⟩ := ih hothers hshows (hv.flushEntry hflush)
      (fun x => by rw [hside.held]; exact hempty x)
      (fun p hp => by
        have hne : p.1 ≠ id := fun heq => hnotin (mem_map.mpr ⟨p, hp, heq⟩)
        rw [if_neg hne]
        exact hdirty' p hp) hnodup'
      (fun x hx => by
        split at hx
        · exact absurd rfl hx
        · rename_i hne
          exact (mem_cons.mp (hmem x hx)).resolve_left hne)
    exact ⟨hend, hside.trans hside'⟩

/-! ## The requests -/

/-- The reference: contents, and the key for the next write that asks for one. -/
structure Reference where
  contents : Contents
  nextKey : Nat

namespace Reference

/-- A partial write overlays bytes and fills gaps with zeros. -/
def overlaid (m : Reference) (id : Nat) (offset size : Int) (data : Bytes) : Bytes :=
  pwrite ((m.contents id).getD []) (asUsize offset) (chunk size data)

def serve (m : Reference) : Request → Reference
  | .write fileKey _ data =>
    { contents := Function.update m.contents (if fileKey = 0 then m.nextKey else fileKey)
        (some data)
      nextKey := if fileKey = 0 then m.nextKey + 1 else m.nextKey }
  | .blob id offset size data =>
    { m with contents := Function.update m.contents id (some (m.overlaid id offset size data)) }
  | _ => m

def empty : Reference := ⟨fun _ => none, 1⟩

def read (m : Reference) (id : Nat) : Result Bytes :=
  match m.contents id with
  | some data => .ok data
  | none => .error (.needleNotFound id)

/-- Part of a content; there may be fewer bytes. -/
def readPart (m : Reference) (id : Nat) (offset size : Int) : Result Bytes :=
  match m.contents id with
  | some data => .ok ((data.drop (asUsize offset)).take (asUsize size))
  | none => .error (.needleNotFound id)

end Reference

/-- The volume is available, and it has the content already, or it has space for it. -/
def Space (v : Volume) (id : Nat) (data : Bytes) : Prop :=
  v.info.state = .available ∧ (Known v id data ∨
    recordSize data.length ≤ v.index.getAllocation.freeBytes ∧
      appendOffset v + recordSize data.length ≤ v.data.totalSize)

/-- The volume shows what the reference holds. -/
structure Refines (S : Set Bytes) (v : Volume) (m : Reference) : Prop where
  placed : Placed v
  shows : Shows S v v.coalescer.held m.contents
  key : v.info.nextFileKey = m.nextKey
  zero : v.coalescer.held 0 = none
  direct : v.coalescer.config.disabled = true → ∀ id, v.coalescer.held id = none
  idle : v.compacting = false

section Requests

variable {m : Reference} (hS : Separates S) (hq : ∀ n, fault n = none)

include hS in
theorem Refines.flushed {ids : List Nat} (hf : Flushed ids v log v')
    (hall : ∀ a ∈ log, a.succeeded = true) (h : Refines S v m) : Refines S v' m := by
  induction hf with
  | nil => exact h
  | nothing _ _ ih => exact ih hall h
  | @entry id ids v v₁ v' log c e r hrun htake hflush _ ih =>
    obtain ⟨hfirst, hothers⟩ := forall_mem_cons.mp hall
    cases attempt_succeeded_iff.mp hfirst
    obtain ⟨hheld, hconfig, hgone⟩ := held_take htake
    have hid : id ≠ 0 := fun h0 => by
      rw [h0, h.zero] at hheld
      cases hheld
    have hv : Placed (v.setCoalescer c) := { h.placed with }
    have htaken : (v.setCoalescer c).coalescer.held id = none := (hgone id).trans (if_pos rfl)
    have hbefore : Shows S (v.setCoalescer c) v.coalescer.held m.contents := h.shows
    obtain ⟨hshows, hside⟩ := hbefore.flushEntry hS hid hheld hv htaken hflush
    have hafter : v₁.coalescer.held = fun x => if x = id then none else v.coalescer.held x :=
      hside.held.trans (funext hgone)
    refine ih hothers ⟨hv.flushEntry hflush, by rwa [hafter], hside.key.trans h.key, ?_,
      fun hdis x => ?_, hside.compacting.trans h.idle⟩
    · rw [hafter]
      exact ite_eq_left_iff.mpr fun _ => h.zero
    · rw [hafter]
      exact ite_eq_left_iff.mpr fun _ => h.direct (by rw [← hconfig, ← hdis, hside.config]; rfl) x

variable {id n : Nat} {data : Bytes}

include hq in
theorem known_ticks : Known (v.ticks n) id data ↔ Known v id data := by
  unfold Known
  rw [seen_of_quiet (hq _), seen_of_quiet (hq _)]
  exact Iff.rfl

include hq in
theorem canAppend_of_space {space : Nat} {p : Option Nat}
    (hfree : space ≤ v.index.getAllocation.freeBytes)
    (hfits : appendOffset v + space ≤ v.data.totalSize)
    (hp : p = none ∨ p = some v.data.totalSize) : CanAppend (v.ticks n) p space := by
  refine ⟨hq _, hfree, ?_, hfits, hq _⟩
  rcases hp with rfl | rfl
  · rfl
  · exact decide_eq_false (Nat.not_lt.mpr hfits)

include hq in
/-- Without failures a full write succeeds if there is space. -/
theorem fullGood_of_space (hv : Placed v)
    (hfree : recordSize data.length ≤ v.index.getAllocation.freeBytes)
    (hfits : appendOffset v + recordSize data.length ≤ v.data.totalSize) :
    FullGood (v.ticks n) data := by
  refine ⟨?_, hq _, hq _, hq _⟩
  rw [ticks_ticks]
  exact canAppend_of_space hq hfree hfits (.inr (congrArg some hv.total.symm))

include hq in
theorem versionGood_of_space (hfree : recordSize data.length ≤ v.index.getAllocation.freeBytes)
    (hfits : appendOffset v + recordSize data.length ≤ v.data.totalSize) :
    VersionGood (v.ticks n) data := by
  refine ⟨?_, hq _, hq _, hq _⟩
  rw [ticks_ticks]
  exact canAppend_of_space hq hfree hfits (.inl rfl)

include hq in
/-- The same for the flush of an entry. -/
theorem admits_of_space (hv : Placed v) (hid : id ≠ 0) (h : Space v id e.merged) :
    Admits (v.ticks n) id e := by
  have hkey : keyOf (v.ticks n) id = id := if_neg hid
  refine ⟨h.1, ?_⟩
  by_cases hversion : takesVersion (v.ticks n) id e.isNewNeedle
  · refine h.2.imp (fun hk => .inl ⟨hversion, ?_⟩) fun hroom => .inl ⟨hversion, ?_⟩
    · rw [ticks_ticks]
      exact (known_ticks hq).mpr hk
    · rw [ticks_ticks]
      exact versionGood_of_space hq hroom.1 hroom.2
  · refine h.2.imp (fun hk => .inr ⟨hversion, ?_⟩) fun hroom => .inr ⟨hversion, ?_⟩
    · rw [ticks_ticks, hkey]
      exact (known_ticks hq).mpr hk
    · rw [ticks_ticks]
      exact fullGood_of_space hq hv hroom.1 hroom.2

include hS hq in
/-- A full write replaces the content. -/
theorem Refines.write {fileKey cookie : Nat} {r : Result NeedleInfo}
    (h : Refines S v m) (hdata : data ∈ S) (hsmall : Small data)
    (hspace : Space v (keyOf v fileKey) data)
    (hw : Returns (writeNeedleWithCookie fileKey cookie data) v r v') :
    (∃ info, r = .ok info) ∧ Refines S v' (m.serve (.write fileKey cookie data)) := by
  replace hw := Returns.get_bind hw
  rw [h.idle] at hw
  rcases writeNeedleNowait_returns hw with ⟨hs, _⟩ | ⟨_, hwrote⟩
  · exact absurd hspace.1 hs
  have hplaced : Placed (begun v fileKey) := h.placed.begun fileKey
  cases r with
  | error e =>
    cases hwrote with
    | failed hnew hbad =>
      rcases hspace.2 with hknown | hroom
      · exact absurd hknown hnew
      · exact absurd (fullGood_of_space (n := 0) hq h.placed hroom.1 hroom.2) hbad
  | ok info =>
    have hside := hwrote.sameSide
    have hheld : ∀ x, v'.coalescer.held x =
        if x = keyOf v fileKey then none else v.coalescer.held x :=
      fun x => by rw [hside.held, held_begun]
    have hkey : (if fileKey = 0 then m.nextKey else fileKey) = keyOf v fileKey := by
      unfold keyOf
      rw [h.key]
    have hbegun : Shows S (begun v fileKey) v.coalescer.held m.contents := h.shows
    refine ⟨⟨info, rfl⟩, hplaced.wrote hwrote, ?_, ?_, ?_, fun hdis x => ?_, ?_⟩
    · have hrec := wrote_isRecord hS hdata hsmall hplaced (hbegun _).backed hwrote
      show Shows S v' _ (Function.update m.contents _ _)
      rw [hkey]
      refine hbegun.set (fun x hx => hplaced.recordOf_wrote hwrote hx)
        (fun x hx => (hheld x).trans (if_neg hx)) ?_
      rw [hheld, if_pos rfl]
      exact shown_stored hdata hsmall hrec
    · rw [hside.key, Reference.serve, ← h.key]
      rfl
    · rw [hheld]
      exact ite_eq_left_iff.mpr fun _ => h.zero
    · rw [hheld]
      refine ite_eq_left_iff.mpr fun _ => h.direct ?_ x
      rw [← hdis, hside.config]
      exact (congrArg CoalescerConfig.disabled (config_invalidate _ _ _)).symm
    · rw [hside.compacting]
      exact h.idle

/-- The record of a needle that is not dirty holds the content of the reference. -/
theorem Refines.decoded (h : Refines S v m) (hclean : v.coalescer.held id = none)
    (hold : v.index.needles.lookup id = some info) :
    ∃ data, m.contents id = some data ∧
      fromBytes Env.checksum (rawOf v info) info.checksumAlgorithm = .ok data := by
  have hstored := (h.shows id).stored hclean
  have hrec := recordOf_found hold
  cases hr : m.contents id with
  | none =>
    rw [hr] at hstored
    cases hrec.symm.trans hstored
  | some data =>
    rw [hr] at hstored
    obtain ⟨info', hinfo, _, _, halg, _⟩ := hstored
    obtain ⟨rfl, hraw⟩ := Prod.mk.inj (Option.some.inj (hrec.symm.trans hinfo))
    refine ⟨data, rfl, ?_⟩
    rw [hraw, show info.checksumAlgorithm = Env.algorithm from halg, contentSum,
      fromBytes_toBytes Env.checksum Env.algorithm id ((h.shows id).known data hr).2.length_lt]

theorem Refines.absent (h : Refines S v m) (hclean : v.coalescer.held id = none)
    (hnone : v.index.needles.lookup id = none) : m.contents id = none := by
  have hstored := (h.shows id).stored hclean
  have hrec : recordOf v id = none := by
    unfold recordOf
    rw [hnone]
    rfl
  cases hr : m.contents id with
  | none => rfl
  | some data =>
    rw [hr] at hstored
    obtain ⟨_, hdata, _⟩ := hstored
    cases hrec.symm.trans hdata

include hq in
theorem Refines.seedable (h : Refines S v m) (id : Nat) : Seedable v id := by
  refine ⟨h.idle, fun hclean info hseen => ?_⟩
  have hin := h.placed.inFile_of_lookup (seen_lookup hseen)
  obtain ⟨data, _, hdec⟩ := h.decoded hclean (seen_lookup hseen)
  exact ⟨⟨hin.1, hq _, hin.2⟩, data, hdec⟩

include hq in
/-- A partial write starts from the content of the reference. -/
theorem Refines.merged {hint : Nat} {existing : Option Bytes} (h : Refines S v m)
    (hb : Base v id (asUsize offset + (chunk size data).length) hint existing) :
    (v.coalescer.merge id (asUsize offset) (chunk size data) hint existing).1 =
      m.overlaid id offset size data := by
  unfold WriteCoalescer.merge Reference.overlaid
  cases hb with
  | dirty hdirty =>
    obtain ⟨⟨merged, isNew⟩, hheld⟩ := Option.ne_none_iff_exists'.mp hdirty
    rw [hheld, (h.shows id).pending merged isNew hheld]
    rfl
  | fresh hclean hseen =>
    rw [seen_of_quiet (hq _)] at hseen
    rw [hclean, h.absent hclean hseen]
    -- the buffer for a new needle is as long as the write reaches
    exact pwrite_zeros_nil (Nat.le_refl _)
  | @stored info raw cur hclean hseen hread hcur =>
    obtain ⟨content, hcontent, hdec⟩ := h.decoded hclean (seen_lookup hseen)
    rw [SparseFile.eq_range_of_read hread] at hcur
    rw [hclean, hcontent, ← Except.ok.inj (hdec.symm.trans hcur)]
    rfl

include hS hq in
/-- A partial write overlays the content. -/
theorem Refines.blob (h : Refines S v m) (hid : id ≠ 0)
    (hdata : m.overlaid id offset size data ∈ S) (hsmall : Small (m.overlaid id offset size data))
    (hspace : v.coalescer.config.disabled = true → Space v id (m.overlaid id offset size data))
    (hb : Returns (writeNeedleBlob id offset size data) v r v') :
    r = .ok () ∧ Refines S v' (m.serve (.blob id offset size data)) := by
  rcases writeNeedleBlob_returns hb with ⟨hno, _⟩ | ⟨_, _, n, hint, existing, hbase, hrec⟩
  · exact absurd (h.seedable hq id) hno
  have hmerged := h.merged hq hbase
  rcases recordBlob_returns hrec with ⟨hen, rfl, c, hconfig, rfl, hheld⟩ | ⟨hdis, hflush⟩
  · have hheld' : ∀ x, c.held x = if x = id then some (m.overlaid id offset size data,
        (v.coalescer.merge id (asUsize offset) (chunk size data) hint existing).2)
        else v.coalescer.held x := fun x => by
      rw [hheld, ← hmerged]
      rfl
    refine ⟨rfl, { h.placed with },
      h.shows.set (fun _ _ => rfl) (fun x hx => (hheld' x).trans (if_neg hx)) ?_, h.key, ?_,
      fun hdis => ?_, h.idle⟩
    · show Shown S id _ (c.held id) _
      rw [hheld', if_pos rfl]
      exact shown_held hdata hsmall (h.shows id).backed
    · show c.held 0 = none
      rw [hheld', if_neg (Ne.symm hid)]
      exact h.zero
    · cases hdis.symm.trans ((congrArg CoalescerConfig.disabled hconfig).trans hen)
  · have hclean := h.direct hdis
    have hcontent : pwrite (WriteCoalescer.seed existing hint) (asUsize offset)
        (chunk size data) = m.overlaid id offset size data := by
      rw [← hmerged, WriteCoalescer.merge, hclean id]
    rw [hcontent, ticks_ticks] at hflush
    have hplaced : Placed (v.ticks (n + 1)) := { h.placed with }
    have hok : r = .ok () := (flush_ok_iff (e := ⟨_, 0, 0, _⟩) hflush).mpr
      (admits_of_space hq h.placed hid (hspace hdis))
    subst hok
    obtain ⟨hstored, hother, hside⟩ :=
      flushEntry_stores hS hid hdata hsmall hplaced (h.shows id).backed (hclean id) hflush
    refine ⟨rfl, hplaced.flushEntry hflush, ?_, hside.key.trans h.key, ?_, fun _ x => ?_,
      hside.compacting.trans h.idle⟩
    · refine h.shows.set hother (fun x _ => congrFun hside.held x) ?_
      rw [hside.held, show (v.ticks (n + 1)).coalescer.held id = none from hclean id]
      exact shown_stored hdata hsmall hstored
    · rw [hside.held]
      exact h.zero
    · rw [hside.held]
      exact hclean x

include hS in
theorem Refines.flush {ids : List Nat} {r : Result Nat} (h : Refines S v m)
    (hroom : FlushCall.Admitted v (.specific ids))
    (hf : Returns (flushSpecificNeedles ids) v r v') :
    (∃ n, r = .ok n) ∧ Refines S v' m := by
  rcases Returns.bind hf with ⟨e, rfl, hids⟩ | ⟨log, v₁, hids, hf⟩
  · obtain ⟨log, hr, _⟩ := flushIds_returns hids
    cases hr
  obtain ⟨log', hr, hlog⟩ := flushIds_returns hids
  cases hr
  obtain ⟨rfl, rfl⟩ := hf.pure
  exact ⟨⟨_, rfl⟩, h.flushed hS hlog ((flushed_all_iff hlog).mpr hroom)⟩

include hS hq in
/-- Compaction changes no content. -/
theorem Refines.compact {r : Result (Nat × Nat)} (h : Refines S v m)
    (hroom : FlushCall.Admitted v .compaction)
    (hc : Returns compact v r v') : (∃ res, r = .ok res) ∧ Refines S v' m := by
  rcases compact_returns hc with ⟨hbusy, _⟩ | ⟨_, v₁, hinner, rfl⟩
  · cases h.idle.symm.trans hbusy
  have hstart : Placed (v.setCompacting true) := { h.placed with }
  obtain ⟨log, w, hdrain, hok, hplaced, hrecord, hfront⟩ := compactInner_quiet
    (fun ⟨k, _, _, hfault⟩ => hfault (hq k)) hstart hinner
  have hentries : ∀ p ∈ Env.order.entries v.coalescer.entries,
      p.1 ≠ 0 ∧ v.coalescer.held p.1 = some (p.2.merged, p.2.isNewNeedle) := by
    intro p hp
    have hheld := held_of_lookup (mem_entries.mp hp)
    refine ⟨fun h0 => ?_, hheld⟩
    rw [h0, h.zero] at hheld
    cases hheld
  have hbefore : Shows S (drainedFrom (v.setCompacting true)) v.coalescer.held m.contents :=
    h.shows
  replace hroom := hroom.resolve_left (Bool.eq_false_iff.mp h.idle)
  obtain ⟨hshows, hside⟩ := hbefore.drained hS hdrain ((drained_all_iff hdrain).mpr hroom)
    { hstart with } (fun _ => rfl) hentries (nodup_entries _ _)
    (fun x hx => by
      obtain ⟨e, he⟩ := Option.ne_none_iff_exists'.mp fun hnone =>
        hx (held_eq_none.mpr hnone)
      exact mem_map.mpr ⟨(x, e), mem_entries.mpr he, rfl⟩)
  have hempty : v₁.coalescer.held = fun _ => none := by
    rw [hfront.1, hside.held]
    rfl
  refine ⟨hok, { hplaced with }, ?_, ?_, ?_, fun _ x => ?_, rfl⟩
  · show ∀ id, Shown S id (recordOf v₁ id) (v₁.coalescer.held id) (m.contents id)
    rw [hempty, hrecord]
    exact hshows
  · show v₁.info.nextFileKey = _
    rw [hfront.2.2]
    exact hside.key.trans h.key
  · show v₁.coalescer.held 0 = none
    rw [hempty]
  · show v₁.coalescer.held x = none
    rw [hempty]

end Requests

/-! ## Reading -/

variable {m : Reference}

theorem Refines.read (h : Refines S v m) (id : Nat) : readNeedle v id = m.read id := by
  rw [h.placed.readNeedle]
  unfold Reference.read
  cases hheld : v.coalescer.held id with
  | some e =>
    rw [(h.shows id).pending e.1 e.2 hheld]
  | none =>
    have hstored := (h.shows id).stored hheld
    cases hr : m.contents id with
    | none =>
      rw [hr] at hstored
      rw [show recordOf v id = none from hstored]
      rfl
    | some data =>
      rw [hr] at hstored
      exact IsRecord.decode hstored ((h.shows id).known data hr).2

omit [Env] in
/-- Cutting the end of a part to the length of the content. -/
theorem slice_min (data : Bytes) (i n : Nat) :
    slice data i (min (i + n) data.length) = (data.drop i).take n := by
  unfold slice
  rw [take_eq_take_iff, length_drop]
  omega

theorem Refines.readPart (h : Refines S v m) (id : Nat) (hsize : 0 ≤ size ∧ size < 2 ^ 31) :
    readNeedleBlob v id offset size = some (m.readPart id offset size) := by
  have hlen : asUsize size < 2 ^ 31 := by
    unfold asUsize
    omega
  unfold readNeedleBlob Reference.readPart
  cases hheld : v.coalescer.entries.lookup id with
  | some e =>
    have href := (h.shows id).pending _ _ (held_of_lookup hheld)
    have hsmall := ((h.shows id).known _ href).2.length_lt
    rw [href]
    dsimp only
    split
    · rename_i hle
      rw [drop_eq_nil_of_le hle, take_nil]
    · rw [if_neg (by omega), slice_min]
  | none =>
    have hclean : v.coalescer.held id = none := held_eq_none.mpr hheld
    cases hold : v.index.needles.lookup id with
    | none =>
      rw [h.absent hclean hold]
    | some info =>
      obtain ⟨data, href, hdec⟩ := h.decoded hclean hold
      have hstored : readStored v.data info = .ok data := by
        rw [readStored_eq (h.placed.inFile_of_lookup hold), decode, hdec]
      rw [href]
      dsimp only
      rw [hstored]
      dsimp only
      split
      · rename_i hle
        rw [drop_eq_nil_of_le hle, take_nil]
      have hstop : asUsize offset + min (asUsize size) (data.length - asUsize offset) =
          min (asUsize offset + asUsize size) data.length := by omega
      rw [hstop, slice_min]

/-! ## Runs -/

/-- What is taken for granted of a request: it writes contents that the checksum tells
apart, and there is space for all that it stores. -/
def Provided (S : Set Bytes) (v : Volume) (m : Reference) : Request → Prop
  | .write fileKey _ data => data ∈ S ∧ Space v (keyOf v fileKey) data
  | .blob id offset size data => m.overlaid id offset size data ∈ S ∧
    (v.coalescer.config.disabled = true → Space v id (m.overlaid id offset size data))
  | .flush ids => FlushCall.Admitted v (.specific ids)
  | .compact => FlushCall.Admitted v .compaction
  | _ => False

/-- No partial write goes to needle 0, and contents are not too long for the index. -/
def Plain (m : Reference) : Request → Prop
  | .write _ _ data => Small data
  | .blob id offset size data => id ≠ 0 ∧ Small (m.overlaid id offset size data)
  | _ => True

/-- A run beside the reference. -/
inductive Follows (P : Volume → Reference → Request → Prop) :
    Volume → Reference → List Request → Volume → Reference → Prop
  | nil (v : Volume) (m : Reference) : Follows P v m [] v m
  | cons {v v₁ v' : Volume} {m m' : Reference} {q : Request} {qs : List Request}
      {r : Result Unit} (hmeets : P v m q) (h : Returns (perform q) v r v₁)
      (rest : Follows P v₁ (m.serve q) qs v' m') : Follows P v m (q :: qs) v' m'

omit [Env] in
theorem ignore_ok {α : Type} {x : Op α} (h : Returns (ignore x) v r v') :
    ∃ r₀, Returns x v r₀ v' ∧ ((∃ a, r₀ = .ok a) → r = .ok ()) := by
  rcases h.bind with ⟨e, rfl, hx⟩ | ⟨a, v₁, hx, h⟩
  · refine ⟨.error e, hx, ?_⟩
    rintro ⟨a, ha⟩
    cases ha
  · obtain ⟨rfl, rfl⟩ := h.pure
    exact ⟨.ok a, hx, fun _ => rfl⟩

/-- **Every request is answered with success and does what the reference does.** -/
theorem Refines.step (hS : Separates S) (hq : ∀ n, fault n = none)
    (hprovided : Provided S v m q) (hplain : Plain m q) (h : Refines S v m)
    (hp : Returns (perform q) v r v') :
    r = .ok () ∧ Refines S v' (m.serve q) := by
  cases q with
  | write fileKey cookie data =>
    obtain ⟨r₀, hw, hr⟩ := ignore_ok hp
    obtain ⟨hok, hrefines⟩ := h.write hS hq hprovided.1 hplain hprovided.2 hw
    exact ⟨hr hok, hrefines⟩
  | blob id offset size data =>
    exact h.blob hS hq hplain.1 hprovided.1 hplain.2 hprovided.2 hp
  | flush ids =>
    obtain ⟨r₀, hf, hr⟩ := ignore_ok hp
    obtain ⟨hok, hrefines⟩ := h.flush hS hprovided hf
    exact ⟨hr hok, hrefines⟩
  | compact =>
    obtain ⟨r₀, hc, hr⟩ := ignore_ok hp
    obtain ⟨hok, hrefines⟩ := h.compact hS hq hprovided hc
    exact ⟨hr hok, hrefines⟩
  | _ => exact hprovided.elim

theorem refines_new (config : CoalescerConfig) (id size : Nat) (file : SparseFile) (now : Int) :
    Refines S (openVolume config id size .empty file now) .empty := by
  have hnone : ∀ x, recordOf (openVolume config id size .empty file now) x = none := by
    intro x
    unfold recordOf openVolume
    rw [syncAllocation_empty]
    rfl
  exact ⟨placed_new config id size file now,
    fun x => ⟨nofun, .inl (hnone x), nofun, fun _ => hnone x⟩, rfl, rfl, fun _ _ => rfl, rfl⟩

/-- The request is answered with success. -/
def Answered (v : Volume) (_ : Reference) (q : Request) : Prop :=
  ∀ r v₁, Returns (perform q) v r v₁ → r = .ok ()

theorem Refines.run {m' : Reference} (hS : Separates S) (hq : ∀ n, fault n = none)
    (hrun : Follows (fun v m q => Provided S v m q ∧ Plain m q) v m qs v' m')
    (h : Refines S v m) :
    Follows Answered v m qs v' m' ∧ Refines S v' m' := by
  induction hrun with
  | nil => exact ⟨.nil _ _, h⟩
  | cons hmeets hp _ ih =>
    obtain ⟨hrest, hend⟩ := ih (h.step hS hq hmeets.1 hmeets.2 hp).2
    exact ⟨.cons (fun _ _ hr => (h.step hS hq hmeets.1 hmeets.2 hr).1) hp hrest, hend⟩

/-- **A volume is a byte map**: in any run of writes, partial writes, flushes and compactions
every request is answered with success, and afterwards reads return what the reference holds. -/
theorem reads_as_byte_map {config : CoalescerConfig} {id size : Nat} {file : SparseFile} {now : Int}
    {qs : List Request} {m' : Reference} (hS : Separates S) (hq : ∀ n, fault n = none)
    (h : Follows (fun v m q => Provided S v m q ∧ Plain m q)
      (openVolume config id size .empty file now) .empty qs v' m') :
    Follows Answered (openVolume config id size .empty file now) .empty qs v' m' ∧
    (∀ x, readNeedle v' x = m'.read x) ∧
    ∀ x (offset length : Int), 0 ≤ length ∧ length < 2 ^ 31 →
      readNeedleBlob v' x offset length = some (m'.readPart x offset length) := by
  obtain ⟨hok, hrefines⟩ := (refines_new config id size file now).run hS hq h
  exact ⟨hok, hrefines.read, fun x _ _ hlen => hrefines.readPart x hlen⟩

/-! ## Runs on concrete volumes -/

theorem admitted_iff (c : FlushCall) : c.Admitted v ↔ ∀ r v', Returns c.attempts v r v' →
    ∀ log ∈ r.toOption, ∀ a ∈ log, a.succeeded = true := by
  obtain ⟨r, v', h⟩ := FlushCall.answers_attempts c v
  obtain ⟨log, rfl, hall⟩ := FlushCall.attempts_returns h
  rw [← hall]
  refine ⟨fun hgood r' w h' log' hlog => ?_, fun hgood => hgood _ v' h log rfl⟩
  obtain ⟨rfl, -⟩ := h.unique h'
  cases hlog
  exact hgood

instance (c : FlushCall) : Decidable (c.Admitted v) := decidable_of_iff' _ (admitted_iff c)

instance : Decidable (Space v id data) := instDecidableAnd

instance [DecidablePred (· ∈ S)] : (q : Request) → Decidable (Provided S v m q)
  | .write _ _ _ | .blob _ _ _ _ => instDecidableAnd
  | .flush ids => inferInstanceAs (Decidable (FlushCall.Admitted v (.specific ids)))
  | .compact => inferInstanceAs (Decidable (FlushCall.Admitted v .compaction))
  | .flushAll | .flushExpired | .delete _ | .restore _ | .lock _ _ | .gc => .isFalse fun h => h

instance : (q : Request) → Decidable (Plain m q)
  | .write _ _ data => inferInstanceAs (Decidable (Small data))
  | .blob _ _ _ _ => instDecidableAnd
  | .flush _ | .flushAll | .flushExpired | .delete _ | .restore _ | .lock _ _ | .gc
  | .compact => .isTrue trivial

/-- Serve a list of requests beside the reference. -/
def followAll (P : Volume → Reference → Request → Prop) [∀ v m q, Decidable (P v m q)] :
    List Request → Volume → Reference → Option (Volume × Reference)
  | [], v, m => some (v, m)
  | q :: qs, v, m =>
    if P v m q then
      match perform q v with
      | none => none
      | some (_, v₁) => followAll P qs v₁ (m.serve q)
    else none

theorem follows_of_followAll {P : Volume → Reference → Request → Prop}
    [∀ v m q, Decidable (P v m q)] {m' : Reference}
    (h : followAll P qs v m = some (v', m')) : Follows P v m qs v' m' := by
  induction qs generalizing v m with
  | nil =>
    cases h
    exact .nil _ _
  | cons q qs ih =>
    unfold followAll at h
    split at h
    case isFalse => cases h
    case isTrue hq =>
      split at h
      case h_1 => cases h
      case h_2 r v₁ hperform =>
        exact .cons hq hperform (ih h)

theorem separates_list
    (h : ∀ a ∈ known, ∀ b ∈ known, a.length = b.length → contentSum a = contentSum b → a = b) :
    Separates {x | x ∈ known} := h

end

local instance : Env := calm

/-- A needle is written, extended behind a gap, flushed and moved by a compaction. -/
theorem extended_needle_reads_back : ∃ v' m', Follows
    (fun v m q => Provided {x | x ∈ [[1], [1, 0, 2]]} v m q ∧ Plain m q) (newVolume 1000)
    .empty [.write 1 0 [1], .blob 1 2 1 [2], .flush [1], .compact] v' m' ∧
    readNeedle v' 1 = .ok [1, 0, 2] ∧ readNeedleBlob v' 1 1 2 = some (.ok [0, 2]) := by
  have hruns : (followAll (fun v m q => Provided {x | x ∈ [[1], [1, 0, 2]]} v m q ∧ Plain m q)
      [.write 1 0 [1], .blob 1 2 1 [2], .flush [1], .compact] (newVolume 1000)
      .empty).map (fun out => (out.2.read 1, out.2.readPart 1 1 2)) =
      some (.ok [1, 0, 2], .ok [0, 2]) := by decide +kernel
  obtain ⟨⟨v', m'⟩, hv', heq⟩ := Option.map_eq_some_iff.mp hruns
  obtain ⟨hread, hpart⟩ := Prod.mk.inj heq
  have hsep : Separates {x | x ∈ [[1], [1, 0, 2]]} :=
    separates_list (by decide +kernel)
  have hfollows := follows_of_followAll hv'
  obtain ⟨-, hreads, hparts⟩ := reads_as_byte_map hsep (fun _ => rfl) hfollows
  exact ⟨v', m', hfollows, (hreads 1).trans hread,
    (hparts 1 1 2 (by decide)).trans (congrArg some hpart)⟩

/-- A partial write to needle 0 is read back until it is flushed; then it is in needle 1. -/
theorem needle_zero_moves : ∃ v' m', Follows (Provided {x | x ∈ [[7]]}) (newVolume 1000)
    .empty [.blob 0 0 1 [7], .flush [0]] v' m' ∧ Separates {x | x ∈ [[7]]} ∧
    m'.read 0 = .ok [7] ∧ readNeedle v' 0 = .error (.needleNotFound 0) ∧
    m'.read 1 = .error (.needleNotFound 1) ∧ readNeedle v' 1 = .ok [7] := by
  have hruns : (followAll (Provided {x | x ∈ [[7]]}) [.blob 0 0 1 [7], .flush [0]]
      (newVolume 1000) .empty).map (fun out => (out.2.read 0, readNeedle out.1 0,
        out.2.read 1, readNeedle out.1 1)) =
      some (.ok [7], .error (.needleNotFound 0), .error (.needleNotFound 1), .ok [7]) := by
    decide +kernel
  obtain ⟨⟨v', m'⟩, hv', heq⟩ := Option.map_eq_some_iff.mp hruns
  obtain ⟨hzero, heq⟩ := Prod.mk.inj heq
  obtain ⟨hgone, heq⟩ := Prod.mk.inj heq
  obtain ⟨hone, hthere⟩ := Prod.mk.inj heq
  exact ⟨v', m', follows_of_followAll hv',
    separates_list (by decide +kernel), hzero, hgone, hone, hthere⟩

end PowerFS.V1.ByteMap
