import Mathlib
import PowerFS.Lib.StepRuns

/-! # Handing out inode numbers

Every replica of a shard keeps a counter of its own, in its own database. The leader of the
moment hands out numbers from its counter; the other replicas learn of them only through the
records they apply, and look at those only when they open their store. The numbers handed
out are therefore always those from the first free one up to some end, and a replica whose
counter lags behind that end hands out numbers again. -/
namespace PowerFS.Filer.InodeNumbers
open List

open Lib.StepRuns

/-! ## Replicas -/

/-- The inode range of a shard. -/
structure InodeRange where
  lo : Nat
  hi : Nat
  fits : hi < 2 ^ 64

structure Replica where
  nextInode : Nat
  /-- The counter in `CF_METADATA`. -/
  persisted : Option Nat
  /-- The numbers that have a record in `CF_INODES`. -/
  records : List Nat

variable (range : InodeRange)

/-- One more than the largest record of the range, or its start. -/
def getMaxInodeInRange (records : List Nat) : Nat :=
  match (records.filter fun i => range.lo ≤ i ∧ i < range.hi).max? with
  | some m => m + 1
  | none => range.lo

/-- `init_next_inode`, when the store is opened: 0 and 1 are reserved. -/
def initNextInode (r : Replica) : Replica :=
  { r with
    nextInode :=
      max (max (r.persisted.getD range.lo) (getMaxInodeInRange range r.records)) 2 }

def allocInodeBatch (r : Replica) (count : UInt32) : Except String (Nat × Nat) :=
  let start := r.nextInode
  let stop := start + count.toNat
  let top := range.hi
  if count = 0 then .error "alloc_inode_batch: count must > 0"
  else if 2 ^ 64 ≤ stop then .error "inode range overflow"
  else if top < stop then
    .error s!"inode range exhausted: start={start} end={stop} max={top}"
  else .ok (start, stop)

/-- The shard: its replicas and the batches handed out so far, the latest first. -/
structure Shard where
  replicas : Nat → Replica
  handedOut : List (Nat × Nat)

inductive Event where
  | openStore (r : Nat)
  | allocInodeBatch (r : Nat) (count : UInt32)
  | allocInodeInShard (r : Nat)
  /-- Replica `r` applies a command that creates the inode. -/
  | create (r i : Nat)

/-- The counter moves in memory and on disk. -/
def Shard.take (s : Shard) (r : Nat) (batch : Nat × Nat) : Shard where
  replicas := Function.update s.replicas r
    { s.replicas r with nextInode := batch.2, persisted := some batch.2 }
  handedOut := batch :: s.handedOut

def Shard.HandedOut (s : Shard) (i : Nat) : Prop :=
  ∃ b ∈ s.handedOut, b.1 ≤ i ∧ i < b.2

instance (s : Shard) (i : Nat) : Decidable (s.HandedOut i) :=
  inferInstanceAs (Decidable (∃ b ∈ s.handedOut, _))

def step (s : Shard) : Event → Shard
  | .openStore r =>
    { s with replicas := Function.update s.replicas r (initNextInode range (s.replicas r)) }
  | .allocInodeBatch r count =>
    match allocInodeBatch range (s.replicas r) count with
    | .ok batch => s.take r batch
    | .error _ => s
  | .allocInodeInShard r =>
    match allocInodeBatch range (s.replicas r) 1 with
    | .ok batch => s.take r batch
    -- the error is turned into the number 0
    | .error _ => { s with handedOut := (0, 1) :: s.handedOut }
  | .create r i =>
    -- clients create only what was handed out to them
    if s.HandedOut i then
      let replica := { s.replicas r with records := i :: (s.replicas r).records }
      { s with replicas := Function.update s.replicas r replica }
    else s

/-- All stores empty and opened. -/
def start : Shard where
  replicas _ := initNextInode range ⟨0, none, []⟩
  handedOut := []

/-! ## Freshness -/

/-- The batch is inside the range, without 0 and 1, and nothing in it was handed out before or
has a record anywhere. -/
structure Fresh (s : Shard) (b : Nat × Nat) : Prop where
  inside : range.lo ≤ b.1 ∧ b.2 ≤ range.hi ∧ 2 ≤ b.1
  disjoint : ∀ b' ∈ s.handedOut, b.2 ≤ b'.1 ∨ b'.2 ≤ b.1
  unrecorded : ∀ r, ∀ i ∈ (s.replicas r).records, ¬ (b.1 ≤ i ∧ i < b.2)

/-- What the event hands out is fresh. -/
def Good (s : Shard) (ev : Event) : Prop :=
  ∀ b, (step range s ev).handedOut = b :: s.handedOut → Fresh range s b

/-- The counter of the replica is not behind anything that was handed out. -/
def UpToDate (s : Shard) (r : Nat) : Prop :=
  ∀ b ∈ s.handedOut, b.2 ≤ (s.replicas r).nextInode

/-- Numbers are taken only from replicas that are up to date, and one by one only while the
range lasts. -/
def Careful (s : Shard) : Event → Prop
  | .allocInodeBatch r count =>
    0 < count.toNat → (s.replicas r).nextInode + count.toNat ≤ range.hi → UpToDate s r
  | .allocInodeInShard r => (s.replicas r).nextInode < range.hi ∧ UpToDate s r
  | _ => True

/-! ## The numbers handed out have no gap -/

/-- The first number that can be handed out. -/
def first : Nat := max range.lo 2

/-- The replica knows no number beyond `top`. -/
structure Replica.Below (top : Nat) (x : Replica) : Prop where
  counter : first range ≤ x.nextInode ∧ x.nextInode ≤ top
  disk : ∀ p, x.persisted = some p → first range ≤ p ∧ p ≤ top
  records : ∀ i ∈ x.records, i < top

/-- Everything from the first number up to `top` was handed out, and nobody knows a number
beyond it. -/
structure Inv (s : Shard) (top : Nat) : Prop where
  first_le : first range ≤ top
  gapless : ∀ i, s.HandedOut i ↔ first range ≤ i ∧ i < top
  ends : ∀ b ∈ s.handedOut, b.2 ≤ top
  last : top = first range ∨ ∃ b ∈ s.handedOut, b.2 = top
  below : ∀ r, (s.replicas r).Below range top

variable {range} {s : Shard} {top : Nat}

theorem getMaxInodeInRange_le {records : List Nat} (hlo : range.lo ≤ top)
    (h : ∀ i ∈ records, i < top) : getMaxInodeInRange range records ≤ top := by
  unfold getMaxInodeInRange
  split
  · rename_i m hm
    have := mem_filter.mp (max?_mem hm)
    exact h m this.1
  · exact hlo

variable {r : Replica} {count : UInt32} {b : Nat × Nat}

theorem Replica.Below.initNextInode (htop : first range ≤ top)
    (hdisk : ∀ p, r.persisted = some p → first range ≤ p ∧ p ≤ top)
    (hrecords : ∀ i ∈ r.records, i < top) : (initNextInode range r).Below range top := by
  refine ⟨?_, hdisk, hrecords⟩
  unfold first at *
  have hscan : getMaxInodeInRange range r.records ≤ top :=
    getMaxInodeInRange_le (by omega) hrecords
  simp only [InodeNumbers.initNextInode]
  cases hp : r.persisted with
  | none =>
    simp only [Option.getD_none]
    omega
  | some p =>
    have := hdisk p hp
    simp only [Option.getD_some]
    omega

theorem inv_start : Inv range (start range) (first range) where
  first_le := Nat.le_refl _
  gapless i := by
    simp only [Shard.HandedOut, start, not_mem_nil, false_and, exists_false, false_iff]
    omega
  ends := by simp [start]
  last := .inl rfl
  below _ := .initNextInode (Nat.le_refl _) (by simp) (by simp)

theorem toNat_pos_iff : 0 < count.toNat ↔ count ≠ 0 := by
  rw [Nat.pos_iff_ne_zero, Ne, Ne, ← UInt32.toNat_inj, UInt32.toNat_zero]

/-- A batch is handed out exactly when it is not empty and inside the range. -/
theorem allocInodeBatch_ok :
    allocInodeBatch range r count = .ok b ↔
      0 < count.toNat ∧ r.nextInode + count.toNat ≤ range.hi ∧
        b = (r.nextInode, r.nextInode + count.toNat) := by
  have hfits := range.fits
  rw [toNat_pos_iff]
  simp only [allocInodeBatch]
  split_ifs with h0 h64 hhi
  · simp [h0]
  · simp only [false_iff]
    omega
  · simp only [false_iff]
    omega
  · simp only [Except.ok.injEq, h0, ne_eq, not_false_eq_true, true_and]
    exact ⟨fun h => ⟨by omega, h.symm⟩, fun h => h.2.symm⟩

theorem allocInodeBatch_bounds (h : allocInodeBatch range r count = .ok b) :
    b.1 = r.nextInode ∧ b.1 < b.2 ∧ b.2 ≤ range.hi := by
  obtain ⟨hpos, hhi, rfl⟩ := allocInodeBatch_ok.mp h
  exact ⟨rfl, by dsimp only; omega, hhi⟩

theorem allocInodeBatch_one :
    (∃ b, allocInodeBatch range r 1 = .ok b) ↔ r.nextInode < range.hi := by
  simp only [allocInodeBatch_ok, exists_and_left, exists_eq, and_true, UInt32.toNat_one]
  omega

section

variable (h : Inv range s top)
include h

/-- A batch from a counter is fresh exactly when the counter is up to date. -/
theorem Inv.fresh_iff {r : Nat} (hb : b.1 = (s.replicas r).nextInode ∧ b.1 < b.2 ∧ b.2 ≤ range.hi) :
    Fresh range s b ↔ UpToDate s r := by
  obtain ⟨hstart, hne, hhi⟩ := hb
  obtain ⟨hlo, hle⟩ := (h.below r).counter
  have hfirst : range.lo ≤ first range ∧ 2 ≤ first range := by
    unfold first
    omega
  constructor
  · intro hfresh b' hb'
    by_contra hbehind
    -- the counter itself was handed out before
    have hend := h.ends b' hb'
    obtain ⟨c, hc, hin⟩ := (h.gapless _).mpr ⟨hlo, by omega⟩
    have := hfresh.disjoint c hc
    omega
  · intro hup
    have htop : top ≤ b.1 := by
      rcases h.last with rfl | ⟨c, hc, rfl⟩
      · omega
      · have := hup c hc
        omega
    exact ⟨⟨by omega, hhi, by omega⟩, fun b' hb' => .inr (Nat.le_trans (h.ends b' hb') htop),
      fun r' i hi hin => by have := (h.below r').records i hi; omega⟩

theorem Inv.take {r : Nat} (hb : b.1 = (s.replicas r).nextInode ∧ b.1 < b.2 ∧ b.2 ≤ range.hi)
    (hup : UpToDate s r) :
    Inv range (s.take r b) b.2 := by
  obtain ⟨hstart, hne, -⟩ := hb
  have htop : top = b.1 := by
    have := (h.below r).counter
    rcases h.last with rfl | ⟨c, hc, rfl⟩
    · omega
    · have := hup c hc
      omega
  have hfirst := h.first_le
  refine ⟨by omega, fun i => ?_, fun b' hb' => ?_, .inr ⟨b, by simp [Shard.take], rfl⟩, ?_⟩
  · have hsplit : (s.take r b).HandedOut i ↔ (b.1 ≤ i ∧ i < b.2) ∨ s.HandedOut i := by
      simp [Shard.HandedOut, Shard.take]
    rw [hsplit, h.gapless]
    omega
  · rcases mem_cons.mp hb' with rfl | hold
    · exact Nat.le_refl _
    · have := h.ends b' hold
      omega
  · have hgrow : ∀ i, i < top → i < b.2 := fun i hi => by omega
    refine (Function.forall_update_iff _ (fun _ (x : Replica) => x.Below range b.2)).mpr
      ⟨⟨⟨by dsimp only; omega, Nat.le_refl _⟩, fun p hp => ?_,
        fun i hi => hgrow i ((h.below r).records i hi)⟩, fun r' _ => ?_⟩
    · cases hp
      omega
    · obtain ⟨hcounter, hdisk, hrecords⟩ := h.below r'
      exact ⟨by omega, fun p hp => by have := hdisk p hp; omega,
        fun i hi => hgrow i (hrecords i hi)⟩

/-- Opening a store and creating what was handed out keep the picture. -/
theorem Inv.update {r : Nat} {x : Replica} (hx : x.Below range top) :
    Inv range { s with replicas := Function.update s.replicas r x } top :=
  { h with
    below := (Function.forall_update_iff _ (fun _ (x : Replica) => x.Below range top)).mpr
      ⟨hx, fun r' _ => h.below r'⟩ }

/-! ## Runs -/

theorem Inv.good_iff (ev : Event) : Good range s ev ↔ Careful range s ev := by
  have hself : ∀ {b}, ¬ s.handedOut = b :: s.handedOut := fun hb => by
    have := congrArg length hb
    simp at this
  cases ev with
  | openStore r => exact ⟨fun _ => trivial, fun _ b hb => absurd hb hself⟩
  | create r i =>
    refine ⟨fun _ => trivial, fun _ b hb => ?_⟩
    simp only [step] at hb
    split at hb <;> exact absurd hb hself
  | allocInodeBatch r count =>
    simp only [Good, Careful, step]
    cases halloc : allocInodeBatch range (s.replicas r) count with
    | error e =>
      refine ⟨fun _ hpos hhi => ?_, fun _ b hb => absurd hb hself⟩
      have := allocInodeBatch_ok.mpr ⟨hpos, hhi, rfl⟩
      rw [halloc] at this
      cases this
    | ok b =>
      have hiff := h.fresh_iff (allocInodeBatch_bounds halloc)
      obtain ⟨hpos, hhi, -⟩ := allocInodeBatch_ok.mp halloc
      constructor
      · intro hgood _ _
        exact hiff.mp (hgood b rfl)
      · intro hup b' hb'
        obtain rfl : b = b' := (cons.inj hb').1
        exact hiff.mpr (hup hpos hhi)
  | allocInodeInShard r =>
    simp only [Good, Careful, ← allocInodeBatch_one, step]
    cases halloc : allocInodeBatch range (s.replicas r) 1 with
    | error e =>
      constructor
      · intro hgood
        have := (hgood (0, 1) rfl).inside
        omega
      · rintro ⟨⟨b, hb⟩, -⟩
        cases hb
    | ok b =>
      have hiff := h.fresh_iff (allocInodeBatch_bounds halloc)
      constructor
      · intro hgood
        exact ⟨⟨b, rfl⟩, hiff.mp (hgood b rfl)⟩
      · rintro ⟨-, hup⟩ b' hb'
        obtain rfl : b = b' := (cons.inj hb').1
        exact hiff.mpr hup

theorem Inv.step {ev : Event} (hcareful : Careful range s ev) :
    ∃ top', Inv range (step range s ev) top' := by
  cases ev with
  | openStore r =>
    exact ⟨top, h.update (.initNextInode h.first_le (h.below r).disk (h.below r).records)⟩
  | create r i =>
    simp only [InodeNumbers.step]
    split
    · rename_i hi
      refine ⟨top, h.update ⟨(h.below r).counter, (h.below r).disk, fun j hj => ?_⟩⟩
      rcases mem_cons.mp hj with rfl | hold
      · exact ((h.gapless j).mp hi).2
      · exact (h.below r).records j hold
    · exact ⟨top, h⟩
  | allocInodeBatch r count =>
    simp only [InodeNumbers.step]
    cases halloc : allocInodeBatch range (s.replicas r) count with
    | error e => exact ⟨top, h⟩
    | ok b =>
      obtain ⟨hpos, hhi, -⟩ := allocInodeBatch_ok.mp halloc
      exact ⟨b.2, h.take (allocInodeBatch_bounds halloc) (hcareful hpos hhi)⟩
  | allocInodeInShard r =>
    obtain ⟨b, halloc⟩ := allocInodeBatch_one.mpr hcareful.1
    simp only [InodeNumbers.step, halloc]
    exact ⟨b.2, h.take (allocInodeBatch_bounds halloc) hcareful.2⟩

end

/-- **In every run of the shard all numbers handed out are fresh exactly when they are taken
only from replicas whose counter has reached the end of everything handed out before, and
one by one only while the range lasts.** -/
theorem handedOut_fresh_iff (range : InodeRange) (evs : List Event) :
    Along (step range) (Good range) (start range) evs ↔
      Along (step range) (Careful range) (start range) evs :=
  along_iff (I := fun s => ∃ top, Inv range s top)
    (fun _ ev ⟨_, h⟩ hgood => h.step ((h.good_iff ev).mp hgood))
    (fun _ ev ⟨_, h⟩ => h.good_iff ev) evs ⟨_, inv_start⟩

/-- After a change of the leader the new one starts again at the beginning of the range. -/
theorem new_leader_repeats :
    let range : InodeRange := ⟨0, 1000000, by decide⟩
    let evs : List Event := [.allocInodeBatch 0 100, .allocInodeBatch 1 100]
    (evs.foldl (step range) (start range)).handedOut = [(2, 102), (2, 102)] ∧
      ¬ Along (step range) (Good range) (start range) evs := by
  refine ⟨rfl, fun h => ?_⟩
  have := (h.2.1 (2, 102) rfl).disjoint (2, 102) mem_cons_self
  omega

end PowerFS.Filer.InodeNumbers
