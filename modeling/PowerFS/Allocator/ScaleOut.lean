import PowerFS.Allocator.ShardMap
import PowerFS.Filer.InodeNumbers

/-! # Scaling out

Shards hand out inodes of their ranges in increasing order while further shards
are split off. The split point is chosen from the bounds of the range alone, so
an inode handed out before changes its shard whenever the source has already
allocated beyond the point. A store keeps the range it was opened with: a split
shortens the range in the table only. -/
namespace PowerFS.Allocator.ScaleOut
open Function

open Lib.StepRuns ShardMap Filer.InodeNumbers

/-- The store of a shard, with the range it was opened with. -/
structure ShardStore where
  inodeRange : InodeRange
  replica : Replica

/-- A store opened for the first time; the bounds of the range are machine words. -/
def ShardStore.new (range : Nat × Nat) : ShardStore :=
  let inodeRange : InodeRange := ⟨range.1, min range.2 maxU64, by unfold maxU64; omega⟩
  ⟨inodeRange, initNextInode inodeRange ⟨0, none, []⟩⟩

/-- The counter moves in memory and on disk. -/
def ShardStore.take (s : ShardStore) (batch : Nat × Nat) : ShardStore :=
  { s with replica := { s.replica with nextInode := batch.2, persisted := some batch.2 } }

structure Cluster where
  entries : List Entry
  stores : UInt64 → Option ShardStore
  /-- The batches handed out so far. -/
  allocated : List (Nat × Nat)

def openStore (es : List Entry) (id : UInt64) : Option ShardStore :=
  (shardRange es id).map ShardStore.new

def start (n : UInt64) : Cluster where
  entries := fromShardCount n
  stores := openStore (fromShardCount n)
  allocated := []

/-- The next inode the shard hands out. -/
def Cluster.nextInode (c : Cluster) (id : UInt64) : Nat :=
  ((c.stores id).map (·.replica.nextInode)).getD 0

def Cluster.Allocated (c : Cluster) (i : Nat) : Prop :=
  ∃ batch ∈ c.allocated, batch.1 ≤ i ∧ i < batch.2

/-- What `alloc_inode_batch` of the shard's store answers. -/
def Cluster.batch (c : Cluster) (id : UInt64) (count : UInt32) : Option (Nat × Nat) :=
  (c.stores id).bind fun s => (allocInodeBatch s.inodeRange s.replica count).toOption

def Cluster.alloc (c : Cluster) (id : UInt64) (count : UInt32) : Cluster :=
  match c.batch id count with
  | none => c
  | some batch =>
    { c with
      stores := update c.stores id ((c.stores id).map (·.take batch))
      allocated := batch :: c.allocated }

/-- A call changes the table; a shard that is new in it opens a store with its range of the
moment, the other stores stay as they are. -/
def Cluster.scale (c : Cluster) (r : Request) : Cluster :=
  let es := ShardMap.step c.entries r
  { c with
    entries := es
    stores := fun id =>
      if (shardRange c.entries id).isSome then c.stores id else openStore es id }

inductive Event where
  | alloc (id : UInt64) (count : UInt32)
  | addShard (newId splitFrom : UInt64) (point : Nat)
  | addShardAuto (splitFrom : Option UInt64) (dryRun : Bool)

def step (c : Cluster) : Event → Cluster
  | .alloc id count => c.alloc id count
  | .addShard newId splitFrom point => c.scale (.addShard newId splitFrom point)
  | .addShardAuto splitFrom dryRun => c.scale (.addShardAuto splitFrom dryRun)

/-- The split an event asks for: the new shard, the source and the split point. -/
def splitOf (es : List Entry) : Event → Option (UInt64 × UInt64 × Nat)
  | .alloc _ _ => none
  | .addShard newId splitFrom point => some (newId, splitFrom, point)
  | .addShardAuto _ true => none
  | .addShardAuto splitFrom false =>
    match planAddShard es splitFrom with
    | .ok plan => some (plan.newShardId, plan.splitFrom, plan.splitPoint)
    | .error _ => none

/-- Inodes are handed out of the range the table gives the shard. -/
def FromOwnRange (c : Cluster) : Event → Prop
  | .alloc id count =>
    ∀ batch ∈ c.batch id count, ∃ range ∈ shardRange c.entries id, batch.2 ≤ range.2
  | _ => True

instance (c : Cluster) : (ev : Event) → Decidable (FromOwnRange c ev)
  | .alloc _ _ => inferInstanceAs (Decidable (∀ batch ∈ Cluster.batch .., _))
  | .addShard .. | .addShardAuto .. => .isTrue trivial

/-- Inodes handed out before the event route as they did. -/
def Kept (c : Cluster) (ev : Event) : Prop :=
  ∀ i, c.Allocated i → route (step c ev).entries i = route c.entries i

/-- A split that goes through leaves the source everything it has handed out. -/
def Roomy (c : Cluster) (ev : Event) : Prop :=
  ∀ newId splitFrom point, splitOf c.entries ev = some (newId, splitFrom, point) →
    (splitEntry c.entries newId splitFrom point).1 = .ok () →
      c.nextInode splitFrom ≤ max point 2

/-! ## What an event does -/

/-- An event other than an allocation makes the call it says. -/
theorem step_cases (c : Cluster) (ev : Event) :
    (∃ id count, ev = .alloc id count) ∨ ∃ r, step c ev = c.scale r ∧
      ((splitOf c.entries ev = none ∧ ShardMap.step c.entries r = c.entries) ∨
        ∃ newId splitFrom point, splitOf c.entries ev = some (newId, splitFrom, point) ∧
          call c.entries r = splitEntry c.entries newId splitFrom point) := by
  cases ev with
  | alloc id count => exact .inl ⟨id, count, rfl⟩
  | addShard newId splitFrom point => exact .inr ⟨_, rfl, .inr ⟨_, _, _, rfl, rfl⟩⟩
  | addShardAuto splitFrom dryRun =>
    refine .inr ⟨_, rfl, ?_⟩
    cases dryRun with
    | true =>
      refine .inl ⟨rfl, ?_⟩
      simp only [ShardMap.step, call, addShardAuto]
      split <;> rfl
    | false =>
      cases hplan : planAddShard c.entries splitFrom with
      | error err => exact .inl ⟨by simp [splitOf, hplan],
          by simp [ShardMap.step, call, addShardAuto, hplan]⟩
      | ok plan =>
        refine .inr ⟨plan.newShardId, plan.splitFrom, plan.splitPoint, by simp [splitOf, hplan], ?_⟩
        simp only [call, addShardAuto, hplan, executeAddShard]
        rcases splitEntry c.entries plan.newShardId plan.splitFrom plan.splitPoint with
          ⟨_ | ⟨⟩, es'⟩ <;> rfl

variable {pre post : List Entry} {e : Entry} {point : Nat} {newId : UInt64} {r : Request}

/-- A split re-routes exactly the inodes of the new range. -/
theorem route_split {top : Nat} (h : Partition top (pre ++ e :: post)) (hactive : e.state = .active)
    (hlo : e.rangeStart < point) (hhi : point < e.rangeEnd)
    (hnew : ∀ x ∈ pre ++ e :: post, x.shardId ≠ newId) {i : Nat} (hi : i < top) :
    (route (pre ++ { e with rangeEnd := point } :: ⟨point, e.rangeEnd, newId, .active⟩ :: post) i =
      route (pre ++ e :: post) i) ↔ ¬ (point ≤ i ∧ i < e.rangeEnd) := by
  obtain ⟨hpart, -⟩ := h.split hactive hlo hhi hnew
  constructor
  · rintro heq ⟨hpoint, hend⟩
    rw [hpart.route (e := ⟨point, e.rangeEnd, newId, .active⟩) (by simp) hpoint hend,
      h.route (e := e) (by simp) (by omega) hend] at heq
    exact hnew e (by simp) heq.symm
  · intro hout
    obtain ⟨x, hx, hxlo, hxhi⟩ := h.tiles.cover (Nat.zero_le i) hi
    rw [h.route hx hxlo hxhi]
    rcases List.mem_append.mp hx with hpre | hmem
    · exact hpart.route (by simp [hpre]) hxlo hxhi
    rcases List.mem_cons.mp hmem with rfl | hpost
    · exact hpart.route (e := { x with rangeEnd := point }) (by simp) hxlo
        (by show i < point; omega)
    · exact hpart.route (by simp [hpost]) hxlo hxhi

/-! ## The high-water marks -/

/-- A counter stands right behind what was handed out of its range. -/
structure Marks (taken : Nat → Prop) (lo hi next : Nat) : Prop where
  above : max lo 2 ≤ next
  below : ∀ i, taken i → lo ≤ i → i < hi → i < next
  within : next ≤ max hi 2
  last : max lo 2 < next → taken (next - 1)

structure Inv (top : Nat) (c : Cluster) : Prop where
  partition : Partition top c.entries
  inside : ∀ i, c.Allocated i → 2 ≤ i ∧ i < top
  marks : ∀ e ∈ c.entries, Marks c.Allocated e.rangeStart e.rangeEnd (c.nextInode e.shardId)

/-- The counter of a range of which nothing is taken. -/
theorem marks_fresh {taken : Nat → Prop} {lo hi : Nat} (hle : lo ≤ hi)
    (hfree : ∀ i, taken i → lo ≤ i → i < hi → i < max lo 2) : Marks taken lo hi (max lo 2) :=
  ⟨le_rfl, hfree, by omega, fun hlt => absurd hlt (lt_irrefl _)⟩

variable {top : Nat} {c : Cluster}

theorem nextInode_opened {es : List Entry} (h : Partition top es) (he : e ∈ es)
    (hopen : c.stores e.shardId = openStore es e.shardId) :
    c.nextInode e.shardId = max e.rangeStart 2 := by
  rw [Cluster.nextInode, hopen, openStore, h.shardRange he]
  simp [ShardStore.new, initNextInode, getMaxInodeInRange]

/-- An allocation that succeeds moves the counter of its shard and no other. -/
theorem Cluster.alloc_cases (c : Cluster) (id : UInt64) (count : UInt32) :
    (c.batch id count = none ∧ c.alloc id count = c) ∨
      ∃ n, 0 < n ∧ c.batch id count = some (c.nextInode id, c.nextInode id + n) ∧
        (c.alloc id count).entries = c.entries ∧
        (c.alloc id count).nextInode = update c.nextInode id (c.nextInode id + n) ∧
        (c.alloc id count).allocated = (c.nextInode id, c.nextInode id + n) :: c.allocated := by
  unfold Cluster.alloc
  cases hbatch : c.batch id count with
  | none => exact .inl ⟨rfl, rfl⟩
  | some batch =>
    obtain ⟨s, hs, hok⟩ := Option.bind_eq_some_iff.mp hbatch
    cases hanswer : allocInodeBatch s.inodeRange s.replica count with
    | error err => simp [hanswer, Except.toOption] at hok
    | ok b =>
      obtain ⟨hpos, -, rfl⟩ := allocInodeBatch_ok.mp hanswer
      obtain rfl : _ = batch := by simpa [hanswer, Except.toOption] using hok
      have hnext : c.nextInode id = s.replica.nextInode := by simp [Cluster.nextInode, hs]
      refine .inr ⟨count.toNat, hpos, by rw [hnext], rfl, ?_, by rw [hnext]⟩
      funext x
      by_cases hx : x = id
      · subst hx
        simp [Cluster.nextInode, hs, ShardStore.take]
      · simp [Cluster.nextInode, update_of_ne hx]

theorem inv_start {n : UInt64} (hn : 0 < n.toNat) : Inv (topOf n) (start n) := by
  have hpart := partition_fromShardCount hn
  have hnone : ∀ i, ¬ (start n).Allocated i := by simp [start, Cluster.Allocated]
  refine ⟨hpart, fun i hi => absurd hi (hnone i), fun e he => ?_⟩
  rw [nextInode_opened hpart he rfl]
  exact marks_fresh (hpart.tiles.bounds he).2.1.le fun i hi => absurd hi (hnone i)

theorem Inv.alloc (h : Inv top c) {id : UInt64} {count : UInt32}
    (hown : FromOwnRange c (.alloc id count)) : Inv top (c.alloc id count) := by
  rcases c.alloc_cases id count with ⟨-, hsame⟩ | ⟨n, hpos, hbatch, hentries, hnext, hall⟩
  · rw [hsame]
    exact h
  obtain ⟨range, hrange, hend⟩ := hown _ hbatch
  obtain ⟨e, he, rfl, rfl⟩ := exists_of_shardRange hrange
  dsimp only at hend
  have hmark := h.marks e he
  have habove := hmark.above
  have hbound := h.partition.tiles.bounds he
  have hnew : ∀ i, (c.alloc e.shardId count).Allocated i ↔
      (c.nextInode e.shardId ≤ i ∧ i < c.nextInode e.shardId + n) ∨ c.Allocated i := by
    simp [Cluster.Allocated, hall]
  refine ⟨hentries ▸ h.partition, fun i hi => ?_, hentries ▸ fun x hx => ?_⟩
  · rcases (hnew i).mp hi with hin | hold
    · omega
    · exact h.inside i hold
  rw [hnext]
  by_cases hxe : x = e
  · subst hxe
    rw [update_self]
    refine ⟨by omega, fun i hi hlo hhi => ?_, by omega, fun _ => (hnew _).mpr (.inl (by omega))⟩
    rcases (hnew i).mp hi with hin | hold
    · exact hin.2
    · have := hmark.below i hold hlo hhi
      omega
  · -- the batch lies in the range of `e`, and the ranges are disjoint
    rw [update_of_ne fun hid => hxe (h.partition.eq_of_id hx he hid)]
    have hold := h.marks x hx
    refine { hold with
      below := fun i hi hlo hhi => ?_
      last := fun hlt => (hnew _).mpr (.inr (hold.last hlt)) }
    rcases (hnew i).mp hi with hin | htaken
    · have hboth := (h.partition.tiles.entryAt hx hlo hhi).symm.trans
        (h.partition.tiles.entryAt he (by omega) (by omega))
      exact absurd (Option.some.inj hboth) hxe
    · exact hold.below i htaken hlo hhi

theorem Inv.nextInode_scale (h : Inv top c) (he : e ∈ c.entries) :
    (c.scale r).nextInode e.shardId = c.nextInode e.shardId := by
  simp [Cluster.nextInode, Cluster.scale, h.partition.shardRange he]

/-- A call that leaves the table leaves the counters. -/
theorem Inv.unchanged (h : Inv top c) (hr : ShardMap.step c.entries r = c.entries) :
    Inv top (c.scale r) := by
  have hentries : (c.scale r).entries = c.entries := hr
  refine ⟨hentries ▸ h.partition, h.inside, hentries ▸ fun e he => ?_⟩
  rw [h.nextInode_scale he]
  exact h.marks e he

theorem Inv.split (h : Inv top c) (hes : c.entries = pre ++ e :: post) (hactive : e.state = .active)
    (hlo : e.rangeStart < point) (hhi : point < e.rangeEnd)
    (hnew : ∀ x ∈ c.entries, x.shardId ≠ newId) (hroom : c.nextInode e.shardId ≤ max point 2)
    (hr : ShardMap.step c.entries r = pre ++
      { e with rangeEnd := point } :: ⟨point, e.rangeEnd, newId, .active⟩ :: post) :
    Inv top (c.scale r) := by
  have hpart : Partition top (ShardMap.step c.entries r) := by
    rw [hr]
    exact ((hes ▸ h.partition).split hactive hlo hhi (hes ▸ hnew)).1
  have hfresh : (c.scale r).nextInode newId = max point 2 := by
    have hnone : shardRange c.entries newId = none := by
      rw [shardRange, List.find?_eq_none.mpr (by simpa using hnew)]
      rfl
    exact nextInode_opened hpart (e := ⟨point, e.rangeEnd, newId, .active⟩) (by simp [hr])
      (by simp [Cluster.scale, hnone])
  have he : e ∈ c.entries := by simp [hes]
  -- an entry of the new table is the shortened source, the new one or an old one
  have hmem : ∀ x ∈ (c.scale r).entries, x = { e with rangeEnd := point } ∨
      x = ⟨point, e.rangeEnd, newId, .active⟩ ∨ x ∈ c.entries := by
    intro x hx
    replace hx : x ∈ ShardMap.step c.entries r := hx
    rw [hr] at hx
    rw [hes]
    simp only [List.mem_append, List.mem_cons] at hx ⊢
    tauto
  have hmark := h.marks e he
  refine ⟨hpart, h.inside, fun x hx => ?_⟩
  rcases hmem x hx with rfl | rfl | hxold
  · rw [h.nextInode_scale he]
    exact { hmark with
      within := hroom
      below := fun i hi hilo hihi => hmark.below i hi hilo (hihi.trans hhi) }
  · rw [hfresh]
    refine marks_fresh hhi.le fun i hi hilo hihi => ?_
    exact (hmark.below i hi (hlo.le.trans hilo) hihi).trans_le hroom
  · rw [h.nextInode_scale hxold]
    exact h.marks x hxold

/-! ## Runs -/

theorem Inv.kept_iff (h : Inv top c) (ev : Event) : Kept c ev ↔ Roomy c ev := by
  rcases step_cases c ev with ⟨id, count, rfl⟩ | ⟨r, hstep, hcase⟩
  · refine ⟨fun _ n s p hn => (by cases hn), fun _ i _ => ?_⟩
    rcases c.alloc_cases id count with ⟨-, hsame⟩ | ⟨_, _, _, hentries, _, _⟩
    · rw [step, hsame]
    · rw [step, hentries]
  · have hentries : (step c ev).entries = ShardMap.step c.entries r := by rw [hstep]; rfl
    rcases hcase with ⟨hnone, hsame⟩ | ⟨newId, splitFrom, point, hof, hcall⟩
    · refine ⟨fun _ n s p hn => (by rw [hnone] at hn; cases hn), fun _ i _ => ?_⟩
      rw [hentries, hsame]
    rcases splitEntry_cases c.entries newId splitFrom point with ⟨err, herr⟩ |
      ⟨pre, e, post, hes, rfl, hactive, hlo, hhi, hnew, hok⟩
    · refine ⟨fun _ n s p hn hyes => ?_, fun _ i _ => ?_⟩
      · rw [hof] at hn
        cases hn
        rw [herr] at hyes
        cases hyes
      · rw [hentries, ShardMap.step, hcall, herr]
    · have he : e ∈ c.entries := by simp [hes]
      have hiff : ∀ i, c.Allocated i →
          (route (step c ev).entries i = route c.entries i ↔ ¬ (point ≤ i ∧ i < e.rangeEnd)) := by
        intro i hi
        rw [hentries, ShardMap.step, hcall, hok, hes]
        exact route_split (hes ▸ h.partition) hactive hlo hhi (hes ▸ hnew) (h.inside i hi).2
      constructor
      · intro hkept n s p hn _
        rw [hof] at hn
        cases hn
        by_contra hbig
        have hwithin := (h.marks e he).within
        have hlast := (h.marks e he).last (by omega)
        exact (hiff _ hlast).mp (hkept _ hlast) ⟨by omega, by omega⟩
      · intro hroom i hi
        have hle := hroom _ _ _ hof (by rw [hok])
        refine (hiff i hi).mpr fun hin => ?_
        have h2 := (h.inside i hi).1
        have := (h.marks e he).below i hi (by omega) hin.2
        omega

theorem Inv.step (h : Inv top c) {ev : Event} (hown : FromOwnRange c ev) (hroom : Roomy c ev) :
    Inv top (step c ev) := by
  rcases step_cases c ev with ⟨id, count, rfl⟩ | ⟨r, hstep, hcase⟩
  · exact h.alloc hown
  rw [hstep]
  rcases hcase with ⟨-, hsame⟩ | ⟨newId, splitFrom, point, hof, hcall⟩
  · exact h.unchanged hsame
  rcases splitEntry_cases c.entries newId splitFrom point with ⟨err, herr⟩ |
    ⟨pre, e, post, hes, rfl, hactive, hlo, hhi, hnew, hok⟩
  · exact h.unchanged (by rw [ShardMap.step, hcall, herr])
  · exact h.split hes hactive hlo hhi hnew (hroom _ _ _ hof (by rw [hok]))
      (by rw [ShardMap.step, hcall, hok])

/-- **In a run in which each shard hands out inodes of its own range and shards are added,
every inode keeps its shard exactly when each split point lies behind the high-water mark of
the shard it splits.** -/
theorem routes_kept_iff (n : UInt64) (hn : 0 < n.toNat) (evs : List Event)
    (hown : Along step FromOwnRange (start n) evs) :
    Along step Kept (start n) evs ↔ Along step Roomy (start n) evs := by
  have hboth := along_iff (P := fun c ev => FromOwnRange c ev ∧ Kept c ev)
    (Q := fun c ev => FromOwnRange c ev ∧ Roomy c ev) (I := Inv (topOf n))
    (fun _ _ h hk => h.step hk.1 ((h.kept_iff _).mp hk.2))
    (fun _ ev h => and_congr_right fun _ => h.kept_iff ev) evs (inv_start hn)
  rw [along_and, along_and] at hboth
  exact ⟨fun h => (hboth.mp ⟨hown, h⟩).2, fun h => (hboth.mpr ⟨hown, h⟩).2⟩

/-- A split behind what was handed out. -/
theorem early_split_kept : Along step Kept (start 1) [.alloc 0 100, .addShardAuto none false] := by
  refine (routes_kept_iff 1 (by decide) _ (by decide)).mpr ⟨?_, ?_, trivial⟩
  · intro _ _ _ h
    cases h
  · intro n s p h _
    have hplan : splitOf (step (start 1) (.alloc 0 100)).entries (.addShardAuto none false) =
        some (1, 0, 500000) := by decide
    rw [hplan] at h
    cases h
    decide

/-- A shard that has handed out more than half of its range loses inodes to the new one. -/
theorem late_split_reroutes :
    let c := step (start 1) (.alloc 0 600000)
    c.Allocated 599999 ∧ route c.entries 599999 = 0 ∧
      route (step c (.addShardAuto none false)).entries 599999 = 1 ∧
      Along step FromOwnRange (start 1) [.alloc 0 600000, .addShardAuto none false] ∧
      ¬ Along step Kept (start 1) [.alloc 0 600000, .addShardAuto none false] := by
  intro c
  have hall : c.Allocated 599999 := ⟨(2, 600002), by decide, by decide, by decide⟩
  have hbefore : route c.entries 599999 = 0 := by decide
  have hafter : route (step c (.addShardAuto none false)).entries 599999 = 1 := by decide
  refine ⟨hall, hbefore, hafter, by decide, fun h => ?_⟩
  have := h.2.1 599999 hall
  rw [hafter, hbefore] at this
  cases this

/-- A store does not learn of a split: it goes on with the range it was opened with, and hands
out an inode of the new shard. The next split moves that inode to a third one although its
source has handed out nothing. -/
example :
    let evs : List Event := [.addShardAuto none false, .alloc 0 900000]
    let c := evs.foldl step (start 1)
    ¬ Along step FromOwnRange (start 1) evs ∧ c.allocated = [(2, 900002)] ∧
      route c.entries 800000 = 1 ∧ c.nextInode 1 = 500000 ∧
      route (step c (.addShardAuto (some 1) false)).entries 800000 = 2 := by decide

end PowerFS.Allocator.ScaleOut
