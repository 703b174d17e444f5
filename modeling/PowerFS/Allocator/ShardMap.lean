import Mathlib
import PowerFS.Lib.StepRuns

/-! # The shard map

A sorted table of inode ranges, one per shard. Adding a shard splits a range,
removing one merges its range into the entry before it. `Tiles` says that the
entries lie end to end; every call keeps it, with one exception: a removal takes
the range away when there is no entry before it, and hands it to whatever entry
stands there otherwise, draining or not. -/
namespace PowerFS.Allocator.ShardMap
open List

open Lib.StepRuns

/-! ## The table -/

inductive ShardState where
  | active | draining
  deriving DecidableEq, Repr

structure Entry where
  rangeStart : Nat
  rangeEnd : Nat
  shardId : UInt64
  state : ShardState
  deriving DecidableEq, Repr

inductive ShardError where
  | shardNotFound (id : UInt64)
  | shardAlreadyExists (id : UInt64)
  | shardNotDraining (id : UInt64)
  | invalidSplitPoint (point : Nat)
  | noActiveShardToSplit
  deriving DecidableEq, Repr

structure SplitPlan where
  splitFrom : UInt64
  splitPoint : Nat
  newShardId : UInt64
  newRange : Nat × Nat
  affectedFutureAllocations : Nat
  deriving DecidableEq, Repr

/-- The largest `u64`. -/
def maxU64 : Nat := 2 ^ 64 - 1

def inodePerShard (shardCount : UInt64) : Nat :=
  if shardCount = 0 then 1000000 else min (maxU64 / shardCount.toNat) 1000000

/-- The loop of `from_shard_count`: `k` more shards from inode `start` on. -/
def spread (per : Nat) : Nat → Nat → Nat → List Entry
  | 0, _, _ => []
  | k + 1, start, id =>
    let stop := min (start + per) maxU64
    ⟨start, stop, UInt64.ofNat id, .active⟩ :: spread per k stop (id + 1)

def fromShardCount (shardCount : UInt64) : List Entry :=
  spread (inodePerShard shardCount) shardCount.toNat 0 0

/-- The entry `route` picks: the last one that starts at or before the inode. -/
def entryAt (entries : List Entry) (inode : Nat) : Option Entry :=
  entries[(entries.takeWhile fun e => e.rangeStart ≤ inode).length - 1]?

def route (entries : List Entry) (inode : Nat) : UInt64 :=
  ((entryAt entries inode).map (·.shardId)).getD 0

def shardRange (entries : List Entry) (id : UInt64) : Option (Nat × Nat) :=
  (entries.find? (·.shardId == id)).map fun e => (e.rangeStart, e.rangeEnd)

/-! ## The calls -/

/-- The entry is not the active one of the shard to split. -/
def notSource (splitFrom : UInt64) (e : Entry) : Bool :=
  !(e.shardId == splitFrom && e.state == .active)

/-- The checks and the split that `add_shard` and `execute_add_shard` share. -/
def splitEntry (entries : List Entry) (newId splitFrom : UInt64) (point : Nat) :
    Except ShardError Unit × List Entry :=
  match entries.dropWhile (notSource splitFrom) with
  | [] => (.error (.shardNotFound splitFrom), entries)
  | e :: post =>
    if point ≤ e.rangeStart ∨ e.rangeEnd ≤ point then
      (.error (.invalidSplitPoint point), entries)
    else if entries.any (·.shardId == newId) then (.error (.shardAlreadyExists newId), entries)
    else
      (.ok (), entries.takeWhile (notSource splitFrom) ++
        { e with rangeEnd := point } :: ⟨point, e.rangeEnd, newId, .active⟩ :: post)

def addShard (entries : List Entry) (newId splitFrom : UInt64) (point : Nat) :
    Except ShardError Unit × List Entry :=
  splitEntry entries newId splitFrom point

def executeAddShard (entries : List Entry) (plan : SplitPlan) :
    Except ShardError Unit × List Entry :=
  splitEntry entries plan.newShardId plan.splitFrom plan.splitPoint

/-- The active entry with the largest range, the last one among equals. -/
def selectSplitCandidate (entries : List Entry) : Option Entry :=
  (entries.filter (·.state == .active)).foldl (fun best e =>
    match best with
    | none => some e
    | some b =>
      if b.rangeEnd - b.rangeStart ≤ e.rangeEnd - e.rangeStart then some e else some b) none

def nextShardId (entries : List Entry) : UInt64 :=
  (entries.map (·.shardId)).foldl max 0 + 1

def planAddShard (entries : List Entry) (splitFrom : Option UInt64) :
    Except ShardError SplitPlan := do
  let target ← match splitFrom with
    | some id =>
      match entries.find? fun e => e.shardId == id && e.state == .active with
      | some e => pure e
      | none => .error (.shardNotFound id)
    | none =>
      match selectSplitCandidate entries with
      | some e => pure e
      | none => .error .noActiveShardToSplit
  let rangeSize := target.rangeEnd - target.rangeStart
  let splitPoint := target.rangeStart + rangeSize / 2
  return {
    splitFrom := target.shardId
    splitPoint
    newShardId := nextShardId entries
    newRange := (splitPoint, target.rangeEnd)
    affectedFutureAllocations := rangeSize / 2 }

def addShardAuto (entries : List Entry) (splitFrom : Option UInt64) (dryRun : Bool) :
    Except ShardError SplitPlan × List Entry :=
  match planAddShard entries splitFrom with
  | .error e => (.error e, entries)
  | .ok plan =>
    if dryRun then (.ok plan, entries)
    else
      let (result, entries') := executeAddShard entries plan
      (result.map fun _ => plan, entries')

/-- What the loop of `drain_shard` makes of an entry. -/
def Entry.drained (id : UInt64) (e : Entry) : Entry :=
  if e.shardId == id then { e with state := .draining } else e

def drainShard (entries : List Entry) (id : UInt64) : Except ShardError Unit × List Entry :=
  if entries.any fun e => e.shardId == id && e.state == .active then
    (.ok (), entries.map (Entry.drained id))
  else (.error (.shardNotFound id), entries)

/-- The entry in front of the first one of the shard. -/
def predecessor (entries : List Entry) (id : UInt64) : Option Entry :=
  (entries.takeWhile (·.shardId != id)).getLast?

def removeShard (entries : List Entry) (id : UInt64) : Except ShardError Unit × List Entry :=
  if entries.any fun e => e.shardId == id && e.state == .draining then
    match entries.dropWhile (·.shardId != id) with
    | [] => (.ok (), entries)
    | removed :: post =>
      match predecessor entries id with
      | some p =>
        (.ok (), (entries.takeWhile (·.shardId != id)).dropLast ++
          { p with rangeEnd := removed.rangeEnd } :: post)
      | none => (.ok (), post)
  else if entries.any (·.shardId == id) then (.error (.shardNotDraining id), entries)
  else (.error (.shardNotFound id), entries)

inductive Request where
  | addShard (newId splitFrom : UInt64) (point : Nat)
  | addShardAuto (splitFrom : Option UInt64) (dryRun : Bool)
  | planAddShard (splitFrom : Option UInt64)
  | executeAddShard (plan : SplitPlan)
  | drainShard (id : UInt64)
  | removeShard (id : UInt64)
  deriving DecidableEq, Repr

/-- One call: whether it succeeds, and the table it leaves. -/
def call (entries : List Entry) : Request → Except ShardError Unit × List Entry
  | .addShard newId splitFrom point => ShardMap.addShard entries newId splitFrom point
  | .addShardAuto splitFrom dryRun =>
    let (result, entries') := ShardMap.addShardAuto entries splitFrom dryRun
    (result.map fun _ => (), entries')
  | .planAddShard splitFrom => ((ShardMap.planAddShard entries splitFrom).map fun _ => (), entries)
  | .executeAddShard plan => ShardMap.executeAddShard entries plan
  | .drainShard id => ShardMap.drainShard entries id
  | .removeShard id => ShardMap.removeShard entries id

def step (entries : List Entry) (r : Request) : List Entry := (call entries r).2

/-! ## Entries end to end -/

/-- The entries are not empty and lie end to end from `lo` to `hi`. -/
def Tiles : Nat → List Entry → Nat → Prop
  | lo, [], hi => lo = hi
  | lo, e :: es, hi => e.rangeStart = lo ∧ e.rangeStart < e.rangeEnd ∧ Tiles e.rangeEnd es hi

variable {lo hi i : Nat} {es : List Entry} {e : Entry}

theorem tiles_append {as bs : List Entry} :
    Tiles lo (as ++ bs) hi ↔ ∃ mid, Tiles lo as mid ∧ Tiles mid bs hi := by
  induction as generalizing lo with
  | nil => simp [Tiles]
  | cons a as ih => simp [Tiles, ih, and_assoc]

section

variable (h : Tiles lo es hi)
include h

theorem Tiles.le : lo ≤ hi := by
  induction es generalizing lo with
  | nil => exact Nat.le_of_eq h
  | cons a as ih =>
    obtain ⟨hstart, hne, htail⟩ := h
    have := ih htail
    omega

theorem Tiles.bounds (he : e ∈ es) :
    lo ≤ e.rangeStart ∧ e.rangeStart < e.rangeEnd ∧ e.rangeEnd ≤ hi := by
  induction es generalizing lo with
  | nil => simp at he
  | cons a as ih =>
    obtain ⟨hstart, hne, htail⟩ := h
    rcases mem_cons.mp he with rfl | hmem
    · have := htail.le
      omega
    · have := ih htail hmem
      omega

theorem Tiles.cover (hlo : lo ≤ i) (hhi : i < hi) :
    ∃ e ∈ es, e.rangeStart ≤ i ∧ i < e.rangeEnd := by
  induction es generalizing lo with
  | nil =>
    have : lo = hi := h
    omega
  | cons a as ih =>
    obtain ⟨hstart, hne, htail⟩ := h
    by_cases hi' : i < a.rangeEnd
    · exact ⟨a, by simp, by omega, hi'⟩
    · obtain ⟨e, he, hin⟩ := ih htail (by omega)
      exact ⟨e, by simp [he], hin⟩

theorem Tiles.sorted : es.Pairwise fun a b => a.rangeEnd ≤ b.rangeStart := by
  induction es generalizing lo with
  | nil => exact List.Pairwise.nil
  | cons a as ih =>
    obtain ⟨hstart, hne, htail⟩ := h
    exact pairwise_cons.mpr ⟨fun b hb => (htail.bounds hb).1, ih htail⟩

/-- The binary search finds the entry that holds the inode. -/
theorem Tiles.entryAt (he : e ∈ es) (hstart : e.rangeStart ≤ i)
    (hend : i < e.rangeEnd) : entryAt es i = some e := by
  induction es generalizing lo with
  | nil => simp at he
  | cons a as ih =>
    obtain ⟨ha, hne, htail⟩ := h
    rcases mem_cons.mp he with rfl | hmem
    · have hnone : as.takeWhile (fun e => decide (e.rangeStart ≤ i)) = [] := by
        cases as with
        | nil => rfl
        | cons b bs =>
          have := htail.1
          simp only [takeWhile_cons, show ¬ b.rangeStart ≤ i by omega, decide_false]
          rfl
      simp [ShardMap.entryAt, hstart, hnone]
    · have hrest := ih htail hmem
      have hbound := htail.bounds hmem
      have hhead : a.rangeStart ≤ i := by omega
      have hpos : 0 < (as.takeWhile fun e => decide (e.rangeStart ≤ i)).length := by
        cases as with
        | nil => simp at hmem
        | cons b bs =>
          have := htail.1
          simp [show b.rangeStart ≤ i by omega]
      unfold ShardMap.entryAt at hrest ⊢
      rw [takeWhile_cons_of_pos (by simpa using hhead), length_cons,
        show ∀ n, 0 < n → n + 1 - 1 = (n - 1) + 1 by intros; omega, getElem?_cons_succ]
      · exact hrest
      · exact hpos

end

/-! ## Partitions -/

/-- The entries tile the inodes below `top`, with one entry per shard. -/
structure Partition (top : Nat) (es : List Entry) : Prop where
  tiles : Tiles 0 es top
  ids : (es.map (·.shardId)).Nodup

variable {top : Nat} {a b : Entry} {id : UInt64}

theorem Partition.eq_of_id (h : Partition top es) (ha : a ∈ es) (hb : b ∈ es)
    (hid : a.shardId = b.shardId) : a = b :=
  inj_on_of_nodup_map h.ids ha hb hid

theorem Partition.shardRange (h : Partition top es) (he : e ∈ es) :
    shardRange es e.shardId = some (e.rangeStart, e.rangeEnd) := by
  unfold ShardMap.shardRange
  cases hf : es.find? (·.shardId == e.shardId) with
  | none => exact absurd (find?_eq_none.mp hf e he) (by simp)
  | some a =>
    have hid : a.shardId = e.shardId := by simpa using find?_some hf
    rw [h.eq_of_id (mem_of_find?_eq_some hf) he hid]
    rfl

theorem exists_of_shardRange {range : Nat × Nat} (h : shardRange es id = some range) :
    ∃ e ∈ es, e.shardId = id ∧ range = (e.rangeStart, e.rangeEnd) := by
  obtain ⟨e, hf, rfl⟩ := Option.map_eq_some_iff.mp h
  exact ⟨e, mem_of_find?_eq_some hf, by simpa using find?_some hf, rfl⟩

theorem Partition.route (h : Partition top es) (he : e ∈ es) (hstart : e.rangeStart ≤ i)
    (hend : i < e.rangeEnd) : route es i = e.shardId := by
  unfold ShardMap.route
  rw [h.tiles.entryAt he hstart hend]
  rfl

/-- What the table promises to its users. -/
structure Promised (top : Nat) (es : List Entry) : Prop where
  sorted : es.Pairwise fun a b => a.rangeEnd ≤ b.rangeStart
  nonempty : ∀ e ∈ es, e.rangeStart < e.rangeEnd
  covers : ∀ i, (∃ e ∈ es, e.rangeStart ≤ i ∧ i < e.rangeEnd) ↔ i < top
  ids : (es.map (·.shardId)).Nodup
  routes : ∀ i < top, ∀ s, ShardMap.route es i = s ↔
    ∃ range, ShardMap.shardRange es s = some range ∧ range.1 ≤ i ∧ i < range.2

theorem Partition.promised (h : Partition top es) : Promised top es where
  sorted := h.tiles.sorted
  nonempty e he := (h.tiles.bounds he).2.1
  covers i := by
    constructor
    · rintro ⟨e, he, -, hend⟩
      have := h.tiles.bounds he
      omega
    · exact h.tiles.cover (Nat.zero_le i)
  ids := h.ids
  routes i hi s := by
    constructor
    · rintro rfl
      obtain ⟨e, he, hstart, hend⟩ := h.tiles.cover (Nat.zero_le i) hi
      exact ⟨_, by rw [h.route he hstart hend]; exact h.shardRange he, hstart, hend⟩
    · rintro ⟨range, hrange, hstart, hend⟩
      obtain ⟨e, he, rfl, rfl⟩ := exists_of_shardRange hrange
      exact h.route he hstart hend

/-! ## The initial table -/

variable {per k start n point : Nat} {pre : List Entry} {newId : UInt64}

theorem tiles_spread (hper : 0 < per) (hfit : start + k * per ≤ maxU64) :
    Tiles start (spread per k start n) (start + k * per) := by
  induction k generalizing start n with
  | zero => simp [spread, Tiles]
  | succ k ih =>
    have hmul : (k + 1) * per = k * per + per := Nat.succ_mul k per
    have hmin : min (start + per) maxU64 = start + per := by omega
    simp only [spread, hmin, Tiles]
    refine ⟨trivial, by omega, ?_⟩
    rw [show start + (k + 1) * per = start + per + k * per by omega]
    exact ih (by omega)

theorem spread_ids : (spread per k start n).map (·.shardId) = (range' n k).map UInt64.ofNat := by
  induction k generalizing start n with
  | zero => rfl
  | succ k ih => simp [spread, ih, range'_succ]

/-- The end of the inode range of the initial table. -/
def topOf (shardCount : UInt64) : Nat := shardCount.toNat * inodePerShard shardCount

theorem partition_fromShardCount {n : UInt64} (hn : 0 < n.toNat) :
    Partition (topOf n) (fromShardCount n) := by
  have hlt := n.toNat_lt
  have hne : n ≠ 0 := by
    rintro rfl
    simp at hn
  have hper : 0 < inodePerShard n := by
    have : 0 < maxU64 / n.toNat := Nat.div_pos (by unfold maxU64; omega) hn
    simp only [inodePerShard, hne, if_false]
    omega
  have hfit : n.toNat * inodePerShard n ≤ maxU64 := by
    have hle : inodePerShard n ≤ maxU64 / n.toNat := by
      simp only [inodePerShard, hne, if_false]
      omega
    exact (Nat.mul_le_mul_left _ hle).trans (Nat.mul_div_le _ _)
  refine ⟨?_, ?_⟩
  · have htiles : Tiles 0 (spread (inodePerShard n) n.toNat 0 0)
        (0 + n.toNat * inodePerShard n) := tiles_spread hper (by omega)
    simpa [topOf, fromShardCount] using htiles
  · rw [fromShardCount, spread_ids]
    refine List.Nodup.map_on ?_ nodup_range'
    intro x hx y hy hxy
    have hx' := (mem_range'_1.mp hx).2
    have hy' := (mem_range'_1.mp hy).2
    have := congrArg UInt64.toNat hxy
    rwa [UInt64.toNat_ofNat_of_lt' (by have : UInt64.size = 2 ^ 64 := rfl; omega),
      UInt64.toNat_ofNat_of_lt' (by have : UInt64.size = 2 ^ 64 := rfl; omega)] at this

/-! ## What each call does -/

variable {post : List Entry} {r : Request}

theorem dropWhile_split {p : Entry → Bool} (h : es.dropWhile p = e :: post) :
    es = es.takeWhile p ++ e :: post ∧ p e = false := by
  refine ⟨by rw [← h, takeWhile_append_dropWhile], ?_⟩
  have := head?_dropWhile_not p es
  rw [h] at this
  simpa using this

/-- A split either fails and changes nothing, or cuts an active entry in two. -/
theorem splitEntry_cases (es : List Entry) (newId splitFrom : UInt64) (point : Nat) :
    (∃ err, splitEntry es newId splitFrom point = (.error err, es)) ∨
      ∃ pre e post, es = pre ++ e :: post ∧ e.shardId = splitFrom ∧ e.state = .active ∧
        e.rangeStart < point ∧ point < e.rangeEnd ∧ (∀ x ∈ es, x.shardId ≠ newId) ∧
        splitEntry es newId splitFrom point = (.ok (), pre ++
          { e with rangeEnd := point } :: ⟨point, e.rangeEnd, newId, .active⟩ :: post) := by
  unfold splitEntry
  rcases hdrop : es.dropWhile (notSource splitFrom) with _ | ⟨e, post⟩
  · exact .inl ⟨_, rfl⟩
  obtain ⟨hes, hfound⟩ := dropWhile_split hdrop
  by_cases hpoint : point ≤ e.rangeStart ∨ e.rangeEnd ≤ point
  · exact .inl ⟨_, if_pos hpoint⟩
  by_cases hnew : (es.any (·.shardId == newId)) = true
  · exact .inl ⟨_, (if_neg hpoint).trans (if_pos hnew)⟩
  simp only [notSource, Bool.not_eq_false', Bool.and_eq_true, beq_iff_eq] at hfound
  refine .inr ⟨_, e, post, hes, hfound.1, hfound.2, by omega, by omega, by simpa using hnew,
    (if_neg hpoint).trans (if_neg hnew)⟩

/-- A removal of a draining shard takes out its entry and stretches the one before it. -/
theorem removeShard_cases (es : List Entry) (id : UInt64) :
    (∃ err, removeShard es id = (.error err, es) ∧
      ¬ ∃ e ∈ es, e.shardId = id ∧ e.state = .draining) ∨
    (∃ e ∈ es, e.shardId = id ∧ e.state = .draining) ∧
      ((∃ e post, es = e :: post ∧ e.shardId = id ∧ predecessor es id = none ∧
          removeShard es id = (.ok (), post)) ∨
        ∃ pre p e post, es = pre ++ p :: e :: post ∧ e.shardId = id ∧
          predecessor es id = some p ∧
          removeShard es id = (.ok (), pre ++ { p with rangeEnd := e.rangeEnd } :: post)) := by
  unfold removeShard
  split
  · rename_i hany
    have hex : ∃ e ∈ es, e.shardId = id ∧ e.state = .draining := by simpa using hany
    refine .inr ⟨hex, ?_⟩
    split
    · rename_i hdrop
      obtain ⟨e, he, hid, -⟩ := hex
      exact absurd (dropWhile_eq_nil_iff.mp hdrop e he) (by simp [hid])
    rename_i e post hdrop
    obtain ⟨hes, hfound⟩ := dropWhile_split hdrop
    have hid : e.shardId = id := by simpa using hfound
    split
    · rename_i p hp
      obtain ⟨pre, hpre⟩ := getLast?_eq_some_iff.mp hp
      refine .inr ⟨pre, p, e, post, ?_, hid, hp, by rw [hpre]; simp⟩
      rw [hpre] at hes
      simpa using hes
    · rename_i hp
      have hnil : es.takeWhile (·.shardId != id) = [] := getLast?_eq_none_iff.mp hp
      rw [hnil] at hes
      exact .inl ⟨e, post, hes, hid, hp, rfl⟩
  · rename_i hany
    have hno : ¬ ∃ e ∈ es, e.shardId = id ∧ e.state = .draining := by simpa using hany
    split <;> exact .inl ⟨_, rfl, hno⟩

/-! ## What a call keeps -/

/-- Shards that were draining have the range they had. -/
def DrainingKept (es es' : List Entry) : Prop :=
  ∀ e ∈ es, e.state = .draining → ∀ e' ∈ es', e'.shardId = e.shardId →
    e'.rangeStart = e.rangeStart ∧ e'.rangeEnd = e.rangeEnd

theorem Partition.drainingKept_self (h : Partition top es) : DrainingKept es es := by
  intro e he _ e' he' hid
  rw [h.eq_of_id he' he hid]
  exact ⟨rfl, rfl⟩

theorem Partition.split (h : Partition top (pre ++ e :: post)) (hactive : e.state = .active)
    (hstart : e.rangeStart < point) (hend : point < e.rangeEnd)
    (hnew : ∀ x ∈ pre ++ e :: post, x.shardId ≠ newId) :
    let es' := pre ++ { e with rangeEnd := point } :: ⟨point, e.rangeEnd, newId, .active⟩ :: post
    Partition top es' ∧ DrainingKept (pre ++ e :: post) es' := by
  intro es'
  refine ⟨⟨?_, ?_⟩, ?_⟩
  · obtain ⟨mid, hpre, hlo, hne, hpost⟩ := tiles_append.mp h.tiles
    exact tiles_append.mpr ⟨mid, hpre, hlo, hstart, rfl, hend, hpost⟩
  · have hids := h.ids
    simp only [es', map_append, map_cons] at hids ⊢
    rw [append_cons] at hids ⊢
    refine nodup_middle.mpr (nodup_cons.mpr ⟨?_, hids⟩)
    simp only [mem_append, mem_map, mem_singleton] at hnew ⊢
    rintro ((⟨x, hx, hid⟩ | hid) | ⟨x, hx, hid⟩)
    · exact hnew x (by simp [hx]) hid
    · exact hnew e (by simp) hid.symm
    · exact hnew x (by simp [hx]) hid
  · intro d hd hdraining e' he' hid
    have hcases : e'.shardId = e.shardId ∨ e'.shardId = newId ∨ e' ∈ pre ++ e :: post := by
      simp only [es', mem_append, mem_cons] at he' ⊢
      rcases he' with he' | rfl | rfl | he' <;> simp_all
    rcases hcases with hsrc | hnewId | hold
    · rw [h.eq_of_id hd (by simp) (hid.symm.trans hsrc), hactive] at hdraining
      cases hdraining
    · exact absurd (hid.symm.trans hnewId) (hnew d hd)
    · exact h.drainingKept_self d hd hdraining e' hold hid

theorem Entry.drained_ranges (id : UInt64) (e : Entry) :
    (e.drained id).rangeStart = e.rangeStart ∧ (e.drained id).rangeEnd = e.rangeEnd ∧
      (e.drained id).shardId = e.shardId := by
  unfold Entry.drained
  split <;> simp

theorem tiles_drained (h : Tiles lo es hi) : Tiles lo (es.map (Entry.drained id)) hi := by
  induction es generalizing lo with
  | nil => exact h
  | cons a as ih =>
    obtain ⟨hstart, hend, -⟩ := Entry.drained_ranges id a
    simp only [map_cons, Tiles, hstart, hend]
    exact ⟨h.1, h.2.1, ih h.2.2⟩

theorem Partition.drain (h : Partition top es) (id : UInt64) :
    Partition top (es.map (Entry.drained id)) ∧ DrainingKept es (es.map (Entry.drained id)) := by
  refine ⟨⟨tiles_drained h.tiles, ?_⟩, ?_⟩
  · rw [map_map]
    convert h.ids using 2
    funext x
    exact (x.drained_ranges id).2.2
  · intro d hd _ e' he' hid
    obtain ⟨x, hx, rfl⟩ := mem_map.mp he'
    obtain ⟨hstart, hend, hsame⟩ := x.drained_ranges id
    rw [hstart, hend, h.eq_of_id hx hd (hsame.symm.trans hid)]
    exact ⟨rfl, rfl⟩

theorem Partition.merge {p : Entry} (h : Partition top (pre ++ p :: e :: post)) :
    let es' := pre ++ { p with rangeEnd := e.rangeEnd } :: post
    Partition top es' ∧
      (DrainingKept (pre ++ p :: e :: post) es' ↔ p.state = .active) := by
  intro es'
  obtain ⟨mid, hpre, hlo, hne, hmid, hne', hpost⟩ := tiles_append.mp h.tiles
  refine ⟨⟨tiles_append.mpr ⟨mid, hpre, hlo, by show p.rangeStart < e.rangeEnd; omega, hpost⟩, ?_⟩,
    fun hkept => ?_, fun hactive => ?_⟩
  · refine h.ids.sublist ?_
    simp [es']
  · cases hstate : p.state with
    | active => rfl
    | draining =>
      have := (hkept p (by simp) hstate { p with rangeEnd := e.rangeEnd } (by simp [es']) rfl).2
      simp only at this
      omega
  · intro d hd hdraining e' he' hid
    have hcases : e'.shardId = p.shardId ∨ e' ∈ pre ++ p :: e :: post := by
      simp only [es', mem_append, mem_cons] at he' ⊢
      rcases he' with he' | rfl | he' <;> simp_all
    rcases hcases with hsrc | hold
    · rw [h.eq_of_id hd (by simp) (hid.symm.trans hsrc), hactive] at hdraining
      cases hdraining
    · exact h.drainingKept_self d hd hdraining e' hold hid

/-! ## Runs of calls -/

/-- A shard is removed only when an active entry stands before it. -/
def Orderly (es : List Entry) : Request → Prop
  | .removeShard id =>
    (∃ e ∈ es, e.shardId = id ∧ e.state = .draining) →
      ∃ p, predecessor es id = some p ∧ p.state = .active
  | _ => True

/-- What is asked of one call: the table partitions the inodes afterwards, a failed call
changes nothing, and no range goes to a draining shard. -/
def Kept (top : Nat) (es : List Entry) (r : Request) : Prop :=
  Promised top (step es r) ∧ (∀ err, (call es r).1 = .error err → step es r = es) ∧
    DrainingKept es (step es r)

/-- A call that leaves the table is as good as the table was. -/
theorem Partition.unchanged (h : Partition top es) (hr : step es r = es) :
    Kept top es r ∧ Partition top (step es r) := by
  rw [Kept, hr]
  exact ⟨⟨h.promised, fun _ _ => rfl, h.drainingKept_self⟩, h⟩

theorem Partition.changed {es' : List Entry} (h : Partition top es' ∧ DrainingKept es es')
    (hr : call es r = (.ok (), es')) : Kept top es r ∧ Partition top (step es r) := by
  obtain rfl : step es r = es' := by rw [step, hr]
  refine ⟨⟨h.1.promised, fun err herr => ?_, h.2⟩, h.1⟩
  rw [hr] at herr
  cases herr

theorem Partition.split_kept (h : Partition top es) {splitFrom : UInt64}
    (hr : call es r = splitEntry es newId splitFrom point) :
    Kept top es r ∧ Partition top (step es r) := by
  rcases splitEntry_cases es newId splitFrom point with ⟨err, herr⟩ |
    ⟨pre, e, post, rfl, -, hactive, hstart, hend, hnew, hok⟩
  · exact h.unchanged (by rw [step, hr, herr])
  · exact Partition.changed (h.split hactive hstart hend hnew) (hr.trans hok)

/-- `add_shard_auto` leaves the table alone or executes its plan. -/
theorem addShardAuto_cases (es : List Entry) (splitFrom : Option UInt64) (dryRun : Bool) :
    step es (.addShardAuto splitFrom dryRun) = es ∨
      ∃ plan, planAddShard es splitFrom = .ok plan ∧ dryRun = false ∧
        call es (.addShardAuto splitFrom dryRun) = executeAddShard es plan := by
  simp only [step, call, addShardAuto]
  split
  · exact .inl rfl
  rename_i plan hplan
  cases dryRun with
  | true => exact .inl rfl
  | false =>
    refine .inr ⟨plan, hplan, rfl, ?_⟩
    rcases hexec : executeAddShard es plan with ⟨_ | ⟨⟩, es'⟩ <;> rfl

theorem Partition.orderly_kept (h : Partition top es) (hr : Orderly es r) :
    Kept top es r ∧ Partition top (step es r) := by
  cases r with
  | addShard | executeAddShard => exact h.split_kept rfl
  | addShardAuto splitFrom dryRun =>
    rcases addShardAuto_cases es splitFrom dryRun with hsame | ⟨plan, -, -, hcall⟩
    · exact h.unchanged hsame
    · exact h.split_kept hcall
  | planAddShard splitFrom => exact h.unchanged rfl
  | drainShard id =>
    by_cases hany : (es.any fun e => e.shardId == id && e.state == .active) = true
    · exact Partition.changed (h.drain id) (by simp only [call, drainShard, hany, if_true])
    · exact h.unchanged (by simp only [step, call, drainShard, hany]; rfl)
  | removeShard id =>
    rcases removeShard_cases es id with ⟨err, herr, -⟩ | ⟨hex, hcase⟩
    · exact h.unchanged (by rw [step, call, herr])
    obtain ⟨p, hp, hactive⟩ := hr hex
    rcases hcase with ⟨e, post, -, -, hnone, -⟩ | ⟨pre, p', e, post, rfl, -, hp', hok⟩
    · rw [hnone] at hp
      cases hp
    rw [hp] at hp'
    cases hp'
    obtain ⟨hpart, hkept⟩ := h.merge
    exact Partition.changed ⟨hpart, hkept.mpr hactive⟩ hok

/-- A removal that is not orderly takes inodes away or hands them to a draining shard. -/
theorem Partition.orderly_of_kept (h : Partition top es) (hr : Kept top es r) : Orderly es r := by
  cases r with
  | removeShard id =>
    intro hex
    obtain ⟨hpromised, -, hkept⟩ := hr
    rcases removeShard_cases es id with ⟨-, -, hno⟩ | ⟨-, hcase⟩
    · exact absurd hex hno
    rcases hcase with ⟨e, post, rfl, -, -, hok⟩ | ⟨pre, p, e, post, rfl, -, hp, hok⟩
    · have hstep : step (e :: post) (.removeShard id) = post := by rw [step, call, hok]
      obtain ⟨he0, hne, htail⟩ := h.tiles
      have htop : 0 < top := by
        have := htail.le
        omega
      rw [hstep] at hpromised
      obtain ⟨x, hx, hx0, -⟩ := (hpromised.covers 0).mpr htop
      have := htail.bounds hx
      omega
    · refine ⟨p, hp, (h.merge).2.mp ?_⟩
      rwa [step, call, hok] at hkept
  | _ => trivial

/-- **From the initial table of any number of shards, every call of a run keeps the
partition, changes nothing when it fails and hands no range to a draining shard exactly
when shards are removed only from behind an active entry.** -/
theorem run_kept_iff (n : UInt64) (hn : 0 < n.toNat) (rs : List Request) :
    Promised (topOf n) (fromShardCount n) ∧
      (Along step (Kept (topOf n)) (fromShardCount n) rs ↔
        Along step Orderly (fromShardCount n) rs) := by
  have hstart := partition_fromShardCount hn
  refine ⟨hstart.promised, along_iff (I := Partition (topOf n)) ?_ ?_ rs hstart⟩
  · intro es r hes hkept
    exact (hes.orderly_kept (hes.orderly_of_kept hkept)).2
  · intro es r hes
    exact ⟨hes.orderly_of_kept, fun hr => (hes.orderly_kept hr).1⟩

/-- Draining and removing the second of two shards is orderly. -/
theorem last_shard_removed_kept :
    Along step (Kept (topOf 2)) (fromShardCount 2) [.drainShard 1, .removeShard 1] :=
  (run_kept_iff 2 (by decide) _).2.mpr
    ⟨trivial, fun _ => ⟨⟨0, 1000000, 0, .active⟩, by decide, rfl⟩, trivial⟩

/-- Removing the first shard takes its inodes away, although they still route somewhere;
removing the second while the first is draining hands the range to the draining shard; and
an inode behind the last range routes to a shard whose range does not hold it. -/
theorem removal_breaks_partition :
    (let es := [.drainShard 0, .removeShard 0].foldl step (fromShardCount 2);
      route es 5 = 1 ∧ shardRange es 1 = some (1000000, 2000000) ∧ ¬ Promised (topOf 2) es) ∧
    (let es := [.drainShard 0, .drainShard 1].foldl step (fromShardCount 2);
      es.map (·.state) = [.draining, .draining] ∧
        step es (.removeShard 1) = [⟨0, 2000000, 0, .draining⟩]) ∧
    route (fromShardCount 1) 1000000 = 0 ∧
      shardRange (fromShardCount 1) 0 = some (0, 1000000) := by
  refine ⟨⟨by decide, by decide, fun h => ?_⟩, by decide, by decide, by decide⟩
  have hrest : [.drainShard 0, .removeShard 0].foldl step (fromShardCount 2) =
      [⟨1000000, 2000000, 1, .active⟩] := by decide
  rw [hrest] at h
  obtain ⟨e, he, h0, -⟩ := (h.covers 0).mpr (by decide)
  simp at he
  simp [he] at h0

end PowerFS.Allocator.ShardMap
