import PowerFS.Filer.Arbiter

/-! # What the parts of a critical section do

The functions of `Locks` taken apart: which fields of a lock each of them leaves alone, and
what it does to the holders and the recalls. Nothing here is about one property; the proofs
about the arbiter read the operations through these lemmas. -/
namespace PowerFS.Filer.LockFacts
open Lib.FirstMatch Locks Arbiter List MdLock

variable {C : Type} {l : MdLock C}

/-! ## Capability sets -/

theorem conflicts_eq (c : CapSet) : c.conflicts = (c.w || c.x) := by
  cases c with
  | mk r w x => cases r <;> cases w <;> cases x <;> rfl

/-- What a recall of a part leaves has no more than there was. -/
theorem conflicts_remove {c d : CapSet} (h : (c.remove d).conflicts = true) :
    c.conflicts = true := by
  rw [conflicts_eq] at h ⊢
  simp only [CapSet.remove, Bool.or_eq_true, Bool.and_eq_true] at h ⊢
  exact h.imp And.left And.left

/-- A recall of the conflicting part leaves nothing that conflicts. -/
theorem conflicts_remove_inter (c : CapSet) :
    (c.remove (c.inter conflictCaps)).conflicts = false := by
  cases c with
  | mk r w x => cases r <;> cases w <;> cases x <;> rfl

/-! ## Evaluation and clean-up -/

section

variable (l : MdLock C)

theorem eval_with : ∃ caps, l.eval = { l with evalIssued := caps } := by
  fun_cases eval <;> exact ⟨_, rfl⟩

@[simp] theorem lockType_eval : l.eval.lockType = l.lockType := by
  fun_cases eval <;> rfl

@[simp] theorem state_eval : l.eval.state = l.state := by
  fun_cases eval <;> rfl

@[simp] theorem holders_eval : l.eval.holders = l.holders := by
  fun_cases eval <;> rfl

@[simp] theorem gatherList_eval : l.eval.gatherList = l.gatherList := by
  fun_cases eval <;> rfl

@[simp] theorem gatherRemaining_eval : l.eval.gatherRemaining = l.gatherRemaining := by
  fun_cases eval <;> rfl

@[simp] theorem gatherTarget_eval : l.eval.gatherTarget = l.gatherTarget := by
  fun_cases eval <;> rfl

@[simp] theorem waiting_eval : l.eval.waiting = l.waiting := by
  fun_cases eval <;> rfl

end

section

variable (s : LockState)

@[simp] theorem lockType_goTo : (l.goTo s).lockType = l.lockType :=
  lockType_eval _

@[simp] theorem state_goTo : (l.goTo s).state = s := state_eval _

@[simp] theorem holders_goTo : (l.goTo s).holders = l.holders := holders_eval _

@[simp] theorem gatherList_goTo : (l.goTo s).gatherList = l.gatherList :=
  gatherList_eval _

@[simp] theorem gatherTarget_goTo : (l.goTo s).gatherTarget = l.gatherTarget :=
  gatherTarget_eval _

@[simp] theorem waiting_goTo : (l.goTo s).waiting = l.waiting := waiting_eval _

end

/-- The holders whose lease runs at `now`. -/
def unexpired (l : MdLock C) (now : Nat) : List (LockHolder C) :=
  l.holders.filter fun h => now < h.expireAt

theorem collect_with (l : MdLock C) (now : Nat) : ∃ state caps, l.collect now =
    { l with holders := unexpired l now, state := state, evalIssued := caps } ∧
      (state = l.state ∨ state = .available) := by
  have hgc : ∃ state, (l.garbageCollect now).2 =
      { l with holders := unexpired l now, state := state } ∧
        (state = l.state ∨ state = .available) := by
    refine ⟨_, rfl, ?_⟩
    split
    · exact .inr rfl
    · exact .inl rfl
  obtain ⟨state, hgc, hstate⟩ := hgc
  simp only [collect]
  split
  · obtain ⟨caps, h⟩ := eval_with (l.garbageCollect now).2
    exact ⟨state, caps, by rw [h, hgc], hstate⟩
  · exact ⟨state, l.evalIssued, hgc, hstate⟩

@[simp] theorem lockType_collect (now : Nat) : (l.collect now).lockType = l.lockType := by
  obtain ⟨state, caps, h, -⟩ := collect_with l now
  rw [h]

@[simp] theorem holders_collect (now : Nat) : (l.collect now).holders = unexpired l now := by
  obtain ⟨state, caps, h, -⟩ := collect_with l now
  rw [h]

@[simp] theorem gatherList_collect (now : Nat) : (l.collect now).gatherList = l.gatherList := by
  obtain ⟨state, caps, h, -⟩ := collect_with l now
  rw [h]

theorem state_collect (now : Nat) :
    (l.collect now).state = l.state ∨ (l.collect now).state = .available := by
  obtain ⟨state, caps, h, hs⟩ := collect_with l now
  rw [h]
  exact hs

@[simp] theorem garbageCollect_lockType (now : Nat) :
    (l.garbageCollect now).2.lockType = l.lockType := rfl

variable {now sn : Nat} {c : C}

variable {k : Counters} {target : GatherTarget} {recalled : LockHolder C → Option (CapSet × CapSet)}

@[simp] theorem lockType_openGather :
    (l.openGather k now target recalled).lock.lockType = l.lockType := by
  fun_cases openGather <;> rfl

@[simp] theorem lockType_promoteToLoner (newSn : Nat) :
    (l.promoteToLoner newSn).lockType = l.lockType := by
  fun_cases promoteToLoner with
  | case1 => rfl
  | case2 => exact lockType_eval _

@[simp] theorem lockType_settleShared (promotes : Bool) (k : Counters) :
    (l.settleShared promotes k).lock.lockType = l.lockType := by
  fun_cases settleShared with
  | case1 | case3 => rfl
  | case2 => exact lockType_promoteToLoner _

@[simp] theorem lockType_admitReader [Env] :
    (l.admitReader now sn c).lockType = l.lockType := lockType_goTo _

@[simp] theorem lockType_admitExclusive [Env] :
    (l.admitExclusive now sn c).lockType = l.lockType := lockType_eval _

@[simp] theorem lockType_activate : l.activate.lockType = l.lockType := by
  fun_cases activate <;> rfl

@[simp] theorem lockType_retire : l.retire.lockType = l.lockType := by
  fun_cases retire <;> rfl

/-! ## The end of a gather -/

theorem mem_ackedClients :
    c ∈ l.ackedClients ↔ ∃ g ∈ l.gatherList, g.acked = true ∧ g.clientId = c := by
  simp [ackedClients, and_assoc]

/-- A holder after the end of a gather. -/
def settled (h : LockHolder C) : LockHolder C := { h with recallInFlight := false }

section Complete

variable [DecidableEq C]

@[simp] theorem lockType_gatherComplete : l.gatherComplete.lockType = l.lockType := by
  simp only [gatherComplete, lockType_eval]
  split <;> rfl

@[simp] theorem gatherList_gatherComplete : l.gatherComplete.gatherList = [] := by
  simp only [gatherComplete, gatherList_eval]
  split <;> rfl

@[simp] theorem gatherRemaining_gatherComplete : l.gatherComplete.gatherRemaining = 0 := by
  simp only [gatherComplete, gatherRemaining_eval]
  split <;> rfl

@[simp] theorem gatherTarget_gatherComplete : l.gatherComplete.gatherTarget = l.gatherTarget := by
  simp only [gatherComplete, gatherTarget_eval]
  split <;> rfl

@[simp] theorem waiting_gatherComplete : l.gatherComplete.waiting = l.waiting := by
  simp only [gatherComplete, waiting_eval]
  split <;> rfl

theorem holders_gatherComplete_toExcl (h : l.gatherTarget = .toExcl) :
    l.gatherComplete.holders =
      (l.holders.map settled).filter fun h => h.clientId ∉ l.ackedClients := by
  simp only [gatherComplete, holders_eval, h]
  rfl

theorem holders_gatherComplete (h : l.gatherTarget ≠ .toExcl) :
    l.gatherComplete.holders = l.holders.map settled := by
  simp only [gatherComplete, holders_eval]
  split
  · rename_i ht
    exact absurd ht h
  all_goals rfl

/-- Who is left after a gather: nobody new, and for EXCL nobody whose recall was answered. -/
theorem mem_gatherComplete {x : LockHolder C} (hx : x ∈ l.gatherComplete.holders) :
    ∃ y ∈ l.holders, x = settled y ∧
      (l.gatherTarget = .toExcl → y.clientId ∉ l.ackedClients) := by
  by_cases ht : l.gatherTarget = .toExcl
  · rw [holders_gatherComplete_toExcl ht, mem_filter] at hx
    obtain ⟨y, hy, rfl⟩ := mem_map.mp hx.1
    exact ⟨y, hy, rfl, fun _ => of_decide_eq_true hx.2⟩
  · rw [holders_gatherComplete ht] at hx
    obtain ⟨y, hy, rfl⟩ := mem_map.mp hx
    exact ⟨y, hy, rfl, fun h => absurd h ht⟩

/-- The state that a gather with the given target ends in, for a number of holders. -/
def stateAfter (target : GatherTarget) (holders : Nat) : LockState :=
  match target with
  | .toExcl => .excl
  | .toShared => .shared
  | .toLoner => if holders = 1 then .loner else .shared
  | .toDscatter => .dscatter
  | .toSync => .sync

theorem state_gatherComplete :
    l.gatherComplete.state = stateAfter l.gatherTarget l.holders.length := by
  simp only [gatherComplete, state_eval]
  cases l.gatherTarget <;> simp [stateAfter]

theorem stateAfter_ne_gather (target : GatherTarget) (n : Nat) : stateAfter target n ≠ .gather := by
  fun_cases stateAfter <;> simp

/-! ## Timeouts -/

/-- The three things a look at the timeouts can come to. -/
theorem gatherTimeout_cases [Env] (k : Counters) (l : MdLock C) :
    ((l.state ≠ .gather ∨ l.gatherRemaining = 0) ∧ l.gatherTimeout k = ⟨(), l, k, []⟩) ∨
    ∃ m lapses, m = l.markLapsed recallTimeout (instant k.reads) ∧
      lapses = l.lapses recallTimeout (instant k.reads) ∧
      l.state = .gather ∧ l.gatherRemaining ≠ 0 ∧
      ((∃ g ∈ m.gatherList, g.acked = false) ∧ l.gatherTimeout k = ⟨(), m, k.read, lapses⟩ ∨
      (∀ g ∈ m.gatherList, g.acked = true) ∧
        l.gatherTimeout k = ⟨(), m.gatherComplete, k.read, lapses⟩) := by
  by_cases hidle : l.state ≠ .gather ∨ l.gatherRemaining = 0
  · exact .inl ⟨hidle, if_pos hidle⟩
  have hrun : l.gatherTimeout k = _ := if_neg hidle
  rw [not_or, not_not] at hidle
  refine .inr ⟨_, _, rfl, rfl, hidle.1, hidle.2, ?_⟩
  dsimp only at hrun
  by_cases hall : ∀ g ∈ (l.markLapsed recallTimeout (instant k.reads)).gatherList, g.acked = true
  · rw [if_pos (all_eq_true.mpr hall)] at hrun
    exact .inr ⟨hall, hrun⟩
  rw [if_neg fun h => hall (all_eq_true.mp h)] at hrun
  push Not at hall
  obtain ⟨g, hg, hack⟩ := hall
  exact .inl ⟨⟨g, hg, Bool.eq_false_iff.mpr hack⟩, hrun⟩

@[simp] theorem gatherTarget_gatherTimeout [Env] (k : Counters) :
    (l.gatherTimeout k).lock.gatherTarget = l.gatherTarget := by
  rcases gatherTimeout_cases k l with ⟨-, h⟩ | ⟨m, _, rfl, -, -, -, ⟨-, h⟩ | ⟨-, h⟩⟩
  · rw [h]
  · rw [h]
    rfl
  · rw [h]
    exact gatherTarget_gatherComplete

/-! ## Answers -/

/-- The lock once a client has answered a recall. -/
def answered (l : MdLock C) (c : C) (sn : Nat) : MdLock C :=
  { l with
    gatherList := l.gatherList.map fun g =>
      if g.clientId = c && g.sn = sn then { g with acked := true } else g
    holders := modifyFirst (fun h => h.clientId = c)
      (fun h => { h with grantedCaps := h.retainCaps, recallInFlight := false }) l.holders }

/-! ## Departures -/

/-- The lock without the holders that are not of `p`. -/
def without (l : MdLock C) (p : LockHolder C → Bool) : MdLock C :=
  { l with holders := l.holders.filter p }

/-- What a section does in which the holders that are not of `p` leave; a lock that is gathering
goes on as `g`. -/
inductive Departs (k : Counters) (l : MdLock C) (p : LockHolder C → Bool) (g : MdLock C) :
    Outcome C (Departure C) → Prop
  | nobody (hall : ∀ h ∈ l.holders, p h = true) : Departs k l p g ⟨⟨false, none, false⟩, l, k, []⟩
  | left (hs : l.state ≠ .gather) {s : LockState}
      (hnext : s = .available ∨ s = l.state ∨ l.state = .dscatter) (wake : Bool) :
      Departs k l p g ⟨⟨true, none, wake⟩, (without l p).goTo s, k, []⟩
  | settled (hs : l.state ≠ .gather) {promotes : Bool} {d : Departure C}
      (hd : d.promoted = ((without l p).settleShared promotes k).reply.promoted) :
      Departs k l p g ⟨d, ((without l p).settleShared promotes k).lock.eval,
        ((without l p).settleShared promotes k).counters, []⟩
  | gathering (hs : l.state = .gather) (hsome : ∃ h ∈ l.holders, p h = false) (wake : Bool) :
      Departs k l p g ⟨⟨true, none, wake⟩, g.eval, k, []⟩

omit [DecidableEq C] in
theorem departs_of {p : LockHolder C → Bool} {g : MdLock C} {o : Outcome C (Departure C)}
    (ho : (∃ h ∈ l.holders, p h = false) → Departs k l p g o) :
    Departs k l p g (if (l.holders.filter p).length = l.holders.length
      then ⟨⟨false, none, false⟩, l, k, []⟩ else o) := by
  by_cases hall : ∀ h ∈ l.holders, p h = true
  · rw [filter_eq_self.mpr hall, if_pos rfl]
    exact .nobody hall
  · rw [if_neg fun h => hall (filter_eq_self.mp (filter_sublist.eq_of_length h))]
    push Not at hall
    exact ho (by simpa using hall)

theorem unlock_departs (k : Counters) (l : MdLock C) (sn : Nat) :
    Departs k l (fun h => h.sn ≠ sn) ((without l fun h => h.sn ≠ sn).leaveGather sn).2
      (l.unlock k sn) := by
  refine departs_of fun hsome => ?_
  dsimp only
  split
  case h_1 hs | h_2 hs => exact .left (hs.trans_ne (by simp)) (.inl rfl) true
  case h_3 hs | h_4 hs => exact .settled (hs.trans_ne (by simp)) rfl
  case h_5 hs => exact .left (hs.trans_ne (by simp)) (.inr (.inr hs)) false
  case h_6 hs => exact .gathering hs hsome _
  case h_7 hs => exact .left hs (.inr (.inl rfl)) false

theorem posixUnlock_departs (k : Counters) (l : MdLock C) (c : C) :
    Departs k l (fun h => h.clientId ≠ c) (without l fun h => h.clientId ≠ c)
      (l.posixUnlock k c) := by
  refine departs_of fun hsome => ?_
  dsimp only
  split
  case h_1 hs | h_2 hs => exact .left (hs.trans_ne (by simp)) (.inl rfl) true
  case h_3 hs | h_4 hs => exact .settled (hs.trans_ne (by simp)) rfl
  by_cases hs : l.state = .gather
  · exact .gathering hs hsome false
  · exact .left hs (.inr (.inl rfl)) false

/-- The lock after the recalls of a client are forgotten. -/
def forgotten (l : MdLock C) (c : C) : MdLock C :=
  if (l.forgetRecalls c).gatherRemaining = 0 then (l.forgetRecalls c).gatherComplete
  else l.forgetRecalls c

theorem evict_departs (k : Counters) (l : MdLock C) (c : C) :
    Departs k l (fun h => h.clientId ≠ c) (forgotten (without l fun h => h.clientId ≠ c) c)
      (l.evict k c) := by
  refine departs_of fun hsome => ?_
  dsimp only
  split
  case h_1 hs => exact .left (hs.trans_ne (by simp)) (.inl rfl) false
  case h_2 hs | h_3 hs => exact .settled (hs.trans_ne (by simp)) rfl
  case h_4 hs => exact .left (hs.trans_ne (by simp)) (.inr (.inr hs)) false
  case h_5 hs => exact .gathering hs hsome false
  case h_6 hs => exact .left hs (.inr (.inl rfl)) false

/-! ## The type of a lock stays -/

@[simp] theorem lockType_gatherTimeout [Env] (k : Counters) :
    (l.gatherTimeout k).lock.lockType = l.lockType := by
  rcases gatherTimeout_cases k l with ⟨-, h⟩ | ⟨m, _, rfl, -, -, -, ⟨-, h⟩ | ⟨-, h⟩⟩
  · rw [h]
  · rw [h]
    rfl
  · rw [h]
    exact lockType_gatherComplete

@[simp] theorem lockType_gatherStage [Env] :
    (l.gatherStage k now target recalled).lock.lockType = l.lockType := by
  rw [gatherStage, lockType_gatherTimeout, lockType_openGather]

@[simp] theorem lockType_leaveGather (sn : Nat) : (l.leaveGather sn).2.lockType = l.lockType := by
  fun_cases leaveGather with
  | case1 => exact lockType_gatherComplete
  | case2 | case3 | case4 => rfl

@[simp] theorem lockType_admitWriter [Env] :
    (l.admitWriter now sn c).lockType = l.lockType := lockType_eval _

theorem lockType_run [Env] (k : Counters) (l : MdLock C) (act : Act C) :
    (act.run k l).lock.lockType = l.lockType := by
  cases act <;> simp only [Act.run]
  case rdlock c => fun_cases rdlock <;> simp +zetaDelta
  case wrlock c => fun_cases wrlock <;> simp +zetaDelta
  case xlock c => fun_cases xlock <;> simp +zetaDelta
  case unlock sn => fun_cases unlock <;> simp +zetaDelta
  case posixUnlock c => fun_cases posixUnlock <;> simp +zetaDelta
  case recallAck c sn => fun_cases recallAck <;> simp +zetaDelta
  case sweep now =>
    rw [sweep, lockType_retire, lockType_gatherTimeout]
    fun_cases sweepExpired <;> simp +zetaDelta
  case evict c =>
    fun_cases evict <;>
      simp +zetaDelta [apply_ite lockType, forgetRecalls]
  case quiesce exclude now newEpoch => fun_cases quiesce <;> rfl
  case quiesceCheck => fun_cases quiesceCheck <;> simp +zetaDelta
  case fenceEpoch | localUnlock => exact lockType_goTo _
  case fileFlushToSync c =>
    fun_cases fileFlushToSync <;> simp +zetaDelta [apply_ite lockType]
  case fileSyncToShared => fun_cases fileSyncToShared <;> simp
  case localLock => fun_cases localLock <;> simp
  case scatterWrlock c =>
    fun_cases scatterWrlock <;> simp +zetaDelta [admitScattered]
  case scatterUnlock sn => exact lockType_eval _

theorem findHolder_some {h : LockHolder C} (hf : l.findHolder c = some h) :
    h ∈ l.holders ∧ h.clientId = c :=
  ⟨mem_of_find?_eq_some hf, by simpa using find?_some hf⟩

theorem lonerOf_some {h : LockHolder C} (hl : l.lonerOf c = some h) :
    l.state = .loner ∧ l.holders.head? = some h ∧ h.clientId = c := by
  simp only [lonerOf] at hl
  split at hl
  · rename_i hs
    rw [Option.filter_eq_some_iff] at hl
    exact ⟨hs, hl.1, of_decide_eq_true hl.2⟩
  · cases hl

/-- Waking the requests of a lock that none waits for does nothing. -/
theorem wakeWaiters_idle [Env] {a : LockArbiter C} {i : Nat} {t : LockType}
    (h : (a.lock i t).waiting = []) : (a.wakeWaiters i t).lock i t = a.lock i t ∧
      (a.wakeWaiters i t).counters = a.counters := by
  have hwake : a.wakeWaiters i t = (a.enter i t .drainWaiters).2 := by
    simp only [LockArbiter.wakeWaiters, LockArbiter.enter, Act.run, h]
    rfl
  rw [hwake, LockArbiter.lock_enter_self]
  refine ⟨?_, rfl⟩
  rw [Act.run, ← h]

end Complete

end PowerFS.Filer.LockFacts
