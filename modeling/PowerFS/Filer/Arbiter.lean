import PowerFS.Lib.StepRuns
import PowerFS.Wal.Index
import PowerFS.Filer.Locks

/-! # The lock arbiter

`LockArbiter`: nine locks for every inode, behind one mutex. An operation of the arbiter is
a sequence of critical sections, most of them on one lock; between two of them other
operations may run. An `Act` is a critical section on one lock; `enter` performs one and
writes it into a log, and every operation is made of those. What is shown of the runs of
single sections therefore holds for the operations, one after another or interleaved. -/
namespace PowerFS.Filer.Arbiter
open Lib.FinTable Wal.Index Locks

variable {C : Type}

/-! ## Critical sections on one lock -/

inductive Act (C : Type)
  | rdlock (c : C)
  | wrlock (c : C)
  | xlock (c : C)
  | enqueue (w : LockWaiter C)
  | drainWaiters
  | unlock (sn : Nat)
  | posixUnlock (c : C)
  | recallAck (c : C) (sn : Nat)
  | sweep (now : Nat)
  | evict (c : C)
  | quiesce (exclude : Option C) (now newEpoch : Nat)
  | quiesceCheck
  | fenceEpoch
  | fileFlushToSync (c : C)
  | fileSyncToShared
  | localLock
  | localUnlock
  | scatterWrlock (c : C)
  | scatterUnlock (sn : Nat)

def Act.Answer : Act C → Type
  | .rdlock _ | .wrlock _ | .xlock _ | .scatterWrlock _ => LockGrantResult C
  | .drainWaiters => List (LockWaiter C)
  | .unlock _ | .posixUnlock _ | .evict _ | .sweep _ => Departure C
  | .recallAck _ _ => Bool × Bool
  | .quiesce _ _ _ | .fileFlushToSync _ => List (RecallTask C)
  | .quiesceCheck | .localLock => Bool
  | .enqueue _ | .fenceEpoch | .fileSyncToShared | .localUnlock | .scatterUnlock _ => Unit

variable [DecidableEq C]

def Act.run [Env] (k : Counters) (l : MdLock C) :
    (act : Act C) → Outcome C act.Answer
  | .rdlock c => l.rdlock k c
  | .wrlock c => l.wrlock k c
  | .xlock c => l.xlock k c
  | .enqueue w => ⟨(), { l with waiting := l.waiting ++ [w] }, k, []⟩
  | .drainWaiters => ⟨l.waiting, { l with waiting := [] }, k, []⟩
  | .unlock sn => l.unlock k sn
  | .posixUnlock c => l.posixUnlock k c
  | .recallAck c sn => ⟨(l.recallAck c sn).1, (l.recallAck c sn).2, k, []⟩
  | .sweep now => l.sweep k now
  | .evict c => l.evict k c
  | .quiesce exclude now newEpoch =>
    ⟨(l.quiesce exclude now newEpoch).1, (l.quiesce exclude now newEpoch).2, k, []⟩
  | .quiesceCheck => l.quiesceCheck k
  | .fenceEpoch => ⟨(), l.fenceEpoch, k, []⟩
  | .fileFlushToSync c => l.fileFlushToSync k c
  | .fileSyncToShared => ⟨(), l.fileSyncToShared, k, []⟩
  | .localLock => ⟨l.localLock.1, l.localLock.2, k, []⟩
  | .localUnlock => ⟨(), l.localUnlock, k, []⟩
  | .scatterWrlock c => l.scatterWrlock k c
  | .scatterUnlock sn => ⟨(), l.scatterUnlock sn, k, []⟩

/-! ## The arbiter -/

/-- A critical section on the lock of a type of an inode; `tick` and the quiesce calls also
read the clock, or take an epoch, once for all nine locks. -/
inductive Section (C : Type)
  | on (inode : Nat) (lockType : LockType) (act : Act C)
  | readClock
  | allocEpoch

structure LockArbiter (C : Type) where
  /-- An inode is entered with nine fresh locks when it is first used. -/
  locks : Table (LockType → MdLock C)
  counters : Counters
  /-- The critical sections performed so far. -/
  log : List (Section C)

namespace LockArbiter

variable (C) in
def new : LockArbiter C := ⟨∅, ⟨1, 1, 0⟩, []⟩

def lock (a : LockArbiter C) (inode : Nat) (lockType : LockType) : MdLock C :=
  match a.locks.lookup inode with
  | some arr => arr lockType
  | none => MdLock.new C lockType

def put (a : LockArbiter C) (inode : Nat) (lockType : LockType) (l : MdLock C) : LockArbiter C :=
  { a with locks := a.locks.insert inode (Function.update (a.lock inode) lockType l) }

variable [Env]

def enter (a : LockArbiter C) (inode : Nat) (lockType : LockType) (act : Act C) :
    act.Answer × LockArbiter C :=
  let o := act.run a.counters (a.lock inode lockType)
  (o.reply, { a.put inode lockType o.lock with
    counters := o.counters
    log := a.log ++ [.on inode lockType act] })

def step (a : LockArbiter C) : Section C → LockArbiter C
  | .on inode lockType act => (a.enter inode lockType act).2
  | .readClock => { a with counters := a.counters.read, log := a.log ++ [.readClock] }
  | .allocEpoch => { a with counters := a.counters.nextEpoch, log := a.log ++ [.allocEpoch] }

/-! ## Operations -/

/-- A woken request is tried again, and waits again when it is refused. -/
def retry (inode : Nat) (lockType : LockType) (a : LockArbiter C) (w : LockWaiter C) :
    LockArbiter C :=
  let again (r : LockGrantResult C × LockArbiter C) : LockArbiter C :=
    if r.1.granted then r.2 else (r.2.enter inode lockType (.enqueue w)).2
  match w.op with
  | .rdlock => again (a.enter inode lockType (.rdlock w.clientId))
  | .wrlock => again (a.enter inode lockType (.wrlock w.clientId))
  | .xlock => again (a.enter inode lockType (.xlock w.clientId))
  | .unlock => a

/-- The waiting requests, by priority and then in the order they came. -/
def byPriority (ws : List (LockWaiter C)) : List (LockWaiter C) :=
  ws.insertionSort fun v w => w.op.priority ≤ v.op.priority

def wakeWaiters (a : LockArbiter C) (inode : Nat) (lockType : LockType) : LockArbiter C :=
  let d := a.enter inode lockType .drainWaiters
  (byPriority d.1).foldl (retry inode lockType) d.2

/-- The asynchronous form of a request: when it is refused, the client waits. -/
def orWait (inode : Nat) (lockType : LockType) (op : LockOp) (c : C)
    (r : LockGrantResult C × LockArbiter C) : LockGrantResult C × LockArbiter C :=
  if r.1.granted then r else (r.1, (r.2.enter inode lockType (.enqueue ⟨c, op⟩)).2)

def rdlockAsync (a : LockArbiter C) (inode : Nat) (lockType : LockType) (c : C) :
    LockGrantResult C × LockArbiter C :=
  orWait inode lockType .rdlock c (a.enter inode lockType (.rdlock c))

def wrlockAsync (a : LockArbiter C) (inode : Nat) (lockType : LockType) (c : C) :
    LockGrantResult C × LockArbiter C :=
  orWait inode lockType .wrlock c (a.enter inode lockType (.wrlock c))

def xlockAsync (a : LockArbiter C) (inode : Nat) (lockType : LockType) (c : C) :
    LockGrantResult C × LockArbiter C :=
  orWait inode lockType .xlock c (a.enter inode lockType (.xlock c))

def wakeIf (wake : Bool) (a : LockArbiter C) (inode : Nat) (lockType : LockType) : LockArbiter C :=
  if wake then a.wakeWaiters inode lockType else a

def unlock (a : LockArbiter C) (inode : Nat) (lockType : LockType) (sn : Nat) :
    Option (C × Nat × CapSet) × LockArbiter C :=
  let d : Departure C × LockArbiter C := a.enter inode lockType (.unlock sn)
  (d.1.promoted, wakeIf d.1.wake d.2 inode lockType)

def posixUnlock (a : LockArbiter C) (inode : Nat) (c : C) : Bool × LockArbiter C :=
  let d : Departure C × LockArbiter C := a.enter inode .posix (.posixUnlock c)
  (d.1.found, wakeIf d.1.wake d.2 inode .posix)

def recallAck (a : LockArbiter C) (inode : Nat) (lockType : LockType) (c : C) (sn : Nat) :
    Bool × LockArbiter C :=
  let d : (Bool × Bool) × LockArbiter C := a.enter inode lockType (.recallAck c sn)
  (d.1.1, wakeIf d.1.2 d.2 inode lockType)

/-- What a tick has found so far: the promoted holders, and the locks to wake. -/
structure Swept (C : Type) where
  promoted : List (LockType × C × Nat × CapSet)
  wake : List LockType
  arbiter : LockArbiter C

def sweepLock (inode now : Nat) (acc : Swept C) (lockType : LockType) : Swept C :=
  let d : Departure C × LockArbiter C := acc.arbiter.enter inode lockType (.sweep now)
  ⟨acc.promoted ++ (d.1.promoted.map (lockType, ·)).toList,
    acc.wake ++ (if d.1.wake then [lockType] else []), d.2⟩

/-- The locks are swept one after another; only then the waiting requests of those that
changed are woken. -/
def tick (a : LockArbiter C) (inode : Nat) : List (LockType × C × Nat × CapSet) × LockArbiter C :=
  let now := instant a.counters.reads
  let swept := LockType.all.foldl (sweepLock inode now) ⟨[], [], a.step .readClock⟩
  (swept.promoted, swept.wake.foldl (fun a t => a.wakeWaiters inode t) swept.arbiter)

/-- What an eviction has found so far. -/
structure Evicted (C : Type) where
  changed : List (Nat × LockType)
  promoted : List (Nat × LockType × C × Nat × CapSet)
  arbiter : LockArbiter C

def evictFrom (c : C) (inode : Nat) (acc : Evicted C) (lockType : LockType) : Evicted C :=
  let d : Departure C × LockArbiter C := acc.arbiter.enter inode lockType (.evict c)
  ⟨acc.changed ++ (if d.1.found then [(inode, lockType)] else []),
    acc.promoted ++ (d.1.promoted.map fun p => (inode, lockType, p)).toList, d.2⟩

def evictClient (order : HashOrder) (a : LockArbiter C) (c : C) : Evicted C :=
  (order.entries a.locks).foldl
    (fun acc entry => LockType.all.foldl (evictFrom c entry.1) acc) ⟨[], [], a⟩

def quiesceLock (inode : Nat) (exclude : Option C) (now newEpoch : Nat)
    (acc : List (RecallTask C) × LockArbiter C) (lockType : LockType) :
    List (RecallTask C) × LockArbiter C :=
  let d : List (RecallTask C) × LockArbiter C :=
    acc.2.enter inode lockType (.quiesce exclude now newEpoch)
  (acc.1 ++ d.1, d.2)

def quiesceExcept (a : LockArbiter C) (inode : Nat) (exclude : Option C) :
    List (RecallTask C) × LockArbiter C :=
  LockType.all.foldl (quiesceLock inode exclude (instant a.counters.reads) a.counters.epoch)
    ([], (a.step .readClock).step .allocEpoch)

def checkLock (inode : Nat) (acc : Bool × LockArbiter C) (lockType : LockType) :
    Bool × LockArbiter C :=
  let d : Bool × LockArbiter C := acc.2.enter inode lockType .quiesceCheck
  (acc.1 && d.1, d.2)

def quiesceComplete (a : LockArbiter C) (inode : Nat) : Bool × LockArbiter C :=
  LockType.all.foldl (checkLock inode) (true, a)

end LockArbiter

/-- The operations of the arbiter. -/
inductive Operation (C : Type)
  | rdlock (inode : Nat) (lockType : LockType) (c : C)
  | wrlock (inode : Nat) (lockType : LockType) (c : C)
  | xlock (inode : Nat) (lockType : LockType) (c : C)
  | rdlockAsync (inode : Nat) (lockType : LockType) (c : C)
  | wrlockAsync (inode : Nat) (lockType : LockType) (c : C)
  | xlockAsync (inode : Nat) (lockType : LockType) (c : C)
  | unlock (inode : Nat) (lockType : LockType) (sn : Nat)
  | posixUnlock (inode : Nat) (c : C)
  | recallAck (inode : Nat) (lockType : LockType) (c : C) (sn : Nat)
  | tick (inode : Nat)
  | evictClient (c : C)
  | wakeAfterEvict (inode : Nat) (lockType : LockType)
  | fenceEpoch (inode : Nat) (lockType : LockType)
  | fileFlushToSync (inode : Nat) (c : C)
  | fileSyncToShared (inode : Nat)
  | localLock (inode : Nat) (lockType : LockType)
  | localUnlock (inode : Nat) (lockType : LockType)
  | scatterWrlock (inode : Nat) (lockType : LockType) (c : C)
  | scatterUnlock (inode : Nat) (lockType : LockType) (sn : Nat)
  | quiesceExcept (inode : Nat) (exclude : Option C)
  | quiesceComplete (inode : Nat)

namespace LockArbiter

def perform [Env] (order : HashOrder) (a : LockArbiter C) :
    Operation C → LockArbiter C
  | .rdlock i t c => (a.enter i t (.rdlock c)).2
  | .wrlock i t c => (a.enter i t (.wrlock c)).2
  | .xlock i t c => (a.enter i t (.xlock c)).2
  | .rdlockAsync i t c => (a.rdlockAsync i t c).2
  | .wrlockAsync i t c => (a.wrlockAsync i t c).2
  | .xlockAsync i t c => (a.xlockAsync i t c).2
  | .unlock i t sn => (a.unlock i t sn).2
  | .posixUnlock i c => (a.posixUnlock i c).2
  | .recallAck i t c sn => (a.recallAck i t c sn).2
  | .tick i => (a.tick i).2
  | .evictClient c => (a.evictClient order c).arbiter
  | .wakeAfterEvict i t => a.wakeWaiters i t
  | .fenceEpoch i t => (a.enter i t .fenceEpoch).2
  | .fileFlushToSync i c => (a.enter i .file (.fileFlushToSync c)).2
  | .fileSyncToShared i => (a.enter i .file .fileSyncToShared).2
  | .localLock i t => (a.enter i t .localLock).2
  | .localUnlock i t => (a.enter i t .localUnlock).2
  | .scatterWrlock i t c => (a.enter i t (.scatterWrlock c)).2
  | .scatterUnlock i t sn => (a.enter i t (.scatterUnlock sn)).2
  | .quiesceExcept i exclude => (a.quiesceExcept i exclude).2
  | .quiesceComplete i => (a.quiesceComplete i).2

def performAll [Env] (order : HashOrder) (ops : List (Operation C)) : LockArbiter C :=
  ops.foldl (perform order) (new C)

/-! ## Operations are made of sections -/

section Sections

variable [Env] {order : HashOrder} {a b c : LockArbiter C}

/-- `b` is reached from `a` by critical sections, which it has in its log. -/
def Reaches (a b : LockArbiter C) : Prop :=
  ∃ ss : List (Section C), ss.foldl step a = b ∧ b.log = a.log ++ ss

theorem Reaches.refl : Reaches a a := ⟨[], rfl, by simp⟩

theorem Reaches.trans (hab : Reaches a b) (hbc : Reaches b c) : Reaches a c := by
  obtain ⟨ss, rfl, hlog⟩ := hab
  obtain ⟨ts, rfl, hlog'⟩ := hbc
  refine ⟨ss ++ ts, List.foldl_append, ?_⟩
  rw [hlog', hlog, List.append_assoc]

theorem reaches_step (a : LockArbiter C) (s : Section C) : Reaches a (a.step s) := by
  refine ⟨[s], rfl, ?_⟩
  cases s <;> rfl

theorem reaches_enter (a : LockArbiter C) (i : Nat) (t : LockType) (act : Act C) :
    Reaches a (a.enter i t act).2 :=
  reaches_step a (.on i t act)

theorem reaches_foldl {β : Type} {f : LockArbiter C → β → LockArbiter C}
    (hf : ∀ a x, Reaches a (f a x)) (xs : List β) (a : LockArbiter C) :
    Reaches a (xs.foldl f a) := by
  induction xs generalizing a with
  | nil => exact .refl
  | cons x xs ih => exact (hf a x).trans (ih _)

/-- A loop that collects answers on the way. -/
theorem reaches_collect {A β : Type} (last : A → LockArbiter C) {f : A → β → A}
    (hf : ∀ acc x, Reaches (last acc) (last (f acc x))) (xs : List β) (acc : A) :
    Reaches (last acc) (last (xs.foldl f acc)) := by
  induction xs generalizing acc with
  | nil => exact .refl
  | cons x xs ih => exact (hf acc x).trans (ih _)

theorem reaches_retry (i : Nat) (t : LockType) (a : LockArbiter C) (w : LockWaiter C) :
    Reaches a (retry i t a w) := by
  have hagain : ∀ r : LockGrantResult C × LockArbiter C, Reaches a r.2 →
      Reaches a (if r.1.granted then r.2 else (r.2.enter i t (.enqueue w)).2) := by
    intro r hr
    split
    · exact hr
    · exact hr.trans (reaches_enter _ _ _ _)
  unfold retry
  cases w.op with
  | rdlock | wrlock | xlock => exact hagain _ (reaches_enter _ _ _ _)
  | unlock => exact .refl

theorem reaches_wakeWaiters (a : LockArbiter C) (i : Nat) (t : LockType) :
    Reaches a (a.wakeWaiters i t) :=
  (reaches_enter a i t .drainWaiters).trans (reaches_foldl (reaches_retry i t) _ _)

theorem reaches_wakeIf (wake : Bool) (a : LockArbiter C) (i : Nat) (t : LockType) :
    Reaches a (wakeIf wake a i t) := by
  unfold wakeIf
  split
  · exact reaches_wakeWaiters a i t
  · exact .refl

theorem reaches_orWait (i : Nat) (t : LockType) (op : LockOp) (x : C)
    {r : LockGrantResult C × LockArbiter C} (hr : Reaches a r.2) :
    Reaches a (orWait i t op x r).2 := by
  unfold orWait
  split
  · exact hr
  · exact hr.trans (reaches_enter _ _ _ _)

section

variable (a : LockArbiter C)

theorem reaches_tick (i : Nat) : Reaches a (a.tick i).2 := by
  have hswept : ∀ now, Reaches (a.step .readClock) (LockType.all.foldl
      (sweepLock i now) ⟨[], [], a.step .readClock⟩).arbiter := fun now =>
    reaches_collect (f := sweepLock i now) Swept.arbiter
      (fun acc t => reaches_enter acc.arbiter i t _) _ ⟨[], [], a.step .readClock⟩
  exact (reaches_step a .readClock).trans ((hswept _).trans
    (reaches_foldl (fun a t => reaches_wakeWaiters a i t) _ _))

theorem reaches_evictClient (x : C) : Reaches a (a.evictClient order x).arbiter := by
  refine reaches_collect Evicted.arbiter (fun acc entry => ?_) _ (⟨[], [], a⟩ : Evicted C)
  exact reaches_collect Evicted.arbiter (fun acc t => reaches_enter acc.arbiter entry.1 t _) _ acc

theorem reaches_quiesceExcept (i : Nat) (exclude : Option C) :
    Reaches a (a.quiesceExcept i exclude).2 := by
  refine (reaches_step a .readClock).trans ((reaches_step _ .allocEpoch).trans ?_)
  exact reaches_collect (f := quiesceLock i exclude _ _) Prod.snd
    (fun acc t => reaches_enter acc.2 i t _) _ (_, _)

theorem reaches_quiesceComplete (i : Nat) : Reaches a (a.quiesceComplete i).2 :=
  reaches_collect (f := checkLock i) Prod.snd (fun acc t => reaches_enter acc.2 i t _) _ (true, a)

theorem reaches_perform (op : Operation C) : Reaches a (a.perform order op) := by
  cases op with
  | rdlock i t x => exact reaches_enter a i t _
  | wrlock i t x => exact reaches_enter a i t _
  | xlock i t x => exact reaches_enter a i t _
  | rdlockAsync i t x => exact reaches_orWait i t _ x (reaches_enter a i t _)
  | wrlockAsync i t x => exact reaches_orWait i t _ x (reaches_enter a i t _)
  | xlockAsync i t x => exact reaches_orWait i t _ x (reaches_enter a i t _)
  | unlock i t sn => exact (reaches_enter a i t _).trans (reaches_wakeIf _ _ i t)
  | posixUnlock i x => exact (reaches_enter a i .posix _).trans (reaches_wakeIf _ _ i .posix)
  | recallAck i t x sn => exact (reaches_enter a i t _).trans (reaches_wakeIf _ _ i t)
  | tick i => exact reaches_tick a i
  | evictClient x => exact reaches_evictClient a x
  | wakeAfterEvict i t => exact reaches_wakeWaiters a i t
  | fenceEpoch i t => exact reaches_enter a i t _
  | fileFlushToSync i x => exact reaches_enter a i .file _
  | fileSyncToShared i => exact reaches_enter a i .file _
  | localLock i t => exact reaches_enter a i t _
  | localUnlock i t => exact reaches_enter a i t _
  | scatterWrlock i t x => exact reaches_enter a i t _
  | scatterUnlock i t sn => exact reaches_enter a i t _
  | quiesceExcept i exclude => exact reaches_quiesceExcept a i exclude
  | quiesceComplete i => exact reaches_quiesceComplete a i

end

/-- The state after some operations is the state after the sections in its log. -/
theorem performAll_sections (ops : List (Operation C)) :
    (performAll order ops).log.foldl step (new C) = performAll order ops := by
  obtain ⟨ss, hss, hlog⟩ := reaches_foldl (fun a op => reaches_perform a op) ops (new C)
  have hlog : (performAll order ops).log = ss := hlog
  rw [hlog]
  exact hss

end Sections

/-! ## The effect of a section on one lock -/

variable {a : LockArbiter C}

omit [DecidableEq C] in
theorem lock_put_self (i : Nat) (t : LockType) (l : MdLock C) : (a.put i t l).lock i t = l := by
  simp [lock, put, Finmap.lookup_insert]

variable {i j : Nat} {t u : LockType}

omit [DecidableEq C] in
theorem lock_put_other (l : MdLock C) (h : i ≠ j ∨ t ≠ u) :
    (a.put i t l).lock j u = a.lock j u := by
  by_cases hij : i = j
  · subst hij
    have htu : u ≠ t := fun e => h.elim (fun h => h rfl) fun h => h e.symm
    simp [lock, put, Finmap.lookup_insert, Function.update_of_ne htu]
  · simp [lock, put, Finmap.lookup_insert_of_ne _ (Ne.symm hij)]

omit [DecidableEq C] in
@[simp] theorem lock_new (i : Nat) (t : LockType) : (new C).lock i t = MdLock.new C t := by
  simp [new, lock]

variable [Env]

theorem lock_enter_self (i : Nat) (t : LockType) (act : Act C) :
    (a.enter i t act).2.lock i t = (act.run a.counters (a.lock i t)).lock :=
  lock_put_self i t _

theorem lock_enter_other (act : Act C) (h : i ≠ j ∨ t ≠ u) :
    (a.enter i t act).2.lock j u = a.lock j u :=
  lock_put_other _ h

@[simp] theorem counters_enter (i : Nat) (t : LockType) (act : Act C) :
    (a.enter i t act).2.counters = (act.run a.counters (a.lock i t)).counters := rfl

/-- A section changes a lock only when it is performed on it. -/
theorem lock_step (a : LockArbiter C) (s : Section C) (i : Nat) (t : LockType) :
    (∃ act, s = .on i t act ∧
      (a.step s).lock i t = (act.run a.counters (a.lock i t)).lock ∧
      (a.step s).counters = (act.run a.counters (a.lock i t)).counters) ∨
    ((∀ act, s ≠ .on i t act) ∧ (a.step s).lock i t = a.lock i t) := by
  cases s with
  | readClock | allocEpoch => exact .inr ⟨fun _ h => (by cases h), rfl⟩
  | on j u act =>
    by_cases h : j = i ∧ u = t
    · obtain ⟨rfl, rfl⟩ := h
      exact .inl ⟨act, rfl, lock_enter_self j u act, rfl⟩
    refine .inr ⟨?_, ?_⟩
    · rintro act' he
      cases he
      exact h ⟨rfl, rfl⟩
    · refine lock_enter_other act ?_
      by_cases hj : j = i
      · exact .inr fun hu => h ⟨hj, hu⟩
      · exact .inl hj

end LockArbiter

end PowerFS.Filer.Arbiter
