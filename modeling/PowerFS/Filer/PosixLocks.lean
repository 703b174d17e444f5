import PowerFS.Filer.LockFacts

/-! # POSIX file locks

`handle_file_lock`: an advisory lock request is an `rdlock` or a `wrlock` on the POSIX lock
of the inode. That lock carries no capability, and both primitives look for conflicts among
the capabilities of the holders, so neither ever finds one: every request is granted. -/
namespace PowerFS.Filer.PosixLocks
open Lib.FirstMatch Lib.StepRuns Locks Arbiter LockFacts List LockArbiter

variable {C : Type}

/-! ## The handler -/

/-- A FILE_LOCK message: the mode (0 = RD, 1 = WR, 2 = UNLOCK) and the client, if it names
one. -/
structure Request (C : Type) where
  lockMode : Nat
  client : Option C

/-- `handle_file_lock`: the field `granted` of the answer, or nothing for a bad request. After
an UNLOCK the handler also asks for the waiting clients, of which there are never any. -/
def handleFileLock [DecidableEq C] [Env] (a : LockArbiter C) (inode : Nat) (q : Request C) :
    Option Nat × LockArbiter C :=
  match q.client with
  | none => (none, a)
  | some c =>
    if inode = 0 then (none, a)
    else match q.lockMode with
      | 0 =>
        let r : LockGrantResult C × LockArbiter C := a.enter inode .posix (.rdlock c)
        (some (if r.1.sn ≠ 0 then 1 else 0), r.2)
      | 1 =>
        let r : LockGrantResult C × LockArbiter C := a.enter inode .posix (.wrlock c)
        (some (if r.1.sn ≠ 0 then 1 else 0), r.2)
      | 2 => (some 1, (a.posixUnlock inode c).2)
      | _ => (none, a)

/-! ## Every request is granted -/

/-- The POSIX lock of an inode that has only seen FILE_LOCK requests. -/
structure Lax (k : Counters) (l : MdLock C) : Prop where
  posix : l.lockType = .posix
  state : l.state = .available ∨ l.state = .shared ∨ l.state = .loner
  caps : ∀ h ∈ l.holders, h.grantedCaps.conflicts = false
  serials : ∀ h ∈ l.holders, h.sn ≠ 0
  next : k.sn ≠ 0
  idle : l.waiting = []

variable {k : Counters} {l : MdLock C}

section

variable (h : Lax k l)
include h

theorem Lax.collect (now : Nat) : Lax k (l.collect now) := by
  obtain ⟨state, caps, he, hs⟩ := collect_with l now
  rw [he]
  refine { h with
    state := ?_
    caps := fun x hx => h.caps x (mem_filter.mp hx).1
    serials := fun x hx => h.serials x (mem_filter.mp hx).1 }
  rcases hs with rfl | rfl
  · exact h.state
  · exact .inl rfl

theorem Lax.later {k' : Counters} (hk : k'.sn ≠ 0) : Lax k' l :=
  { h with next := hk }

theorem Lax.open : MdLock.closedToReaders l.state = false := by
  rcases h.state with hs | hs | hs <;> rw [hs] <;> rfl

/-- A lock that is made of a lax one by a change of the holders and of the state. -/
theorem Lax.change {k' : Counters} {s : LockState} {xs : List (LockHolder C)} (hk : k'.sn ≠ 0)
    (hs : s = .available ∨ s = .shared ∨ s = .loner)
    (hxs : ∀ x ∈ xs, x.grantedCaps.conflicts = false ∧ x.sn ≠ 0) :
    Lax k' ({ l with state := s, holders := xs } : MdLock C).eval := by
  obtain ⟨issued, he⟩ := eval_with { l with state := s, holders := xs }
  rw [he]
  exact { h with
    state := hs, caps := fun x hx => (hxs x hx).1, serials := fun x hx => (hxs x hx).2, next := hk }

theorem Lax.held : ∀ x ∈ l.holders, x.grantedCaps.conflicts = false ∧ x.sn ≠ 0 :=
  fun x hx => ⟨h.caps x hx, h.serials x hx⟩

theorem Lax.admitReader [Env] (now : Nat) (c : C) : Lax k.nextSn (l.admitReader now k.sn c) := by
  refine h.change (Nat.succ_ne_zero _) ?_ ?_
  · rcases h.state with hs | hs | hs <;> rw [hs] <;> decide
  · refine forall_mem_append.mpr ⟨h.held, forall_mem_singleton.mpr ⟨?_, h.next⟩⟩
    split <;> rfl

theorem Lax.promoteToLoner : Lax k.nextSn (l.promoteToLoner k.sn) := by
  unfold MdLock.promoteToLoner
  split
  · exact h.later (Nat.succ_ne_zero _)
  refine h.change (Nat.succ_ne_zero _) (.inr (.inr rfl)) fun x hx => ?_
  rcases mem_modifyFirst hx with hx | ⟨y, hy, _, rfl⟩
  · exact h.held x hx
  refine ⟨?_, h.next⟩
  rw [h.posix]
  rfl

end

variable [DecidableEq C]

theorem Lax.needsGather (h : Lax k l) (c : C) : l.needsGather c = false := by
  refine any_eq_false.mpr fun x hx => ?_
  rw [h.caps x hx]
  simp

theorem Lax.admitWriter [Env] (h : Lax k l) (now : Nat) (c : C) :
    Lax k.nextSn (l.admitWriter now k.sn c) := by
  have hnone : l.lockType.capBits.conflicts = false := by rw [h.posix]; rfl
  refine h.change (Nat.succ_ne_zero _) (.inr (.inr rfl)) ?_
  split
  · intro x hx
    rcases mem_modifyFirst hx with hx | ⟨y, hy, _, rfl⟩
    · exact h.held x hx
    · exact ⟨hnone, h.next⟩
  · exact forall_mem_append.mpr ⟨h.held, forall_mem_singleton.mpr ⟨hnone, h.next⟩⟩

/-- An RD request is granted. -/
theorem Lax.rdlock [Env] (h : Lax k l) (c : C) :
    (l.rdlock k c).reply.sn ≠ 0 ∧
      Lax (l.rdlock k c).counters (l.rdlock k c).lock := by
  have hm : Lax k.read (l.collect (instant k.reads)) := (h.collect _).later h.next
  simp only [MdLock.rdlock, hm.open, hm.needsGather, Bool.false_eq_true, if_false]
  split
  · rename_i x hx
    exact ⟨hm.serials x (findHolder_some hx).1, hm.later (Nat.succ_ne_zero _)⟩
  · exact ⟨h.next, hm.admitReader _ c⟩

/-- A WR request is granted. -/
theorem Lax.wrlock [Env] (h : Lax k l) (c : C) :
    (l.wrlock k c).reply.sn ≠ 0 ∧
      Lax (l.wrlock k c).counters (l.wrlock k c).lock := by
  have hm : Lax k.read (l.collect (instant k.reads)) := (h.collect _).later h.next
  simp only [MdLock.wrlock, hm.needsGather, Bool.false_eq_true, if_false]
  split
  · rename_i x hx
    exact ⟨hm.serials x (mem_of_mem_head? (lonerOf_some hx).2.1), hm⟩
  · exact ⟨h.next, hm.admitWriter _ c⟩

theorem Lax.posixUnlock (h : Lax k l) (c : C) :
    Lax (l.posixUnlock k c).counters (l.posixUnlock k c).lock := by
  have hrest : Lax k { l with holders := l.holders.filter fun x => x.clientId ≠ c } :=
    { h with
      caps := fun x hx => h.caps x (mem_filter.mp hx).1
      serials := fun x hx => h.serials x (mem_filter.mp hx).1 }
  have hgo : ∀ m : MdLock C, Lax k m → Lax k (m.goTo .available) := fun m hm =>
    hm.change hm.next (.inl rfl) hm.held
  have heval : ∀ k (m : MdLock C), Lax k m → Lax k m.eval := fun k m hm =>
    hm.change hm.next hm.state hm.held
  have hsettle : ∀ m : MdLock C, Lax k m →
      Lax (m.settleShared true k).counters (m.settleShared true k).lock := by
    intro m hm
    unfold MdLock.settleShared
    split
    · exact { hm with state := .inl rfl }
    split
    · exact hm.promoteToLoner
    · exact hm
  simp only [MdLock.posixUnlock]
  split
  · exact h
  split
  · exact hgo _ hrest
  · exact hgo _ hrest
  · exact heval _ _ (hsettle _ hrest)
  · exact heval _ _ (hsettle _ hrest)
  · exact heval _ _ hrest

/-! ## Exclusion -/

/-- A lock that a client was told it has, by mode, and when it runs out. -/
structure Hold (C : Type) where
  client : C
  lockMode : Nat
  expireAt : Nat
  deriving DecidableEq

/-- The arbiter, and the locks the clients were granted and have not given back. -/
structure Desk (C : Type) where
  arbiter : LockArbiter C
  holds : List (Hold C)

/-- The reading of the clock that the next request makes. -/
def Desk.now [Env] (d : Desk C) : Nat := instant d.arbiter.counters.reads

def Desk.step [Env] (inode : Nat) (d : Desk C) (q : Request C) : Desk C :=
  let r := handleFileLock d.arbiter inode q
  ⟨r.2, match q.client with
    | none => d.holds
    | some c =>
      if q.lockMode = 2 then d.holds.filter fun h => h.client ≠ c
      else if r.1 = some 1 then d.holds ++ [⟨c, q.lockMode, d.now + leaseDuration⟩]
      else d.holds⟩

/-- Another client has a running lock that the request may not be granted beside: a WR lock
for an RD request, any lock for a WR request. -/
def Rivalled [Env] (d : Desk C) (q : Request C) : Prop :=
  ∃ c, q.client = some c ∧ ∃ h ∈ d.holds, h.client ≠ c ∧ d.now < h.expireAt ∧
    (q.lockMode = 0 ∧ h.lockMode = 1 ∨ q.lockMode = 1)

/-- A request that has a rival is not answered with `granted = 1`. -/
def Excluded [Env] (inode : Nat) (d : Desk C) (q : Request C) : Prop :=
  Rivalled d q → (handleFileLock d.arbiter inode q).1 ≠ some 1

def Settled (inode : Nat) (d : Desk C) : Prop :=
  Lax d.arbiter.counters (d.arbiter.lock inode .posix)

/-- Whatever the request, the POSIX lock stays lax, and an RD or WR request is granted. -/
theorem settled_step [Env] {inode : Nat} {d : Desk C} (hi : inode ≠ 0) (h : Settled inode d)
    (q : Request C) : Settled inode (d.step inode q) ∧
      ∀ c, q.client = some c → q.lockMode = 0 ∨ q.lockMode = 1 →
        (handleFileLock d.arbiter inode q).1 = some 1 := by
  cases hc : q.client with
  | none =>
    refine ⟨?_, fun _ hc => by cases hc⟩
    simpa [Settled, Desk.step, handleFileLock, hc] using h
  | some c =>
    have hrd := Lax.rdlock h c
    have hwr := Lax.wrlock h c
    unfold Settled Desk.step handleFileLock
    simp only [hc, if_neg hi]
    split
    · refine ⟨?_, fun _ _ _ => ?_⟩
      · rw [lock_enter_self, counters_enter]
        exact hrd.2
      · exact congrArg some (if_pos hrd.1)
    · refine ⟨?_, fun _ _ _ => ?_⟩
      · rw [lock_enter_self, counters_enter]
        exact hwr.2
      · exact congrArg some (if_pos hwr.1)
    · refine ⟨?_, fun _ _ hm => by omega⟩
      have hun : Lax (d.arbiter.enter inode .posix (.posixUnlock c)).2.counters
          ((d.arbiter.enter inode .posix (.posixUnlock c)).2.lock inode .posix) := by
        rw [lock_enter_self]
        exact h.posixUnlock c
      simp only [posixUnlock, wakeIf]
      split
      · obtain ⟨hlock, hcounters⟩ := wakeWaiters_idle hun.idle
        rw [hlock, hcounters]
        exact hun
      · exact hun
    · rename_i hrd hwr _
      exact ⟨h, fun _ _ hm => hm.elim (fun hm => absurd hm hrd) fun hm => absurd hm hwr⟩

/-- **POSIX file locks exclude each other exactly when no client asks for a lock that has a
rival**: the handler grants every request. -/
theorem exclusion_iff_no_rivals [Env] {inode : Nat} (hi : inode ≠ 0) (qs : List (Request C)) :
    Along (Desk.step inode) (Excluded inode) ⟨LockArbiter.new C, []⟩ qs ↔
      Along (Desk.step inode) (fun d q => ¬ Rivalled d q) ⟨LockArbiter.new C, []⟩ qs := by
  refine along_congr (I := Settled inode) (fun d q h => (settled_step hi h q).1)
    (fun d q h => ?_) qs ?_
  · refine ⟨fun hex hr => ?_, fun hno hr => absurd hr hno⟩
    obtain ⟨c, hc, x, _, _, _, hmode⟩ := id hr
    exact hex hr ((settled_step hi h q).2 c hc (hmode.imp And.left id))
  · rw [Settled, lock_new]
    exact ⟨rfl, .inl rfl, fun _ h => (by cases h), fun _ h => (by cases h), one_ne_zero, rfl⟩

local instance : Env := frozen

/-- Two clients that ask for WR locks one after the other, with an UNLOCK in between. -/
theorem released_excluded :
    Along (Desk.step 7) (Excluded 7) ⟨LockArbiter.new Nat, []⟩
      [⟨1, some 1⟩, ⟨2, some 1⟩, ⟨1, some 2⟩] := by
  refine (exclusion_iff_no_rivals (by decide) _).mpr ⟨?_, ?_, ?_, trivial⟩
  · rintro ⟨c, -, h, hh, -⟩
    cases hh
  · rintro ⟨c, -, h, -, -, -, ⟨hmode, -⟩ | hmode⟩ <;> cases hmode
  · rintro ⟨c, -, h, hh, -⟩
    have hnone : (Desk.step 7 (Desk.step 7 ⟨new Nat, []⟩
      ⟨1, some 1⟩) ⟨2, some 1⟩).holds = [] := by decide +kernel
    rw [hnone] at hh
    cases hh

/-- A WR lock is granted beside a WR lock of another client. -/
theorem second_writer_granted :
    let d := Desk.step 7 ⟨LockArbiter.new Nat, []⟩ ⟨1, some 1⟩
    d.holds = [⟨1, 1, 30000⟩] ∧ d.now = 0 ∧
      (handleFileLock d.arbiter 7 ⟨1, some 2⟩).1 = some 1 := by
  decide +kernel

end PowerFS.Filer.PosixLocks
