import PowerFS.Filer.Grants

/-! # Quiescing an inode

`quiesce_except` recalls everything that the holders other than one have on the nine locks of
an inode, and `quiesce_complete` says when it is done. `Revoking` is the state of a lock in
between: a holder that still has a capability has an open recall that was sent by the call.
It survives answers, ticks and checks as long as the recalls have time left, and a check that
succeeds then finds that nothing is left to give back. -/
namespace PowerFS.Filer.Quiesce
open Lib.FirstMatch Locks Arbiter LockFacts WriterExclusion Grants List LockArbiter

variable {C : Type} {k : Counters} {l : MdLock C} {exclude : Option C} {sent : Nat}

/-! ## One lock -/

/-- The recalls sent at `sent` have time left at the `n`-th reading of the clock. Asked of
every reading between two states, it also covers those after the last gather has ended. -/
def InTime [Env] (sent n : Nat) : Prop := instant n - sent ≤ recallTimeout

/-- A lock that is being quiesced by a call at the time `sent`, or has been. -/
structure Revoking (exclude : Option C) (sent : Nat) (l : MdLock C) : Prop where
  idle : l.waiting = []
  distinct : (l.holders.map (·.clientId)).Nodup
  /-- Whoever has something left has an open recall. -/
  revoked : ∀ h ∈ l.holders, exclude ≠ some h.clientId → h.grantedCaps = CapSet.none ∨
    l.state = .gather ∧ ∃ e ∈ l.gatherList, e.clientId = h.clientId ∧ e.sentAt = sent ∧
      e.acked = false
  retained : l.state = .gather → ∀ h ∈ l.holders, exclude ≠ some h.clientId →
    h.retainCaps = CapSet.none
  waits : l.state = .gather → l.gatherRemaining ≠ 0
  target : l.holders = [] ∨ l.gatherTarget = .toExcl ∨ l.gatherTarget = .toSync
  rest : l.state ≠ .gather →
    l.holders = [] ∨ l.gatherList = [] ∧ (l.state = .excl ∨ l.state = .sync)

/-- A lock without holders and without a gather has nothing to give back. -/
theorem revoking_empty (hidle : l.waiting = []) (hs : l.state ≠ .gather) (hh : l.holders = []) :
    Revoking exclude sent l :=
  ⟨hidle, by simp [hh], by simp [hh], fun h => absurd h hs, fun h => absurd h hs, .inl hh,
    fun _ => .inl hh⟩

variable {now newEpoch : Nat} {x : LockHolder C}

theorem reads_sweepExpired (k : Counters) (l : MdLock C) (now : Nat) :
    (l.sweepExpired k now).counters.reads = k.reads := by
  fun_cases MdLock.sweepExpired <;> rfl

@[simp] theorem waiting_sweepExpired (k : Counters) (l : MdLock C) (now : Nat) :
    (l.sweepExpired k now).lock.waiting = l.waiting := by
  have hpromote : ∀ (m : MdLock C) sn, (m.promoteToLoner sn).waiting = m.waiting := by
    intro m sn
    fun_cases MdLock.promoteToLoner <;> simp
  fun_cases MdLock.sweepExpired <;> simp +zetaDelta [hpromote, MdLock.garbageCollect]

/-- What a recall makes of a record. -/
theorem mem_recallHolders {recalled : LockHolder C → Option (CapSet × CapSet)}
    (hx : x ∈ (l.recallHolders now newEpoch recalled).holders) :
    ∃ y ∈ l.holders, x.clientId = y.clientId ∧
      ∀ taken kept, recalled y = some (taken, kept) → x.retainCaps = kept := by
  obtain ⟨y, hy, rfl⟩ := mem_map.mp hx
  refine ⟨y, hy, ?_⟩
  cases hr : recalled y with
  | none => exact ⟨rfl, fun _ _ h => by cases h⟩
  | some caps =>
    refine ⟨rfl, fun taken kept h => ?_⟩
    cases h
    rfl

theorem clients_recallHolders (now newEpoch : Nat)
    (recalled : LockHolder C → Option (CapSet × CapSet)) :
    (l.recallHolders now newEpoch recalled).holders.map (·.clientId) =
      l.holders.map (·.clientId) := by
  rw [MdLock.recallHolders, map_map]
  refine map_congr_left fun y _ => ?_
  dsimp only [Function.comp]
  split <;> rfl

section

variable (h : Revoking exclude sent l)
include h

/-- Holders leave, the rest stays as it is. -/
theorem Revoking.filter (p : LockHolder C → Bool) :
    Revoking exclude sent { l with holders := l.holders.filter p } :=
  { h with
    distinct := h.distinct.sublist (filter_sublist.map _)
    revoked := fun x hx => h.revoked x (mem_filter.mp hx).1
    retained := fun hs x hx => h.retained hs x (mem_filter.mp hx).1
    target := h.target.imp (fun hh => by rw [show l.holders = [] from hh]; rfl) id
    rest := fun hs => (h.rest hs).imp (fun hh => by rw [show l.holders = [] from hh]; rfl) id }

theorem Revoking.eval : Revoking exclude sent l.eval := by
  obtain ⟨caps, he⟩ := eval_with l
  rw [he]
  exact { h with }

theorem Revoking.goTo_empty (hh : l.holders = [])
    {s : LockState} (hs : s ≠ .gather) : Revoking exclude sent (l.goTo s) :=
  revoking_empty (by rw [waiting_goTo]; exact h.idle) (by rw [state_goTo]; exact hs)
    (by rw [holders_goTo]; exact hh)

theorem Revoking.sweepExpired (now : Nat) :
    Revoking exclude sent (l.sweepExpired k now).lock ∧
      ((l.sweepExpired k now).lock.state = .gather → l.state = .gather) := by
  have hfilter := h.filter fun h => now < h.expireAt
  have hgc : Revoking exclude sent (l.garbageCollect now).2 ∧
      ((l.garbageCollect now).2.state = l.state ∨
        (l.garbageCollect now).2.state = .available ∧ l.state ≠ .gather ∧
          (l.garbageCollect now).2.holders = []) := by
    simp only [MdLock.garbageCollect]
    split
    · rename_i hempty
      simp only [Bool.and_eq_true, decide_eq_true_eq, List.isEmpty_iff] at hempty
      exact ⟨revoking_empty h.idle (fun hs => by cases hs) hempty.1.2,
        .inr ⟨rfl, hempty.2, hempty.1.2⟩⟩
    · exact ⟨hfilter, .inl rfl⟩
  obtain ⟨hgc, hstate⟩ := hgc
  have hback : (l.garbageCollect now).2.state = .gather → l.state = .gather := fun hs =>
    hstate.elim (fun he => he ▸ hs) fun he => by rw [he.1] at hs; cases hs
  simp only [MdLock.sweepExpired]
  split
  · split
    · rename_i hempty
      exact ⟨hgc.goTo_empty (List.isEmpty_iff.mp hempty.1) (by decide),
        fun hs => by rw [state_goTo] at hs; cases hs⟩
    split
    · -- nobody is promoted: a quiesced lock with holders is EXCL or SYNC
      rename_i hone
      obtain ⟨x, hx⟩ := List.length_eq_one_iff.mp hone.1
      rcases hgc.rest (by rcases hone.2.1 with hs | hs <;> rw [hs] <;> decide) with hh | ⟨-, hs⟩
      · rw [hx] at hh
        cases hh
      · rcases hone.2.1 with hs' | hs' <;> rw [hs'] at hs <;> simp at hs
    · exact ⟨hgc.eval, fun hs => hback (by rwa [state_eval] at hs)⟩
  · exact ⟨hgc, hback⟩

variable [DecidableEq C]

/-- When every recall is answered, nobody has anything left. -/
theorem Revoking.gatherComplete
    (hall : ∀ e ∈ l.gatherList, e.acked = true) : Revoking exclude sent l.gatherComplete := by
  have hmem := fun x (hx : x ∈ l.gatherComplete.holders) => mem_gatherComplete hx
  have hstate : l.gatherComplete.state ≠ .gather := by
    rw [state_gatherComplete]
    exact stateAfter_ne_gather _ _
  have hnil : l.holders = [] → l.gatherComplete.holders = [] := fun hh =>
    eq_nil_iff_forall_not_mem.mpr fun x hx => by
      obtain ⟨y, hy, -⟩ := hmem x hx
      rw [hh] at hy
      cases hy
  refine ⟨by rw [waiting_gatherComplete]; exact h.idle, ?_, ?_, fun hs => absurd hs hstate,
    fun hs => absurd hs hstate, ?_, fun _ => ?_⟩
  · have hmap : (l.holders.map settled).map (·.clientId) = l.holders.map (·.clientId) := by
      rw [map_map]
      rfl
    by_cases ht : l.gatherTarget = .toExcl
    · rw [holders_gatherComplete_toExcl ht]
      exact (hmap ▸ h.distinct).sublist (filter_sublist.map _)
    · rw [holders_gatherComplete ht, hmap]
      exact h.distinct
  · intro x hx hne
    obtain ⟨y, hy, rfl, -⟩ := hmem x hx
    rcases h.revoked y hy hne with hcaps | ⟨-, e, he, -, -, hopen⟩
    · exact .inl hcaps
    · rw [hall e he] at hopen
      cases hopen
  · rw [gatherTarget_gatherComplete]
    exact h.target.imp hnil id
  · rcases h.target with hh | ht
    · exact .inl (hnil hh)
    refine .inr ⟨gatherList_gatherComplete, ?_⟩
    rw [state_gatherComplete]
    rcases ht with ht | ht
    · rw [ht]; exact .inl rfl
    · rw [ht]; exact .inr rfl

omit h in
/-- As long as the recalls of the call have time left, a look at the timeouts ends nothing
early. -/
theorem Revoking.gatherTimeout [Env] (k : Counters) (h : Revoking exclude sent l)
    (htime : l.state = .gather → k.reads < (l.gatherTimeout k).counters.reads →
      InTime sent k.reads) :
    Revoking exclude sent (l.gatherTimeout k).lock := by
  rcases gatherTimeout_cases k l with ⟨-, ht⟩ | ⟨m, _, rfl, -, hs, -, hcases⟩
  · rw [ht]
    exact h
  have hread : k.reads < (l.gatherTimeout k).counters.reads := by
    rcases hcases with ⟨-, ht⟩ | ⟨-, ht⟩
    · rw [ht]; exact Nat.lt_succ_self _
    · rw [ht]; exact Nat.lt_succ_self _
  have hintime : instant k.reads - sent ≤ recallTimeout := htime hs hread
  have hmarked : Revoking exclude sent (l.markLapsed recallTimeout (instant k.reads)) := by
    refine ⟨h.idle, h.distinct, fun x hx hne => ?_, h.retained, h.waits, h.target,
      fun hne => absurd hs hne⟩
    rcases h.revoked x hx hne with hcaps | ⟨-, e, he, hec, hes, hopen⟩
    · exact .inl hcaps
    refine .inr ⟨hs, e, mem_map.mpr ⟨e, he, if_neg ?_⟩, hec, hes, hopen⟩
    simp only [GatherEntry.lapsed, hopen, hes, Bool.not_false, Bool.true_and, decide_eq_true_eq]
    omega
  rcases hcases with ⟨-, ht⟩ | ⟨hall, ht⟩
  · rw [ht]
    exact hmarked
  · rw [ht]
    exact hmarked.gatherComplete hall

theorem Revoking.recallAck (c : C) (sn : Nat) : Revoking exclude sent (l.recallAck c sn).2 := by
  simp only [MdLock.recallAck]
  split
  · rename_i hmatched
    obtain ⟨e, he, -⟩ := any_eq_true.mp hmatched
    have hcalled : l.holders = [] ∨ l.state = .gather := by
      by_cases hs : l.state = .gather
      · exact .inr hs
      rcases h.rest hs with hh | ⟨hlist, -⟩
      · exact .inl hh
      · rw [hlist] at he
        cases he
    have hdown : Revoking exclude sent (answered l c sn) := by
      unfold answered
      rcases hcalled with hh | hs
      · by_cases hs : l.state = .gather
        · refine ⟨h.idle, ?_, ?_, ?_, h.waits, ?_, fun hne => absurd hs hne⟩ <;>
            simp [hh, modifyFirst]
        · exact revoking_empty h.idle hs (by simp [hh, modifyFirst])
      refine ⟨h.idle, ?_, fun x hx hne => ?_, fun _ x hx hne => ?_, h.waits,
        h.target.imp (fun hh => by rw [show l.holders = [] from hh]; rfl) id,
        fun hne => absurd hs hne⟩
      · rw [map_modifyFirst]
        · exact h.distinct
        · exact fun _ => rfl
      · by_cases hxc : x.clientId = c
        · obtain ⟨y, hy, hyc, rfl⟩ := eq_of_mem_modifyFirst (g := (·.clientId)) h.distinct
            (fun x y hx hy => (of_decide_eq_true hx).trans (of_decide_eq_true hy).symm) hx
            (decide_eq_true hxc)
          exact .inl (h.retained hs y hy hne)
        · rcases mem_modifyFirst hx with hx | ⟨y, -, hyc, rfl⟩
          · rcases h.revoked x hx hne with hcaps | ⟨-, e, he, hec, hes, hopen⟩
            · exact .inl hcaps
            refine .inr ⟨hs, e, mem_map.mpr ⟨e, he, if_neg ?_⟩, hec, hes, hopen⟩
            rw [hec]
            simp [hxc]
          · exact absurd (of_decide_eq_true hyc) hxc
      · rcases mem_modifyFirst hx with hx | ⟨y, hy, -, rfl⟩
        · exact h.retained hs x hx hne
        · exact h.retained hs y hy hne
    split
    · rename_i hend
      exact hdown.gatherComplete fun e he => all_eq_true.mp hend.1 e he
    · exact hdown
  · exact h

omit h in
theorem recallAck_rest (hs : l.state ≠ .gather) (c : C) (sn : Nat) :
    (l.recallAck c sn).2.state ≠ .gather := by
  simp only [MdLock.recallAck]
  split
  · split
    · rw [state_gatherComplete]
      exact stateAfter_ne_gather _ _
    · exact hs
  · exact hs

omit h in
theorem reads_gatherTimeout [Env] (k : Counters) (l : MdLock C) :
    k.reads ≤ (l.gatherTimeout k).counters.reads := by
  rcases gatherTimeout_cases k l with ⟨-, ht⟩ | ⟨m, _, -, -, -, -, ⟨-, ht⟩ | ⟨-, ht⟩⟩
  · rw [ht]
  · rw [ht]; exact Nat.le_succ _
  · rw [ht]; exact Nat.le_succ _

theorem Revoking.sweep [Env] (htime : l.state = .gather → k.reads < (l.sweep k now).counters.reads →
      InTime sent k.reads) :
    Revoking exclude sent (l.sweep k now).lock ∧
      (l.state ≠ .gather → (l.sweep k now).lock.state ≠ .gather) := by
  obtain ⟨hswept, hback⟩ := h.sweepExpired (k := k) now
  have hreads := reads_sweepExpired k l now
  have hwaited := hswept.gatherTimeout (l.sweepExpired k now).counters
    (by rw [hreads]; exact fun hg => htime (hback hg))
  have hrest : l.state ≠ .gather → ((l.sweepExpired k now).lock.gatherTimeout
      (l.sweepExpired k now).counters).lock.state ≠ .gather := by
    intro hs
    rw [MdLock.gatherTimeout, if_pos (.inl fun hg => hs (hback hg))]
    exact fun hg => hs (hback hg)
  simp only [MdLock.sweep, MdLock.retire]
  split
  · rename_i hidle
    exact ⟨revoking_empty hwaited.idle (fun hs => by cases hs) (isEmpty_iff.mp hidle.2.2),
      fun _ hs => by cases hs⟩
  · exact ⟨hwaited, hrest⟩

/-- A check that succeeds leaves no gather. -/
theorem Revoking.quiesceCheck [Env]
    (htime : l.state = .gather → k.reads < (l.quiesceCheck k).counters.reads →
      InTime sent k.reads) :
    Revoking exclude sent (l.quiesceCheck k).lock ∧
      ((l.quiesceCheck k).reply = true ∨ l.state ≠ .gather →
        (l.quiesceCheck k).lock.state ≠ .gather) := by
  simp only [MdLock.quiesceCheck] at htime ⊢
  split
  · rename_i hs
    rw [if_pos hs] at htime
    have hwaited := h.gatherTimeout k fun hg hr => htime hg (by split <;> exact hr)
    split
    · exact ⟨hwaited, fun he => he.elim (fun he => by cases he) fun he => absurd hs.1 he⟩
    rename_i hdone
    refine ⟨hwaited.gatherComplete fun e he => ?_, fun _ => ?_⟩
    · -- the gather has ended, and its list is empty
      rcases gatherTimeout_cases k l with ⟨hno, -⟩ | ⟨m, _, rfl, -, -, -, ⟨-, ht⟩ | ⟨-, ht⟩⟩
      · exact absurd hno (not_or.mpr ⟨not_not.mpr hs.1, Nat.ne_of_gt hs.2⟩)
      · rw [ht] at hdone
        exact absurd hs.2 hdone
      · rw [ht, gatherList_gatherComplete] at he
        cases he
    · rw [state_gatherComplete]
      exact stateAfter_ne_gather _ _
  · rename_i hno
    exact ⟨h, fun _ hs => hno ⟨hs, Nat.pos_of_ne_zero (h.waits hs)⟩⟩

end

variable [DecidableEq C]

/-- The call itself: it finds no gather, no waiting request and somebody to wait for. -/
theorem quiesce_revoking (hs : l.state ≠ .gather) (hidle : l.waiting = [])
    (hd : (l.holders.map (·.clientId)).Nodup) (hother : ∀ h ∈ l.holders, exclude = some h.clientId →
      ∃ h' ∈ l.holders, exclude ≠ some h'.clientId) :
    Revoking exclude now (l.quiesce exclude now newEpoch).2 := by
  simp only [MdLock.quiesce]
  split
  · rename_i hskip
    exact revoking_empty hidle hs (isEmpty_iff.mp (hskip.resolve_right hs))
  rename_i hskip
  have hcalled : ∀ h ∈ l.holders, exclude ≠ some h.clientId →
      h ∈ l.holders.filter fun h => (MdLock.recallAll exclude h).isSome := fun h hh hne =>
    mem_filter.mpr ⟨hh, by rw [MdLock.recallAll, if_neg hne]; rfl⟩
  refine ⟨hidle, ?_, fun x hx hne => ?_, fun _ x hx hne => ?_, fun _ => ?_, .inr ?_,
    fun hne => absurd rfl hne⟩
  · rw [clients_recallHolders]
    exact hd
  · obtain ⟨y, hy, hc, -⟩ := mem_recallHolders hx
    rw [hc] at hne ⊢
    exact .inr ⟨rfl, _, mem_append_right _ (mem_map_of_mem (hcalled y hy hne)), rfl, rfl, rfl⟩
  · obtain ⟨y, hy, hc, hret⟩ := mem_recallHolders hx
    rw [hc] at hne
    exact hret _ _ (by rw [MdLock.recallAll, if_neg hne])
  · obtain ⟨x, rest, hx⟩ := exists_cons_of_ne_nil fun hnil =>
      hskip (.inl (isEmpty_iff.mpr hnil))
    obtain ⟨y, hy, hne⟩ : ∃ y ∈ l.holders, exclude ≠ some y.clientId := by
      have hxm : x ∈ l.holders := by rw [hx]; simp
      by_cases he : exclude = some x.clientId
      · exact hother x hxm he
      · exact ⟨x, hxm, he⟩
    exact Nat.ne_of_gt (Nat.lt_of_lt_of_le (length_pos_of_mem (hcalled y hy hne))
      (Nat.le_add_left _ _))
  · cases hclass : l.lockType.lockClass <;> simp [MdLock.recallHolders]

/-- A third client's `wrlock` on a quiesced lock recalls the excluded holder and is refused. -/
theorem Revoking.wrlock_recalls [Env] (h : Revoking exclude sent l) (hs : l.state ≠ .gather) {c : C}
    (hx : x ∈ l.holders) (hc : x.clientId ≠ c) (hcaps : x.grantedCaps.conflicts = true)
    (hlease : instant k.reads < x.expireAt)
    (htime : instant (k.reads + 1) - instant k.reads ≤ recallTimeout) :
    (l.wrlock k c).reply.sn = 0 ∧ (l.wrlock k c).reply.grantedCaps = CapSet.none ∧
      ∃ task ∈ (l.wrlock k c).reply.recallTasks, task.clientId = x.clientId := by
  simp only [MdLock.wrlock]
  have hxm : x ∈ (l.collect (instant k.reads)).holders := by
    rw [holders_collect]
    exact mem_filter.mpr ⟨hx, decide_eq_true hlease⟩
  have hstate : (l.collect (instant k.reads)).state ≠ .gather ∧
      (l.collect (instant k.reads)).state ≠ .loner := by
    rcases state_collect (l := l) (instant k.reads) with he | he
    · rw [he]
      rcases h.rest hs with hh | ⟨-, hh | hh⟩
      · rw [hh] at hx
        cases hx
      · rw [hh]; decide
      · rw [hh]; decide
    · rw [he]; decide
  generalize l.collect (instant k.reads) = m at hxm hstate
  have hneeds : m.needsGather c = true := any_eq_true.mpr ⟨x, hxm, by simp [hc, hcaps]⟩
  have hloner : m.lonerOf c = none := if_neg hstate.2
  have hcalled := recallConflicting_isSome hc hcaps
  obtain ⟨caps, hrecalled⟩ := Option.isSome_iff_exists.mp hcalled
  have hopen : StaysOpen (m.openGather k.read (instant k.reads) m.wrlockTarget
        (MdLock.recallConflicting conflictCaps c)).counters
      (m.openGather k.read (instant k.reads) m.wrlockTarget
        (MdLock.recallConflicting conflictCaps c)).lock := by
    refine ⟨(listed_of_recalled hstate.1 _ _ _ hxm hcalled).1, ?_⟩
    rw [MdLock.openGather, if_neg hstate.1]
    refine ⟨_, mem_append_right _ (mem_map_of_mem (mem_filter.mpr ⟨hxm, hcalled⟩)), rfl, ?_⟩
    exact decide_eq_false (Nat.not_lt.mpr htime)
  simp only [hloner, hneeds, if_true, if_pos hopen.waits]
  refine ⟨rfl, rfl, ?_⟩
  rw [MdLock.refusal, MdLock.gatherStage, MdLock.openGather, if_neg hstate.1]
  exact ⟨_, mem_filterMap.mpr ⟨x, hxm, by rw [hrecalled]; rfl⟩, rfl⟩

/-! ## The arbiter -/

/-- A section of an answer, a tick or a check on the inode. -/
inductive Move [Env] (inode : Nat) (a : LockArbiter C) : LockArbiter C → Prop
  | ack (t : LockType) (c : C) (sn : Nat) : Move inode a (a.enter inode t (.recallAck c sn)).2
  | sweep (t : LockType) (now : Nat) : Move inode a (a.enter inode t (.sweep now)).2
  | check (t : LockType) : Move inode a (a.enter inode t .quiesceCheck).2
  | drain (t : LockType) : Move inode a (a.enter inode t .drainWaiters).2
  | clock : Move inode a (a.step .readClock)

abbrev Settles [Env] (inode : Nat) : LockArbiter C → LockArbiter C → Prop :=
  Relation.ReflTransGen (Move inode)

variable {inode : Nat} {a b : LockArbiter C}

/-- The clock is only read further. -/
theorem Move.reads_le [Env] (h : Move inode a b) : a.counters.reads ≤ b.counters.reads := by
  cases h with
  | ack | drain => exact le_refl _
  | clock => exact Nat.le_succ _
  | sweep t now =>
    calc a.counters.reads
        = ((a.lock inode t).sweepExpired a.counters now).counters.reads :=
          (reads_sweepExpired _ _ _).symm
      _ ≤ _ := reads_gatherTimeout _ _
  | check t =>
    simp only [counters_enter, Act.run, MdLock.quiesceCheck]
    split
    · split <;> exact reads_gatherTimeout _ _
    · exact le_refl _

theorem Settles.reads_le [Env] (h : Settles inode a b) : a.counters.reads ≤ b.counters.reads := by
  induction h with
  | refl => exact le_refl _
  | tail _ hmove ih => exact ih.trans hmove.reads_le

/-- What holds of the lock that a section is on holds of all locks of the inode. -/
theorem forall_enter [Env] {P : MdLock C → Prop} (h : ∀ t, P (a.lock inode t)) {t : LockType}
    {act : Act C} (hrun : P (act.run a.counters (a.lock inode t)).lock) (u : LockType) :
    P ((a.enter inode t act).2.lock inode u) := by
  by_cases hu : t = u
  · subst hu
    rw [lock_enter_self]
    exact hrun
  · rw [lock_enter_other _ (.inr hu)]
    exact h u

/-- **One section** of the follow-up keeps every lock of the inode being quiesced, unless it
reads a clock that has run on too far while a gather waits. -/
theorem Move.revoking [Env] (h : Move inode a b)
    (hinv : ∀ t, Revoking exclude sent (a.lock inode t))
    (htime : (∃ t, (a.lock inode t).state = .gather) → a.counters.reads < b.counters.reads →
      InTime sent a.counters.reads) :
    ∀ t, Revoking exclude sent (b.lock inode t) := by
  cases h with
  | ack t c sn => exact forall_enter hinv ((hinv t).recallAck c sn)
  | sweep t now =>
    exact forall_enter hinv ((hinv t).sweep fun hg hr => htime ⟨t, hg⟩ hr).1
  | check t => exact forall_enter hinv ((hinv t).quiesceCheck fun hg hr => htime ⟨t, hg⟩ hr).1
  | drain t => exact forall_enter hinv { hinv t with idle := rfl }
  | clock => exact hinv

/-- When no gather is left, none comes back. -/
theorem Move.rest [Env] (h : Move inode a b) (hinv : ∀ t, Revoking exclude sent (a.lock inode t))
    (hs : ∀ t, (a.lock inode t).state ≠ .gather) : ∀ t, (b.lock inode t).state ≠ .gather := by
  cases h with
  | ack t c sn =>
    exact forall_enter (P := (·.state ≠ .gather)) hs (recallAck_rest (hs t) c sn)
  | sweep t now =>
    exact forall_enter (P := (·.state ≠ .gather)) hs
      (((hinv t).sweep fun hg => absurd hg (hs t)).2 (hs t))
  | check t =>
    exact forall_enter (P := (·.state ≠ .gather)) hs
      (((hinv t).quiesceCheck fun hg => absurd hg (hs t)).2 (.inr (hs t)))
  | drain t => exact forall_enter (P := (·.state ≠ .gather)) hs (hs t)
  | clock => exact hs

open Settles

theorem Settles.revoking [Env] (h : Settles inode a b)
    (hinv : ∀ t, Revoking exclude sent (a.lock inode t))
    (htime : ∀ n, a.counters.reads ≤ n → n < b.counters.reads → InTime sent n) :
    ∀ t, Revoking exclude sent (b.lock inode t) := by
  induction h with
  | refl => exact hinv
  | tail hpath hmove ih =>
    have hle := reads_le hpath
    exact hmove.revoking (ih fun n hn hlt => htime n hn (hlt.trans_le hmove.reads_le))
      fun _ hr => htime _ hle hr

theorem Settles.rest [Env] (h : Settles inode a b)
    (hinv : ∀ t, Revoking exclude sent (a.lock inode t))
    (hs : ∀ t, (a.lock inode t).state ≠ .gather) :
    ∀ t, Revoking exclude sent (b.lock inode t) ∧ (b.lock inode t).state ≠ .gather := by
  induction h with
  | refl => exact fun t => ⟨hinv t, hs t⟩
  | tail _ hmove ih =>
    have hrest := hmove.rest (fun t => (ih t).1) fun t => (ih t).2
    exact fun t =>
      ⟨hmove.revoking (fun t => (ih t).1) (fun ⟨u, hu⟩ => absurd hu (ih u).2) t, hrest t⟩

/-! ## Operations -/

/-- No request waits for a lock of the inode. -/
def Idle (inode : Nat) (a : LockArbiter C) : Prop := ∀ t, (a.lock inode t).waiting = []

@[simp] theorem waiting_gatherTimeout [Env] (k : Counters) (l : MdLock C) :
    (l.gatherTimeout k).lock.waiting = l.waiting := by
  rcases gatherTimeout_cases k l with ⟨-, ht⟩ | ⟨m, _, rfl, -, -, -, ⟨-, ht⟩ | ⟨-, ht⟩⟩
  · rw [ht]
  · rw [ht]
    rfl
  · rw [ht, waiting_gatherComplete]
    rfl

theorem Move.idle [Env] (h : Move inode a b) (hidle : Idle inode a) : Idle inode b := by
  cases h with
  | ack t c sn =>
    refine forall_enter (P := (·.waiting = [])) hidle (Eq.trans ?_ (hidle t))
    simp only [Act.run]
    fun_cases MdLock.recallAck <;> simp +zetaDelta
  | sweep t now =>
    refine forall_enter (P := (·.waiting = [])) hidle (Eq.trans ?_ (hidle t))
    simp only [Act.run, MdLock.sweep, MdLock.retire]
    split <;> simp
  | check t =>
    refine forall_enter (P := (·.waiting = [])) hidle (Eq.trans ?_ (hidle t))
    simp only [Act.run]
    fun_cases MdLock.quiesceCheck <;> simp +zetaDelta
  | drain t => exact forall_enter (P := (·.waiting = [])) hidle rfl
  | clock => exact hidle

theorem Settles.idle [Env] (h : Settles inode a b) (hidle : Idle inode a) : Idle inode b := by
  induction h with
  | refl => exact hidle
  | tail _ hmove ih => exact hmove.idle ih

/-- A loop of steps that are made of such sections when no request waits. -/
theorem settles_foldl [Env] {A β : Type} (last : A → LockArbiter C) {f : A → β → A}
    (hf : ∀ acc x, Idle inode (last acc) → Settles inode (last acc) (last (f acc x)))
    (xs : List β) (acc : A) (hidle : Idle inode (last acc)) :
    Settles inode (last acc) (last (xs.foldl f acc)) := by
  induction xs generalizing acc with
  | nil => exact .refl
  | cons x xs ih =>
    have hstep := hf acc x hidle
    exact hstep.trans (ih _ (hstep.idle hidle))

theorem settles_wakeWaiters [Env] (hidle : Idle inode a) (t : LockType) :
    Settles inode a (a.wakeWaiters inode t) := by
  have hwake : a.wakeWaiters inode t = (a.enter inode t .drainWaiters).2 := by
    simp only [wakeWaiters, enter, Act.run, hidle t]
    rfl
  rw [hwake]
  exact .single (.drain t)

/-- What may follow the call. -/
inductive FollowUp (C : Type)
  | recallAck (t : LockType) (c : C) (sn : Nat)
  | tick
  | quiesceComplete

def FollowUp.perform [Env] (inode : Nat) (a : LockArbiter C) :
    FollowUp C → LockArbiter C
  | .recallAck t c sn => (a.recallAck inode t c sn).2
  | .tick => (a.tick inode).2
  | .quiesceComplete => (a.quiesceComplete inode).2

theorem settles_check [Env] (hidle : Idle inode a) : Settles inode a (a.quiesceComplete inode).2 :=
  settles_foldl (f := checkLock inode) Prod.snd (fun _ t _ => .single (.check t)) _ (true, a) hidle

theorem settles_perform [Env] (hidle : Idle inode a) (op : FollowUp C) :
    Settles inode a (op.perform inode a) := by
  cases op with
  | recallAck t c sn =>
    have hack : Settles inode a (a.enter inode t (.recallAck c sn)).2 :=
      .single (.ack t c sn)
    simp only [FollowUp.perform, recallAck, wakeIf]
    split
    · exact hack.trans (settles_wakeWaiters (hack.idle hidle) t)
    · exact hack
  | tick =>
    have hclock : Settles inode a (a.step .readClock) := .single .clock
    have hswept := settles_foldl (f := sweepLock inode
      (instant a.counters.reads)) LockArbiter.Swept.arbiter
      (fun _ t _ => .single (.sweep t _)) LockType.all ⟨[], [], a.step .readClock⟩
      (hclock.idle hidle)
    exact (hclock.trans hswept).trans (settles_foldl id (fun b t hb => settles_wakeWaiters hb t) _
      _ (idle (hclock.trans hswept) hidle))
  | quiesceComplete => exact settles_check hidle

theorem settles_performAll [Env] (hidle : Idle inode a) (ops : List (FollowUp C)) :
    Settles inode a (ops.foldl (FollowUp.perform inode) a) :=
  settles_foldl id (fun _ op hb => settles_perform hb op) ops a hidle

/-- The call quiesces each lock once, at the time it has read. -/
theorem lock_quiesceExcept [Env] (inode : Nat) (exclude : Option C)
    (a : LockArbiter C) (t : LockType) :
    ((a.quiesceExcept inode exclude).2.lock inode t) =
        ((a.lock inode t).quiesce exclude (instant a.counters.reads) a.counters.epoch).2 ∧
      (a.quiesceExcept inode exclude).2.counters.reads = a.counters.reads + 1 := by
  have hfold : ∀ now epoch (ts : List LockType) (acc : List (RecallTask C) × LockArbiter C),
      ts.Nodup →
      ((ts.foldl (quiesceLock inode exclude now epoch) acc).2.lock inode t = if t ∈ ts
        then ((acc.2.lock inode t).quiesce exclude now epoch).2 else acc.2.lock inode t) ∧
      (ts.foldl (quiesceLock inode exclude now epoch) acc).2.counters.reads =
        acc.2.counters.reads := by
    intro now epoch ts
    induction ts with
    | nil => exact fun acc _ => ⟨by simp, rfl⟩
    | cons u ts ih =>
      intro acc hd
      obtain ⟨hnot, hd⟩ := nodup_cons.mp hd
      obtain ⟨hlock, hreads⟩ := ih (quiesceLock inode exclude now epoch acc u) hd
      refine ⟨?_, hreads⟩
      rw [foldl_cons, hlock]
      by_cases htu : t = u
      · subst htu
        rw [if_neg hnot, if_pos mem_cons_self]
        exact lock_enter_self _ _ _
      have hsame : (quiesceLock inode exclude now epoch acc u).2.lock inode t =
          acc.2.lock inode t := lock_enter_other _ (.inr (Ne.symm htu))
      rw [hsame]
      simp only [mem_cons, htu, false_or]
  obtain ⟨hlock, hreads⟩ := hfold _ _ LockType.all
    ([], (a.step .readClock).step .allocEpoch) (by decide)
  refine ⟨?_, hreads⟩
  rw [if_pos (by cases t <;> decide)] at hlock
  exact hlock

/-- Checks that all succeed leave no gather on the locks they are of. -/
theorem checks_done [Env] {ts : List LockType} {acc : Bool × LockArbiter C}
    (hinv : ∀ t, Revoking exclude sent (acc.2.lock inode t))
    (htime : ∀ n, acc.2.counters.reads ≤ n →
      n < (ts.foldl (checkLock inode) acc).2.counters.reads → InTime sent n)
    (htrue : (ts.foldl (checkLock inode) acc).1 = true) :
    acc.1 = true ∧ ∀ t, t ∈ ts ∨ (acc.2.lock inode t).state ≠ .gather →
      ((ts.foldl (checkLock inode) acc).2.lock inode t).state ≠ .gather := by
  induction ts generalizing acc with
  | nil => exact ⟨htrue, fun t ht => ht.resolve_left (by simp)⟩
  | cons u ts ih =>
    have hmove : Move inode acc.2 (checkLock inode acc u).2 := .check u
    have hmore : Settles inode (checkLock inode acc u).2 (ts.foldl (checkLock inode)
          (checkLock inode acc u)).2 :=
      settles_foldl (f := checkLock inode) Prod.snd
        (fun _ t _ => .single (.check t)) ts _ (hmove.idle fun t => (hinv t).idle)
    have hnext := hmove.revoking hinv fun _ hr =>
      htime _ (le_refl _) (hr.trans_le (reads_le hmore))
    obtain ⟨hok, hrest⟩ := ih hnext (fun n hn hlt => htime n (hmove.reads_le.trans hn) hlt) htrue
    obtain ⟨hacc, hreply⟩ := Bool.and_eq_true_iff.mp hok
    obtain ⟨-, hchecked⟩ : Revoking exclude sent
        ((acc.2.lock inode u).quiesceCheck acc.2.counters).lock ∧ _ :=
      (hinv u).quiesceCheck fun _ hr =>
        htime _ (le_refl _) (hr.trans_le (reads_le hmore))
    refine ⟨hacc, fun t ht => hrest t ?_⟩
    by_cases htu : u = t
    · subst htu
      rw [checkLock, lock_enter_self]
      exact .inr (hchecked (.inl hreply))
    · rw [checkLock, lock_enter_other _ (.inr htu)]
      exact ht.imp (fun hm => (mem_cons.mp hm).resolve_left (Ne.symm htu)) id

/-! ## The whole call -/

/-- The state in which the call quiesces: no lock of the inode is gathering and no request
waits for one, each client has one record on a lock, and the excluded client is nowhere the
only holder. -/
structure Ready (inode : Nat) (exclude : Option C) (a : LockArbiter C) : Prop where
  calm : ∀ t, (a.lock inode t).state ≠ .gather
  idle : Idle inode a
  distinct : ∀ t, ((a.lock inode t).holders.map (·.clientId)).Nodup
  others : ∀ t, ∀ h ∈ (a.lock inode t).holders, exclude = some h.clientId →
    ∃ h' ∈ (a.lock inode t).holders, exclude ≠ some h'.clientId

theorem Ready.revoking [Env] (h : Ready inode exclude a) (t : LockType) :
    Revoking exclude (instant a.counters.reads)
      ((a.quiesceExcept inode exclude).2.lock inode t) := by
  rw [(lock_quiesceExcept inode exclude a t).1]
  exact quiesce_revoking (h.calm t) (h.idle t) (h.distinct t) (h.others t)

/-- **Quiesce really quiesces**, when it starts in a `Ready` state and all of it happens within
the recall timeout: once `quiesce_complete` says yes, the other holders have no capability on
any lock of the inode and no lock is gathering. From then on, whatever answers, ticks and
checks still come, a third client that asks for a lock on which the excluded client may write
is refused, and the excluded client is recalled. -/
theorem quiesce_quiesces [Env] (inode : Nat) (exclude : Option C)
    (a : LockArbiter C) (hready : Ready inode exclude a) (ops later : List (FollowUp C)) :
    let b := ops.foldl (FollowUp.perform inode) (a.quiesceExcept inode exclude).2
    let done := b.quiesceComplete inode
    let c := later.foldl (FollowUp.perform inode) done.2
    (∀ n, a.counters.reads ≤ n → n < done.2.counters.reads →
      InTime (instant a.counters.reads) n) → done.1 = true →
    (∀ t, (∀ h ∈ (done.2.lock inode t).holders, exclude ≠ some h.clientId →
        h.grantedCaps = CapSet.none) ∧ (done.2.lock inode t).state ≠ .gather) ∧
      ∀ t, ∀ h ∈ (c.lock inode t).holders, exclude = some h.clientId →
        h.grantedCaps.conflicts = true → instant c.counters.reads < h.expireAt →
        InTime (instant c.counters.reads) (c.counters.reads + 1) →
        ∀ third, third ≠ h.clientId →
          let reply := ((c.lock inode t).wrlock c.counters third).reply
          reply.sn = 0 ∧ reply.grantedCaps = CapSet.none ∧
            ∃ task ∈ reply.recallTasks, task.clientId = h.clientId := by
  intro b done c htime htrue
  have hinv := Ready.revoking hready
  have hidle : Idle inode (a.quiesceExcept inode exclude).2 := fun t => (hinv t).idle
  have hops : Settles inode _ b := settles_performAll hidle ops
  have hcheck : Settles inode b done.2 := settles_check (idle hops hidle)
  have hreads := (lock_quiesceExcept inode exclude a .file).2
  have hb : ∀ t, Revoking exclude (instant a.counters.reads) (b.lock inode t) :=
    revoking hops hinv fun n hn hlt =>
      htime n (by omega) (hlt.trans_le (reads_le hcheck))
  have hfrom : a.counters.reads ≤ b.counters.reads := by
    have := reads_le hops
    omega
  have hd := revoking hcheck hb fun n hn hlt => htime n (hfrom.trans hn) hlt
  have hrest : ∀ t, (done.2.lock inode t).state ≠ .gather := by
    intro t
    refine (checks_done hb (fun n hn hlt => htime n (hfrom.trans hn) hlt) htrue).2 t (.inl ?_)
    cases t <;> decide
  refine ⟨fun t => ⟨fun h hh hne => ?_, hrest t⟩, ?_⟩
  · exact ((hd t).revoked h hh hne).resolve_right fun hg => hrest t hg.1
  · intro t h hh _ hcaps hlease htime third hthird
    obtain ⟨hc, hs⟩ := rest (settles_performAll (fun t => (hd t).idle) later) hd hrest t
    exact hc.wrlock_recalls hs hh (Ne.symm hthird) hcaps hlease htime

local instance : Env := frozen

/-- A reader and a writer share the FILE lock of inode 7. -/
def shared : LockArbiter Nat :=
  LockArbiter.performAll .byKey [.rdlock 7 .file 2, .wrlock 7 .file 1]

theorem shared_quiesced :
    let b := [FollowUp.recallAck .file 2 1].foldl (FollowUp.perform 7)
      (shared.quiesceExcept 7 (some 1)).2
    let done := b.quiesceComplete 7
    done.1 = true ∧ (done.2.lock 7 .file).state ≠ .gather ∧
      ((done.2.lock 7 .file).wrlock done.2.counters 3).reply.sn = 0 := by
  have hready : Ready 7 (some 1) shared := by
    refine ⟨fun t => ?_, fun t => ?_, fun t => ?_, fun t => ?_⟩ <;> cases t <;> decide +kernel
  have hcalm := quiesce_quiesces 7 (some 1) shared hready [.recallAck .file 2 1] []
    (fun _ _ _ => Nat.zero_le _) (by decide +kernel)
  refine ⟨by decide +kernel, (hcalm.1 .file).2, ?_⟩
  refine (hcalm.2 .file (MdLock.newHolder 1 2 LockType.file.capBits 30000) ?_ rfl rfl ?_
    (Nat.zero_le _) 3 (by decide)).1
  · decide +kernel
  · decide +kernel

/-- The excluded client is the only holder. -/
def excludedAlone : Bool × LockArbiter Nat :=
  ((LockArbiter.performAll .byKey [.wrlock 7 .file 1]).quiesceExcept 7 (some 1)).2.quiesceComplete 7

/-- The lock is gathering for a reader when the call comes, and the writer answers. -/
def passedOver : Bool × LockArbiter Nat :=
  (FollowUp.perform 7 ((LockArbiter.performAll .byKey
    [.wrlock 7 .file 1, .rdlock 7 .file 2]).quiesceExcept 7 none).2
    (.recallAck .file 1 1)).quiesceComplete 7

/-- The writer does not answer, and the clock shows 1.5 seconds more at each reading. -/
def silentHolder : Bool × LockArbiter Nat :=
  letI : Env := ⟨2000, 30000, fun n => 1500 * n⟩
  (FollowUp.perform 7 ((LockArbiter.performAll .byKey [.wrlock 7 .file 1]).quiesceExcept 7 none).2
    .quiesceComplete).quiesceComplete 7

/-- Three ways in which the answer is wrong: the lock of a lone excluded holder is left in
GATHER; a lock that is gathering for a reader is passed over, and the writer it waits for
keeps read access; and a holder that does not answer keeps everything. -/
theorem quiesce_leaves_capabilities :
    (excludedAlone.1, (excludedAlone.2.lock 7 .file).state) = (true, .gather) ∧
    (passedOver.1, (passedOver.2.lock 7 .file).holders.map fun h => (h.clientId, h.grantedCaps)) =
      (true, [(1, CapSet.capR)]) ∧
    (silentHolder.1,
      (silentHolder.2.lock 7 .file).holders.map fun h => (h.clientId, h.grantedCaps)) =
      (true, [(1, LockType.file.capBits)]) := by
  decide +kernel

end PowerFS.Filer.Quiesce
