import PowerFS.Lib.Decimal
import PowerFS.Filer.LockFacts

/-! # Serials

Every serial on a lock was taken from the one counter of the arbiter, by a section on that
lock. So no two inodes ever have a serial in common, and a serial that was told to a client by
a section on one inode is never found on another. -/
namespace PowerFS.Filer.Serials
open Lib.FirstMatch Locks Arbiter LockFacts List LockArbiter MdLock

variable {C : Type}

/-- The serials of the holders and of the recalls of a lock. -/
def serials (l : MdLock C) : List Nat := l.holders.map (·.sn) ++ l.gatherList.map (·.sn)

/-- The serials that an answer has, as its own, in recalls and in a promotion. -/
def told : (act : Act C) → act.Answer → List Nat
  | .rdlock _ | .wrlock _ | .xlock _ | .scatterWrlock _ => fun (r : LockGrantResult C) =>
    r.sn :: r.recallTasks.map (·.sn)
  | .unlock _ | .posixUnlock _ | .evict _ | .sweep _ => fun (d : Departure C) =>
    d.promoted.toList.map (·.2.1)
  | .quiesce _ _ _ | .fileFlushToSync _ => fun (ts : List (RecallTask C)) => ts.map (·.sn)
  | _ => fun _ => []

variable {k : Counters} {n n' : Nat} {l l' : MdLock C}

variable {s n'' : Nat} {p : LockHolder C → Bool}

theorem mem_serials : s ∈ serials l ↔
    (∃ h ∈ l.holders, h.sn = s) ∨ ∃ e ∈ l.gatherList, e.sn = s := by
  simp [serials]

/-- The serials that can be there after a section: the old ones and those it took. -/
def Sourced (n n' : Nat) (l : MdLock C) (s : Nat) : Prop := s ∈ serials l ∨ n ≤ s ∧ s < n'

/-- No serial comes from elsewhere, while the counter goes from `n` to `n'`. -/
structure Closed (n n' : Nat) (l l' : MdLock C) : Prop where
  le : n ≤ n'
  sourced : ∀ s ∈ serials l', Sourced n n' l s

theorem Closed.refl (n : Nat) (l : MdLock C) : Closed n n l l :=
  ⟨le_refl _, fun _ hs => .inl hs⟩

theorem Closed.trans {l'' : MdLock C} (h : Closed n n' l l') (h' : Closed n' n'' l' l'') :
    Closed n n'' l l'' := by
  refine ⟨h.le.trans h'.le, fun s hs => ?_⟩
  rcases h'.sourced s hs with hs | hs
  · exact (h.sourced s hs).imp id fun hn => ⟨hn.1, hn.2.trans_le h'.le⟩
  · exact .inr ⟨h.le.trans hs.1, hs.2⟩

/-- A change that brings no serial. -/
theorem closed_of_subset (hsub : ∀ s ∈ serials l', s ∈ serials l) : Closed n n l l' :=
  ⟨le_refl _, fun s hs => .inl (hsub s hs)⟩

theorem closed_eval (l : MdLock C) : Closed n n l l.eval :=
  closed_of_subset fun s hs => by rwa [serials, holders_eval, gatherList_eval] at hs

/-- Records that are dropped or changed in other fields, and recalls likewise. -/
theorem closed_of_records (hh : ∀ x ∈ l'.holders, ∃ y ∈ l.holders, x.sn = y.sn)
    (hg : ∀ e ∈ l'.gatherList, ∃ e' ∈ l.gatherList, e.sn = e'.sn) : Closed n n l l' := by
  refine closed_of_subset fun s hs => ?_
  rcases mem_serials.mp hs with ⟨x, hx, rfl⟩ | ⟨e, he, rfl⟩
  · obtain ⟨y, hy, hsn⟩ := hh x hx
    exact mem_serials.mpr (.inl ⟨y, hy, hsn.symm⟩)
  · obtain ⟨e', he', hsn⟩ := hg e he
    exact mem_serials.mpr (.inr ⟨e', he', hsn.symm⟩)

/-- Holders leave, and nothing else happens to the records. -/
theorem closed_filter (hh : l'.holders = l.holders.filter p) (hg : l'.gatherList = l.gatherList) :
    Closed n n l l' := by
  refine closed_of_records (fun x hx => ?_) fun e he => ⟨e, hg ▸ he, rfl⟩
  rw [hh] at hx
  exact ⟨x, (mem_filter.mp hx).1, rfl⟩

theorem closed_goTo (s : LockState) : Closed n n l (l.goTo s) :=
  closed_of_subset fun x hx => by rwa [serials, holders_goTo, gatherList_goTo] at hx

theorem closed_collect (now : Nat) : Closed n n l (l.collect now) :=
  closed_filter (holders_collect now) (gatherList_collect now)

theorem closed_recallHolders (now newEpoch : Nat)
    (recalled : LockHolder C → Option (CapSet × CapSet)) :
    Closed n n l (l.recallHolders now newEpoch recalled) := by
  refine closed_of_subset fun s hs => ?_
  rcases mem_serials.mp hs with ⟨x, hx, rfl⟩ | ⟨e, he, rfl⟩
  · obtain ⟨y, hy, rfl⟩ := mem_map.mp hx
    refine mem_serials.mpr (.inl ⟨y, hy, ?_⟩)
    cases recalled y <;> rfl
  rcases mem_append.mp he with he | he
  · exact mem_serials.mpr (.inr ⟨e, he, rfl⟩)
  · obtain ⟨y, hy, rfl⟩ := mem_map.mp he
    exact mem_serials.mpr (.inl ⟨y, (mem_filter.mp hy).1, rfl⟩)

theorem recallTasks_told {newEpoch : Nat} {recalled : LockHolder C → Option (CapSet × CapSet)}
    {t : RecallTask C} (ht : t ∈ l.recallTasks newEpoch recalled) : t.sn ∈ serials l := by
  obtain ⟨x, hx, hr⟩ := mem_filterMap.mp ht
  obtain ⟨caps, -, rfl⟩ := Option.map_eq_some_iff.mp hr
  exact mem_serials.mpr (.inl ⟨x, hx, rfl⟩)

theorem Closed.later (h : Closed n n' l l') (hle : n' ≤ n'') : Closed n n'' l l' :=
  h.trans ⟨hle, fun _ hs => .inl hs⟩

theorem Sourced.later (h : Sourced n n' l s) (hle : n' ≤ n'') : Sourced n n'' l s :=
  h.imp id fun hs => ⟨hs.1, hs.2.trans_le hle⟩

variable {m : MdLock C} {sn : Nat}

theorem Closed.of_mem (h : Closed n n l m) (hs : s ∈ serials m) (hle : n ≤ n') : Sourced n n' l s :=
  (h.sourced s hs).later hle

/-- A record comes in with a serial that the section takes. -/
theorem Closed.enlist (h : Closed n n' l m) (hlo : n ≤ sn) (hhi : sn < n')
    (hh : ∀ x ∈ l'.holders, (∃ y ∈ m.holders, x.sn = y.sn) ∨ x.sn = sn)
    (hg : l'.gatherList = m.gatherList) : Closed n n' l l' := by
  refine ⟨h.le, fun s hs => ?_⟩
  rcases mem_serials.mp hs with ⟨x, hx, rfl⟩ | ⟨e, he, rfl⟩
  · rcases hh x hx with ⟨y, hy, hsn⟩ | hsn
    · exact h.sourced _ (mem_serials.mpr (.inl ⟨y, hy, hsn.symm⟩))
    · exact .inr (by omega)
  · exact h.sourced _ (mem_serials.mpr (.inr ⟨e, hg ▸ he, rfl⟩))

theorem mem_pushed {hs : List (LockHolder C)} {x y : LockHolder C} (hx : x ∈ hs ++ [y])
    (hy : y.sn = sn) : (∃ z ∈ hs, x.sn = z.sn) ∨ x.sn = sn := by
  rcases mem_append.mp hx with hx | hx
  · exact .inl ⟨x, hx, rfl⟩
  · exact .inr (by rw [mem_singleton.mp hx, hy])

section

variable (h : Closed n n' l m) (hlo : n ≤ sn) (hhi : sn < n')
include h hlo hhi

theorem Closed.admitReader [Env] (now : Nat) (c : C) : Closed n n' l (m.admitReader now sn c) := by
  refine h.enlist hlo hhi (fun x hx => ?_) (gatherList_goTo _)
  rw [MdLock.admitReader, holders_goTo] at hx
  exact mem_pushed hx rfl

theorem Closed.admitWriter [DecidableEq C] [Env] (now : Nat) (c : C) : Closed n n' l (m.admitWriter now sn c) := by
  refine h.enlist hlo hhi (fun x hx => ?_) (gatherList_eval _)
  rw [MdLock.admitWriter, holders_eval] at hx
  split at hx
  · rcases mem_modifyFirst hx with hx | ⟨y, -, -, rfl⟩
    · exact .inl ⟨x, hx, rfl⟩
    · exact .inr rfl
  · exact mem_pushed hx rfl

theorem Closed.admitExclusive [Env] (now : Nat)
    (c : C) : Closed n n' l (m.admitExclusive now sn c) := by
  refine h.enlist hlo hhi (fun x hx => ?_) (gatherList_eval _)
  rw [MdLock.admitExclusive, holders_eval] at hx
  exact mem_pushed hx rfl

theorem Closed.promoteToLoner : Closed n n' l (m.promoteToLoner sn) := by
  unfold MdLock.promoteToLoner
  split
  · exact h
  refine h.enlist hlo hhi (fun x hx => ?_) (gatherList_eval _)
  rw [holders_eval] at hx
  rcases mem_modifyFirst hx with hx | ⟨y, -, -, rfl⟩
  · exact .inl ⟨x, hx, rfl⟩
  · exact .inr rfl

end

/-! ## Answers -/

/-- A request, as far as it is granted or refused. -/
def Granted (k : Counters) (l : MdLock C) (o : Outcome C (LockGrantResult C)) : Prop :=
  Closed k.sn o.counters.sn l o.lock ∧ (o.reply.sn = 0 ∨ Sourced k.sn o.counters.sn l o.reply.sn) ∧
    ∀ t ∈ o.reply.recallTasks, Sourced k.sn o.counters.sn l t.sn

theorem Granted.told {o : Outcome C (LockGrantResult C)} (h : Granted k l o) :
    ∀ s ∈ o.reply.sn :: o.reply.recallTasks.map (·.sn), s = 0 ∨ Sourced k.sn o.counters.sn l s := by
  refine forall_mem_cons.mpr ⟨h.2.1, fun s hs => ?_⟩
  obtain ⟨t, ht, rfl⟩ := mem_map.mp hs
  exact .inr (h.2.2 t ht)

/-- A section after which a holder may have been promoted. -/
def Departed (k : Counters) (l : MdLock C) (o : Outcome C (Departure C)) : Prop :=
  Closed k.sn o.counters.sn l o.lock ∧
    ∀ p, o.reply.promoted = some p → Sourced k.sn o.counters.sn l p.2.1

variable {o : Outcome C (Departure C)} {inode : Nat}

theorem Departed.told (h : Departed k l o) :
    ∀ s ∈ o.reply.promoted.toList.map (·.2.1), s = 0 ∨ Sourced k.sn o.counters.sn l s := by
  intro s hs
  obtain ⟨p, hp, rfl⟩ := mem_map.mp hs
  exact .inr (h.2 p (Option.mem_toList.mp hp))

theorem departed_quietly {d : Departure C} (hd : d.promoted = none) (hc : Closed k.sn k.sn l l') :
    Departed k l ⟨d, l', k, []⟩ :=
  ⟨hc, fun p hp => by rw [hd] at hp; cases hp⟩

/-- A promoted holder is on the lock with the serial it is told. -/
theorem sourced_head {p : C × Nat × CapSet} (hc : Closed n n' l m)
    (hp : m.holders.head?.map (fun h => (h.clientId, h.sn, h.grantedCaps)) = some p) :
    Sourced n n' l p.2.1 := by
  obtain ⟨x, hx, rfl⟩ := Option.map_eq_some_iff.mp hp
  exact hc.sourced _ (mem_serials.mpr (.inl ⟨x, mem_of_mem_head? hx, rfl⟩))

theorem departed_settleShared (hc : Closed k.sn k.sn l m) (promotes : Bool) :
    Departed k l ⟨(m.settleShared promotes k).reply, (m.settleShared promotes k).lock.eval,
      (m.settleShared promotes k).counters, []⟩ := by
  unfold settleShared
  split
  · refine departed_quietly rfl (hc.trans (closed_of_subset fun s hs => ?_))
    rwa [serials, holders_eval, gatherList_eval] at hs
  split
  · have hp := (hc.later (Nat.le_succ _)).promoteToLoner (le_refl _) (Nat.lt_succ_self _)
    exact ⟨hp.trans (closed_eval _), fun p h => sourced_head hp h⟩
  · exact departed_quietly rfl (hc.trans (closed_eval _))

/-- Holders leave, and a gather brings no serial. -/
theorem departed_departs (hm : Closed k.sn k.sn (without l p) m) (h : Departs k l p m o) :
    Departed k l o := by
  have hrest : Closed k.sn k.sn l (without l p) := closed_filter rfl rfl
  cases h with
  | nobody => exact departed_quietly rfl (.refl _ l)
  | left => exact departed_quietly rfl (hrest.trans (closed_goTo _))
  | settled _ hd =>
    obtain ⟨hc, hp⟩ := departed_settleShared hrest _
    exact ⟨hc, fun p h => hp p (hd ▸ h)⟩
  | gathering => exact departed_quietly rfl (hrest.trans (hm.trans (closed_eval _)))

variable [DecidableEq C]

/-! ## Gathers -/

theorem closed_gatherComplete [Env] (l : MdLock C) : Closed n n l l.gatherComplete := by
  refine closed_of_records (fun x hx => ?_) fun e he => ?_
  · obtain ⟨y, hy, rfl, -⟩ := mem_gatherComplete hx
    exact ⟨y, hy, rfl⟩
  · rw [gatherList_gatherComplete] at he
    cases he

theorem closed_gatherTimeout [Env] (k : Counters) (l : MdLock C) :
    Closed k.sn (l.gatherTimeout k).counters.sn l (l.gatherTimeout k).lock := by
  have hmarked : ∀ now, Closed k.sn k.sn l (l.markLapsed recallTimeout now) := by
    intro now
    refine closed_of_records (fun x hx => ⟨x, hx, rfl⟩) fun e he => ?_
    obtain ⟨e₀, he₀, rfl⟩ := mem_map.mp he
    exact ⟨e₀, he₀, by split <;> rfl⟩
  rcases gatherTimeout_cases k l with ⟨-, ht⟩ | ⟨m, _, rfl, -, -, -, ⟨-, ht⟩ | ⟨-, ht⟩⟩
  · rw [ht]
    exact .refl _ l
  · rw [ht]
    exact hmarked _
  · rw [ht]
    exact (hmarked _).trans (closed_gatherComplete _)

/-- A gather takes no serial, and recalls only those of holders. -/
theorem closed_gatherStage [Env] (k : Counters) (l : MdLock C) (now : Nat)
    (target : GatherTarget) (recalled : LockHolder C → Option (CapSet × CapSet)) :
    Closed k.sn (l.gatherStage k now target recalled).counters.sn l
      (l.gatherStage k now target recalled).lock ∧
    ∀ t ∈ (l.gatherStage k now target recalled).reply, t.sn ∈ serials l := by
  have hopen : Closed k.sn (l.openGather k now target recalled).counters.sn l
      (l.openGather k now target recalled).lock ∧
      ∀ t ∈ (l.openGather k now target recalled).reply, t.sn ∈ serials l := by
    unfold openGather
    split
    · exact ⟨.refl _ l, forall_mem_nil _⟩
    have hsent := closed_recallHolders (n := k.sn)
      (l := { l with state := .gather, gatherTarget := target }) now k.epoch recalled
    exact ⟨⟨le_refl _, hsent.sourced⟩, fun t ht => recallTasks_told ht⟩
  exact ⟨hopen.1.trans (closed_gatherTimeout _ _), hopen.2⟩

theorem closed_leaveGather [Env] (sn : Nat) : Closed n n l (l.leaveGather sn).2 := by
  have hmarked : Closed n n l { l with gatherList := l.gatherList.map fun g =>
      if g.sn = sn then { g with acked := true } else g } := by
    refine closed_of_records (fun x hx => ⟨x, hx, rfl⟩) fun e he => ?_
    obtain ⟨e₀, he₀, rfl⟩ := mem_map.mp he
    exact ⟨e₀, he₀, by split <;> rfl⟩
  simp only [leaveGather]
  split
  · split
    · exact hmarked.trans (closed_gatherComplete _)
    split
    · exact closed_of_records (fun x hx => ⟨x, hx, rfl⟩) fun e he => by cases he
    · exact hmarked
  · exact hmarked

theorem closed_recallAck [Env] (c : C) (sn : Nat) : Closed n n l (l.recallAck c sn).2 := by
  have hdown : Closed n n l (answered l c sn) := by
    refine closed_of_records (fun x hx => ?_) fun e he => ?_
    · rcases mem_modifyFirst hx with hx | ⟨y, hy, -, rfl⟩
      · exact ⟨x, hx, rfl⟩
      · exact ⟨y, hy, rfl⟩
    · obtain ⟨e₀, he₀, rfl⟩ := mem_map.mp he
      exact ⟨e₀, he₀, by split <;> rfl⟩
  simp only [MdLock.recallAck]
  split
  · split
    · exact hdown.trans (closed_gatherComplete _)
    · exact hdown
  · exact .refl _ l

/-! ## Requests -/

/-- What a section brings in and tells is sourced. -/
structure Honest [Env] (k : Counters) (l : MdLock C) (act : Act C) : Prop where
  closed : Closed k.sn (act.run k l).counters.sn l (act.run k l).lock
  told : ∀ s ∈ told act (act.run k l).reply, s = 0 ∨
    Sourced k.sn (act.run k l).counters.sn l s

theorem granted_rdlock [Env] (c : C) : Granted k l (l.rdlock k c) := by
  have hm : Closed k.sn k.sn l (l.collect (instant k.reads)) := closed_collect _
  simp only [rdlock]
  split
  · exact ⟨hm, .inl rfl, forall_mem_nil _⟩
  split
  · rename_i h hh
    exact ⟨hm.later (Nat.le_succ _), .inr (hm.of_mem
      (mem_serials.mpr (.inl ⟨h, (findHolder_some hh).1, rfl⟩)) (Nat.le_succ _)),
      forall_mem_nil _⟩
  split
  · obtain ⟨hstage, htasks⟩ := closed_gatherStage k.read.nextSn
      (l.collect (instant k.reads)) (instant k.reads) .toShared
      (recallConflicting conflictCaps c)
    have hle := (Nat.lt_succ_self k.sn).trans_le hstage.le
    have hall := (hm.later (Nat.le_succ _)).trans hstage
    split
    · exact ⟨hall, .inl rfl, fun t ht => hm.of_mem (htasks t ht) hle.le⟩
    · exact ⟨(hall.trans (closed_gatherComplete _)).admitReader (le_refl _) hle _ c,
        .inr (.inr ⟨le_refl _, hle⟩), forall_mem_nil _⟩
  · exact ⟨(hm.later (Nat.le_succ _)).admitReader (le_refl _) (Nat.lt_succ_self _) _ c,
      .inr (.inr ⟨le_refl _, Nat.lt_succ_self _⟩), forall_mem_nil _⟩

theorem granted_wrlock [Env] (c : C) : Granted k l (l.wrlock k c) := by
  have hm : Closed k.sn k.sn l (l.collect (instant k.reads)) := closed_collect _
  simp only [wrlock]
  split
  · rename_i h hh
    obtain ⟨-, hhead, -⟩ := lonerOf_some hh
    exact ⟨hm, .inr (hm.of_mem (mem_serials.mpr
      (.inl ⟨h, mem_of_mem_head? hhead, rfl⟩)) (le_refl _)), forall_mem_nil _⟩
  split
  · obtain ⟨hstage, htasks⟩ := closed_gatherStage k.read
      (l.collect (instant k.reads)) (instant k.reads)
      (l.collect (instant k.reads)).wrlockTarget (recallConflicting conflictCaps c)
    have hall := hm.trans hstage
    split
    · exact ⟨hall, .inl rfl, fun t ht => hm.of_mem (htasks t ht) hstage.le⟩
    refine ⟨((hall.trans (closed_gatherComplete _)).later (Nat.le_succ _)).admitWriter hall.le
      (Nat.lt_succ_self _) _ c, .inr (.inr ⟨hall.le, Nat.lt_succ_self _⟩), fun t ht => ?_⟩
    exact hm.of_mem (htasks t ht) (hstage.le.trans (Nat.le_succ _))
  · exact ⟨(hm.later (Nat.le_succ _)).admitWriter (le_refl _) (Nat.lt_succ_self _) _ c,
      .inr (.inr ⟨le_refl _, Nat.lt_succ_self _⟩), forall_mem_nil _⟩

theorem granted_xlock [Env] (c : C) : Granted k l (l.xlock k c) := by
  have hm : Closed k.sn k.sn l (l.collect (instant k.reads)) := closed_collect _
  simp only [xlock]
  split
  · exact ⟨(hm.later (Nat.le_succ _)).admitExclusive (le_refl _) (Nat.lt_succ_self _) _ c,
      .inr (.inr ⟨le_refl _, Nat.lt_succ_self _⟩), forall_mem_nil _⟩
  rename_i h rest hcons
  split
  · exact ⟨hm.trans (closed_goTo _), .inr (hm.of_mem (mem_serials.mpr
      (.inl ⟨h, by rw [hcons]; simp, rfl⟩)) (le_refl _)), forall_mem_nil _⟩
  obtain ⟨hstage, htasks⟩ := closed_gatherStage k.read
    (l.collect (instant k.reads)) (instant k.reads) .toExcl (recallAll (some c))
  have hall := hm.trans hstage
  split
  · exact ⟨hall, .inl rfl, fun t ht => hm.of_mem (htasks t ht) hstage.le⟩
  refine ⟨((hall.trans (closed_gatherComplete _)).later (Nat.le_succ _)).admitExclusive hall.le
    (Nat.lt_succ_self _) _ c, .inr (.inr ⟨hall.le, Nat.lt_succ_self _⟩), fun t ht => ?_⟩
  exact hm.of_mem (htasks t ht) (hstage.le.trans (Nat.le_succ _))

theorem granted_scatterWrlock [Env] (c : C) : Granted k l (l.scatterWrlock k c) := by
  have hm : Closed k.sn k.sn l (l.collect (instant k.reads)).activate := by
    refine (closed_collect (instant k.reads)).trans ?_
    unfold activate
    split
    · exact closed_of_subset fun s hs => hs
    · exact .refl _ _
  have henter : ∀ (m : MdLock C) (k' : Counters) now reclaimed, Closed k.sn k'.sn l m →
      Granted k l (m.admitScattered k' now c reclaimed) := by
    intro m k' now reclaimed hc
    refine ⟨?_, .inr (.inr ⟨hc.le, Nat.lt_succ_self _⟩), forall_mem_nil _⟩
    refine (hc.later (Nat.le_succ _)).enlist hc.le (Nat.lt_succ_self _) (fun x hx => ?_)
      (gatherList_goTo _)
    simp only [admitScattered, holders_goTo] at hx
    split at hx
    · exact .inl ⟨x, hx, rfl⟩
    · exact mem_pushed hx rfl
  simp only [scatterWrlock]
  split
  · exact henter _ _ _ _ hm
  obtain ⟨hstage, htasks⟩ := closed_gatherStage k.read
    (l.collect (instant k.reads)).activate (instant k.reads) .toDscatter
    (recallScattered c)
  split
  · refine ⟨hm.trans hstage, .inl rfl, fun t ht => ?_⟩
    obtain ⟨t₀, ht₀, rfl⟩ := mem_map.mp ht
    exact hm.of_mem (htasks t₀ ht₀) hstage.le
  · exact henter _ _ _ _ ((hm.trans hstage).trans (closed_gatherComplete _))

/-! ## Giving up and housekeeping -/

theorem departed_unlock [Env] (sn : Nat) : Departed k l (l.unlock k sn) :=
  departed_departs (closed_leaveGather sn) (unlock_departs k l sn)

theorem departed_posixUnlock [Env] (c : C) : Departed k l (l.posixUnlock k c) :=
  departed_departs (.refl _ _) (posixUnlock_departs k l c)

theorem departed_evict [Env] (c : C) : Departed k l (l.evict k c) := by
  refine departed_departs ?_ (evict_departs k l c)
  have hforgot : ∀ m : MdLock C, Closed k.sn k.sn m (m.forgetRecalls c) := fun m =>
    closed_of_records (fun x hx => ⟨x, hx, rfl⟩) fun e he => ⟨e, (mem_filter.mp he).1, rfl⟩
  unfold forgotten
  split
  · exact (hforgot _).trans (closed_gatherComplete _)
  · exact hforgot _

theorem departed_sweep [Env] (now : Nat) : Departed k l (l.sweep k now) := by
  have hgc : Closed k.sn k.sn l (l.garbageCollect now).2 := closed_filter rfl rfl
  have hswept : Departed k l (l.sweepExpired k now) := by
    simp only [sweepExpired]
    split
    · split
      · exact departed_quietly rfl (hgc.trans (closed_goTo _))
      split
      · have hp := (hgc.later (Nat.le_succ _)).promoteToLoner (le_refl _) (Nat.lt_succ_self _)
        exact ⟨hp.trans (closed_eval _), fun p h => sourced_head hp h⟩
      · exact departed_quietly rfl (hgc.trans (closed_eval _))
    · exact departed_quietly rfl hgc
  have hwaited := closed_gatherTimeout (l.sweepExpired k now).counters (l.sweepExpired k now).lock
  refine ⟨(hswept.1.trans hwaited).trans ?_, fun p hp => (hswept.2 p hp).later hwaited.le⟩
  simp only [sweep, retire]
  split
  · exact closed_of_subset fun s hs => hs
  · exact .refl _ _

/-- A section that tells no serial. -/
theorem honest_silent [Env] {act : Act C}
    (hc : Closed k.sn (act.run k l).counters.sn l (act.run k l).lock)
    (ht : told act (act.run k l).reply = []) : Honest k l act := by
  refine ⟨hc, fun s hs => ?_⟩
  rw [ht] at hs
  cases hs

theorem honest_quiesce [Env] (exclude : Option C) (now newEpoch : Nat) :
    Honest k l (.quiesce exclude now newEpoch) := by
  have hall : ∀ target, Closed k.sn k.sn l (({ l with state := .gather, gatherTarget := target } :
      MdLock C).recallHolders now newEpoch (recallAll exclude)) := fun target =>
    ⟨le_refl _, (closed_recallHolders (l := { l with state := .gather, gatherTarget := target })
      now newEpoch (recallAll exclude)).sourced⟩
  refine ⟨?_, ?_⟩
  · change Closed k.sn k.sn l (l.quiesce exclude now newEpoch).2
    simp only [quiesce]
    split
    · exact .refl _ l
    · exact hall _
  · change ∀ s ∈ (l.quiesce exclude now newEpoch).1.map (·.sn), s = 0 ∨ Sourced k.sn k.sn l s
    simp only [quiesce]
    intro s hs
    split at hs
    · cases hs
    · obtain ⟨t, ht, rfl⟩ := mem_map.mp hs
      exact .inr (.inl (recallTasks_told ht))

theorem honest_fileFlushToSync [Env] (c : C) : Honest k l (.fileFlushToSync c) := by
  obtain ⟨hstage, htasks⟩ := closed_gatherStage k.read l (instant k.reads) .toSync
    (recallConflicting CapSet.capW c)
  have hall : Closed k.sn (l.fileFlushToSync k c).counters.sn l (l.fileFlushToSync k c).lock ∧
      ∀ t ∈ (l.fileFlushToSync k c).reply, t.sn ∈ serials l := by
    simp only [fileFlushToSync]
    split
    · exact ⟨.refl _ l, forall_mem_nil _⟩
    split
    · refine ⟨?_, htasks⟩
      split
      · exact hstage.trans (closed_gatherComplete _)
      · exact hstage
    · exact ⟨closed_goTo _, forall_mem_nil _⟩
  refine ⟨hall.1, fun s hs => ?_⟩
  obtain ⟨t, ht, rfl⟩ := mem_map.mp hs
  exact .inr (.inl (hall.2 t ht))

theorem closed_quiesceCheck [Env] : Closed k.sn (l.quiesceCheck k).counters.sn l
    (l.quiesceCheck k).lock := by
  have hwaited := closed_gatherTimeout k l
  simp only [quiesceCheck]
  split
  · split
    · exact hwaited
    · exact hwaited.trans (closed_gatherComplete _)
  · exact .refl _ l

/-- **One section** brings in and tells only serials of its lock and serials it takes. -/
theorem run_honest [Env] (k : Counters) (l : MdLock C) (act : Act C) : Honest k l act := by
  cases act with
  | rdlock c => exact ⟨(granted_rdlock c).1, (granted_rdlock c).told⟩
  | wrlock c => exact ⟨(granted_wrlock c).1, (granted_wrlock c).told⟩
  | xlock c => exact ⟨(granted_xlock c).1, (granted_xlock c).told⟩
  | scatterWrlock c => exact ⟨(granted_scatterWrlock c).1, (granted_scatterWrlock c).told⟩
  | unlock sn => exact ⟨(departed_unlock sn).1, (departed_unlock sn).told⟩
  | posixUnlock c => exact ⟨(departed_posixUnlock c).1, (departed_posixUnlock c).told⟩
  | evict c => exact ⟨(departed_evict c).1, (departed_evict c).told⟩
  | sweep now => exact ⟨(departed_sweep now).1, (departed_sweep now).told⟩
  | enqueue | drainWaiters => exact honest_silent (closed_of_subset fun _ hs => hs) rfl
  | recallAck c sn => exact honest_silent (closed_recallAck c sn) rfl
  | quiesce exclude now newEpoch => exact honest_quiesce exclude now newEpoch
  | quiesceCheck => exact honest_silent closed_quiesceCheck rfl
  | fenceEpoch =>
    refine honest_silent (closed_of_subset fun s hs => ?_) rfl
    simp [Act.run, fenceEpoch, serials] at hs
  | fileFlushToSync c => exact honest_fileFlushToSync c
  | fileSyncToShared | localLock =>
    refine honest_silent ?_ rfl
    simp only [Act.run, fileSyncToShared, localLock]
    split
    · exact closed_goTo _
    · exact .refl _ l
  | localUnlock => exact honest_silent (closed_goTo _) rfl
  | scatterUnlock sn =>
    exact honest_silent (closed_filter (holders_eval _) (gatherList_eval _)) rfl

/-! ## Runs -/

variable {a : LockArbiter C}

/-- The serials on the locks are below the counter, not zero, and those of different inodes are
different. -/
structure Owned (a : LockArbiter C) : Prop where
  pos : 0 < a.counters.sn
  below : ∀ i t, ∀ s ∈ serials (a.lock i t), 0 < s ∧ s < a.counters.sn
  apart : ∀ i j t u, ∀ s ∈ serials (a.lock i t), s ∈ serials (a.lock j u) → i = j

/-- The serial, if it is one, is on no lock of another inode, and never will be. -/
def Elsewhere (inode s : Nat) (a : LockArbiter C) : Prop :=
  s < a.counters.sn ∧ ∀ i t, s ∈ serials (a.lock i t) → i = inode

/-- A section that brings the serials `s` on a lock had them there, or has just taken them. -/
theorem step_sourced [Env] (a : LockArbiter C) (step : Section C) (i : Nat)
    (t : LockType) (hs : s ∈ serials ((a.step step).lock i t)) :
    s ∈ serials (a.lock i t) ∨ (∃ act, step = .on i t act) ∧ a.counters.sn ≤ s ∧
      s < (a.step step).counters.sn := by
  rcases lock_step a step i t with ⟨act, rfl, hl, hk⟩ | ⟨-, hl⟩
  · rw [hl] at hs
    rw [hk]
    exact ((run_honest a.counters (a.lock i t) act).closed.sourced s hs).imp id
      fun hn => ⟨⟨act, rfl⟩, hn⟩
  · rw [hl] at hs
    exact .inl hs

theorem step_sn_le [Env] (a : LockArbiter C) (step : Section C) :
    a.counters.sn ≤ (a.step step).counters.sn := by
  cases step with
  | on i t act => exact (run_honest a.counters (a.lock i t) act).closed.le
  | readClock | allocEpoch => exact le_refl _

theorem Owned.step [Env] (h : Owned a) (step : Section C) : Owned (a.step step) := by
  have hle := step_sn_le a step
  refine ⟨h.pos.trans_le hle, fun i t s hs => ?_, fun i j t u s hs hs' => ?_⟩
  · rcases step_sourced a step i t hs with hs | ⟨-, hs⟩
    · exact ⟨(h.below i t s hs).1, (h.below i t s hs).2.trans_le hle⟩
    · exact ⟨h.pos.trans_le hs.1, hs.2⟩
  · rcases step_sourced a step i t hs with hs | ⟨⟨act, rfl⟩, hs⟩
    · rcases step_sourced a step j u hs' with hs' | ⟨-, hs'⟩
      · exact h.apart i j t u s hs hs'
      · exact absurd (h.below i t s hs).2 (Nat.not_lt.mpr hs'.1)
    rcases step_sourced a _ j u hs' with hs' | ⟨⟨act', heq⟩, -⟩
    · exact absurd (h.below j u s hs').2 (Nat.not_lt.mpr hs.1)
    · cases heq
      rfl

theorem Elsewhere.step [Env] (h : Elsewhere inode s a) (step : Section C) :
    Elsewhere inode s (a.step step) := by
  refine ⟨h.1.trans_le (step_sn_le a step), fun i t hs => ?_⟩
  rcases step_sourced a step i t hs with hs | ⟨-, hs⟩
  · exact h.2 i t hs
  · exact absurd h.1 (Nat.not_lt.mpr hs.1)

theorem Owned.run [Env] (h : Owned a) (steps : List (Section C)) :
    Owned (steps.foldl LockArbiter.step a) :=
  foldlRecOn steps _ h fun _ ha step _ => ha.step step

end PowerFS.Filer.Serials
