import PowerFS.Filer.Grants

/-! # Write authority is handed over

The sections that give something up, the housekeeping and the recalls keep `Backed` as the
requests do, so it holds along every run whose steps are careful. Two results follow: a grant
of write or exclusive capabilities is made only after those of all other clients were given
up, and a grant of `xlock` keeps everybody else out. -/
namespace PowerFS.Filer.Handover
open Lib.FirstMatch Lib.StepRuns Wal.Index Locks Arbiter LockFacts WriterExclusion Grants List
  LockArbiter MdLock

variable {C : Type} {k : Counters} {l : MdLock C} {out : List (Grant C)}

/-! ## Promotions -/

/-- What a section tells the holder it promotes is so. -/
def Told (l : MdLock C) (d : Departure C) : Prop :=
  ∀ c sn caps, d.promoted = some (c, sn, caps) → Served l c sn caps false

theorem told_nobody {d : Departure C} (h : d.promoted = none) : Told l d :=
  fun c sn caps hp => by rw [h] at hp; cases hp

theorem Told.eval {d : Departure C} (h : Told l d) : Told l.eval d := by
  obtain ⟨issued, he⟩ := eval_with l
  rw [he]
  exact fun c sn caps hp => { h c sn caps hp with }

variable {act : Act C} {sn now : Nat} {c : C} {t : LockType}

theorem sound_departure [DecidableEq C] [Env] (f : act.Answer → Departure C)
    (hissued : ∀ r, issued act r = (f r).promoted.map fun p => (p.1, p.2.1, p.2.2, false))
    (h : Backed (act.run k l).lock (kept k l act out) ∧
      Told (act.run k l).lock (f (act.run k l).reply)) : Sound k l act out := by
  refine sound_of h.1 fun c sn caps sole hi => ?_
  rw [hissued] at hi
  obtain ⟨p, hp, he⟩ := Option.map_eq_some_iff.mp hi
  cases he
  exact h.2 _ _ _ hp

/-- A section that issues nothing and takes nothing from those who have a grant. -/
theorem sound_steady [DecidableEq C] [Env] (hb : Backed (act.run k l).lock out)
    (hi : issued act (act.run k l).reply = none) : Sound k l act out :=
  sound_silent (hb.mono fun _ hg => (mem_kept hg).1) hi

section

variable (h : Backed l out)
include h

/-- The only holder becomes the LONER, under a new serial unless it has the full set already. -/
theorem backed_promoteToLoner {x : LockHolder C} (hx : l.holders = [x])
    (newSn : Nat) : Backed (l.promoteToLoner newSn) out ∧ ∃ y,
      (l.promoteToLoner newSn).holders = [y] ∧ y.clientId = x.clientId ∧
      (l.promoteToLoner newSn).gatherList = l.gatherList := by
  have hp : l.promoteToLoner newSn = ({ l with
      holders := if x.grantedCaps ≠ l.lockType.capBits
        then [{ x with grantedCaps := l.lockType.capBits, sn := newSn }] else [x]
      state := .loner } : MdLock C).eval := by
    rw [promoteToLoner, if_neg (by rw [hx]; simp), hx]
    simp only [modifyFirst, decide_eq_true_eq]
  have hone := h.one.promoteToLoner h.carries (by rw [hx]; rfl) newSn
  rw [hp, holders_eval] at hone
  rw [hp, holders_eval, gatherList_eval]
  by_cases hfull : x.grantedCaps = l.lockType.capBits
  · rw [if_neg (not_not.mpr hfull), ← hx]
    exact ⟨Backed.eval { h with state := rfl }, x, hx, rfl, rfl⟩
  · rw [if_pos hfull] at hone ⊢
    -- a holder with less than the full set backs no grant
    have hnil : out = [] := h.eq_nil fun z hz => by
      by_contra hc
      refine hfull ?_
      rw [hx, mem_singleton] at hz
      rw [← hz]
      exact h.full z (by rw [hx, hz]; simp) (Bool.not_eq_false _ ▸ hc)
    subst hnil
    refine ⟨Backed.eval { h with
      state := rfl, one := hone, full := ?_, retained := ?_, backed := by simp, sole := by simp },
      _, rfl, rfl, rfl⟩
    · exact forall_mem_singleton.mpr fun _ => rfl
    · exact forall_mem_singleton.mpr (h.retained x (by rw [hx]; simp))

/-- The promoted holder is told its serial and the full set. -/
theorem backed_promotion (hlen : l.holders.length = 1)
    (hquiet : ∀ e ∈ l.gatherList, ∀ x ∈ l.holders, x.clientId ≠ e.clientId) (newSn : Nat)
    (found wake : Bool) :
    Backed (l.promoteToLoner newSn) out ∧ Told (l.promoteToLoner newSn) ⟨found,
      (l.promoteToLoner newSn).holders.head?.map fun h => (h.clientId, h.sn, h.grantedCaps),
      wake⟩ := by
  obtain ⟨x, hx⟩ := length_eq_one_iff.mp hlen
  obtain ⟨hb, y, hy, hc, hlist⟩ := backed_promoteToLoner h hx newSn
  refine ⟨hb, fun c sn caps hp => ?_⟩
  rw [hy] at hp
  cases hp
  refine served_renewal ?_ (by rw [hy]; simp) rfl
  rw [hlist, hc]
  exact fun e he hec => hquiet e he x (by rw [hx]; simp) hec.symm

theorem backed_settleShared
    (hquiet : ∀ e ∈ l.gatherList, ∀ x ∈ l.holders, x.clientId ≠ e.clientId) (promotes : Bool)
    (k : Counters) : Backed (l.settleShared promotes k).lock out ∧
      Told (l.settleShared promotes k).lock (l.settleShared promotes k).reply := by
  unfold settleShared
  split
  · exact ⟨{ h with state := rfl }, told_nobody rfl⟩
  split
  · rename_i hone
    exact backed_promotion h hone.1 hquiet k.sn true true
  · exact ⟨h, told_nobody rfl⟩

/-! ## Records that leave -/

/-- Records that back no grant may go. -/
theorem backed_drop {p : LockHolder C → Bool} {out' : List (Grant C)}
    (hsub : ∀ g ∈ out', g ∈ out) (hp : ∀ g ∈ out', ∀ y, Backs y g → p y = true) :
    Backed { l with holders := l.holders.filter p } out' := by
  refine h.shrink rfl h.state h.target (milder_filter _ _) ?_ hsub ?_
    fun e he g hg => h.recalled e he g (hsub g hg)
  · intro x hx
    have hx := (mem_filter.mp hx).1
    exact ⟨x, hx, rfl, .inl rfl, h.retained x hx⟩
  · exact fun g hg y hy hb => ⟨y, mem_filter.mpr ⟨hy, hp g hg y hb⟩, hb⟩

omit h in
theorem quiet_rest (h : Quiet l) (hs : l.state ≠ .gather) (p : LockHolder C → Bool) :
    ∀ e ∈ l.gatherList, ∀ x ∈ l.holders.filter p, x.clientId ≠ e.clientId := by
  rcases h with h | h
  · exact absurd h hs
  · exact fun e he x hx => h e he x (mem_filter.mp hx).1

/-- Holders leave that back none of the grants that stand. -/
theorem backed_departs (hq : Quiet l) {p : LockHolder C → Bool} {K : List (Grant C)}
    (hkept : ∀ g ∈ K, g ∈ out ∧ ∀ y, Backs y g → p y = true) {m : MdLock C}
    (hm : Backed (without l p) K → Backed m K) {o : Outcome C (Departure C)}
    (hd : Departs k l p m o) : Backed o.lock K ∧ Told o.lock o.reply := by
  have hrest : Backed (without l p) K :=
    backed_drop h (fun g hg => (hkept g hg).1) fun g hg => (hkept g hg).2
  cases hd with
  | nobody => exact ⟨h.mono fun g hg => (hkept g hg).1, told_nobody rfl⟩
  | left _ hnext =>
    refine ⟨?_, told_nobody rfl⟩
    rcases hnext with rfl | rfl | hs
    · exact hrest.goTo rfl
    · exact hrest.eval
    · have hplain := h.state
      rw [hs] at hplain
      cases hplain
  | settled hs hd =>
    obtain ⟨hb, htold⟩ := backed_settleShared hrest (quiet_rest hq hs p) _ k
    exact ⟨hb.eval, fun c sn caps hp => htold.eval c sn caps (hd ▸ hp)⟩
  | gathering => exact ⟨(hm hrest).eval, told_nobody rfl⟩

omit h in
theorem garbageCollect_state {s : LockState} (h : (l.garbageCollect now).2.state = s)
    (hs : s ≠ .available) : l.state = s := by
  dsimp only [garbageCollect] at h
  split at h
  · exact absurd h.symm hs
  · exact h

/-- The first part of a tick; a holder it promotes is on a LONER lock. -/
theorem backed_sweepExpired (hq : Quiet l) (now : Nat) (k : Counters) :
    Backed (l.sweepExpired k now).lock (out.filter fun g => now < g.expireAt) ∧
      Told (l.sweepExpired k now).lock (l.sweepExpired k now).reply ∧
      ((l.sweepExpired k now).reply.promoted = none ∨
        (l.sweepExpired k now).lock.state ≠ .gather) := by
  have hgc := h.garbageCollect now
  simp only [sweepExpired]
  split
  · split
    · exact ⟨hgc.goTo rfl, told_nobody rfl, .inl rfl⟩
    split
    · rename_i hone
      have hs : l.state ≠ .gather := by
        rcases hone.2.1 with hs | hs
        · rw [garbageCollect_state hs (by decide)]; decide
        · rw [garbageCollect_state hs (by decide)]; decide
      obtain ⟨hb, htold⟩ := backed_promotion hgc hone.1 (quiet_rest hq hs _) k.sn true true
      refine ⟨hb.eval, htold.eval, .inr ?_⟩
      obtain ⟨x, hx⟩ := length_eq_one_iff.mp hone.1
      rw [state_eval, promoteToLoner, if_neg (by rw [hx]; simp), state_eval]
      exact fun h => by cases h
    · exact ⟨hgc.eval, told_nobody rfl, .inl rfl⟩
  · exact ⟨hgc, told_nobody rfl, .inl rfl⟩

variable [DecidableEq C]

/-! ## Giving up -/

theorem backed_leaveGather (hsn : ∀ g ∈ out, g.sn ≠ sn) : Backed (l.leaveGather sn).2 out := by
  have hmarked : Backed { l with gatherList := l.gatherList.map fun g =>
      if g.sn = sn then { g with acked := true } else g } out := by
    refine { h with recalled := fun e he g hg hc => ?_ }
    obtain ⟨e₀, he₀, rfl⟩ := mem_map.mp he
    have hclient : g.client = e₀.clientId := by
      rw [hc]
      split <;> rfl
    have hold := h.recalled e₀ he₀ g hg hclient
    rw [if_neg (by rw [← hold.1]; exact hsn g hg)]
    exact hold
  simp only [leaveGather]
  split
  · split
    · exact hmarked.gatherComplete
    split
    · exact { hmarked with state := rfl, recalled := fun e he => by cases he }
    · exact hmarked
  · exact hmarked

theorem backed_forgotten (c : C) : Backed (forgotten l c) out := by
  have hforgot : Backed (l.forgetRecalls c) out :=
    { h with recalled := fun e he => h.recalled e (mem_filter.mp he).1 }
  unfold forgotten
  split
  · exact hforgot.gatherComplete
  · exact hforgot

theorem unlock_sound [Env] (hq : Quiet l) : Sound k l (.unlock sn) out := by
  have hne : ∀ g ∈ kept k l (.unlock sn) out, g.sn ≠ sn := fun g hg =>
    of_decide_eq_false (mem_kept hg).2.1
  refine sound_departure id (fun _ => rfl) (backed_departs h hq
    (fun g hg => ⟨(mem_kept hg).1, fun y hb => decide_eq_true ?_⟩)
    (fun hrest => backed_leaveGather hrest hne) (unlock_departs k l sn))
  rw [hb.2.1]
  exact hne g hg

theorem posixUnlock_sound [Env] (hq : Quiet l) : Sound k l (.posixUnlock c) out := by
  refine sound_departure id (fun _ => rfl) (backed_departs h hq
    (fun g hg => ⟨(mem_kept hg).1, fun y hb => decide_eq_true ?_⟩) id (posixUnlock_departs k l c))
  rw [hb.1]
  exact of_decide_eq_false (mem_kept hg).2.1

theorem evict_sound [Env] (hq : Quiet l) : Sound k l (.evict c) out := by
  refine sound_departure id (fun _ => rfl) (backed_departs h hq
    (fun g hg => ⟨(mem_kept hg).1, fun y hb => decide_eq_true ?_⟩)
    (fun hrest => backed_forgotten hrest c) (evict_departs k l c))
  rw [hb.1]
  exact of_decide_eq_false (mem_kept hg).2.1

/-- An answer that is expected is for the grant that the client has, so nothing of it is
left. -/
theorem recallAck_sound [Env] : Sound k l (.recallAck c sn) out := by
  refine sound_silent ?_ rfl
  have hkept : ∀ g ∈ kept k l (.recallAck c sn) out, g ∈ out ∧ (g.client = c → g.sn ≠ sn) := by
    intro g hg
    have hy := (mem_kept hg).2.1
    simp only [yields, Bool.and_eq_false_iff, decide_eq_false_iff_not] at hy
    exact ⟨(mem_kept hg).1, fun hc => hy.resolve_left (not_not.mpr hc)⟩
  generalize kept k l (.recallAck c sn) out = K at hkept ⊢
  simp only [Act.run, MdLock.recallAck]
  split
  · rename_i hmatched
    obtain ⟨e, he, hes⟩ := any_eq_true.mp hmatched
    simp only [Bool.and_eq_true, decide_eq_true_eq] at hes
    have hnone : ∀ g ∈ K, g.client ≠ c := fun g hg hc =>
      (hkept g hg).2 hc ((h.recalled e he g (hkept g hg).1 (hc.trans hes.1.symm)).1.trans hes.2)
    have hdown : Backed (answered l c sn) K := by
      refine h.shrink rfl h.state h.target (milder_answered l c sn) ?_
        (fun g hg => (hkept g hg).1) ?_ ?_
      · intro x hx
        rcases mem_modifyFirst hx with hx | ⟨y, hy, -, rfl⟩
        · exact ⟨x, hx, rfl, .inl rfl, h.retained x hx⟩
        · exact ⟨y, hy, rfl, .inr (h.retained y hy), h.retained y hy⟩
      · intro g hg y hy hb
        refine ⟨y, mem_modifyFirst_of_not hy (decide_eq_false ?_), hb⟩
        rw [hb.1]
        exact hnone g hg
      · intro e' he' g hg hc
        obtain ⟨e₀, he₀, rfl⟩ := mem_map.mp he'
        have hclient : g.client = e₀.clientId := by
          rw [hc]
          split <;> rfl
        have hne : e₀.clientId ≠ c := hclient ▸ hnone g hg
        rw [if_neg (by simp [hne])]
        exact h.recalled e₀ he₀ g (hkept g hg).1 hclient
    split
    · exact hdown.gatherComplete
    · exact hdown
  · exact h.mono fun g hg => (hkept g hg).1

/-! ## Housekeeping -/

theorem sweep_sound [Env] (hq : Quiet l) : Sound k l (.sweep now) out := by
  refine sound_departure id (fun _ => rfl) ?_
  obtain ⟨hb, htold, hidle⟩ := backed_sweepExpired h hq now k
  have hwaited : Backed ((l.sweepExpired k now).lock.gatherTimeout
      (l.sweepExpired k now).counters).lock (kept k l (.sweep now) out) := by
    refine hb.gatherTimeout _ (fun g hg => ?_) fun g hg => (mem_kept hg).2.2.2
    obtain ⟨hg, -, hnow, -⟩ := mem_kept hg
    exact mem_filter.mpr ⟨hg, decide_eq_true (hnow now rfl)⟩
  have hretire : ∀ m : MdLock C, m.lockType.capBits.conflicts = true → m.retire = m := by
    intro m hm
    unfold retire
    split
    · rename_i hidle
      rcases promotable_of_carries hm with hc | hc
      · rw [hc] at hidle; cases hidle.1
      · rw [hc] at hidle; cases hidle.1
    · rfl
  have hlock : (Act.run k l (.sweep now)).lock = _ := hretire _ hwaited.carries
  rw [hlock]
  refine ⟨hwaited, fun c sn caps hp => ?_⟩
  rcases hidle with hnone | hs
  · exact absurd (hnone.symm.trans hp) (by simp)
  · rw [gatherTimeout, if_pos (.inl hs)]
    exact htold c sn caps hp

theorem quiesce_sound [Env] {exclude : Option C} {newEpoch : Nat} :
    Sound k l (.quiesce exclude now newEpoch) out := by
  refine sound_steady ?_ rfl
  simp only [Act.run, quiesce]
  split
  · exact h
  refine h.recallHolders (recallAll_taking exclude) ?_ now newEpoch
  rcases promotable_of_carries h.carries with hc | hc
  · rw [hc]; rfl
  · rw [hc]
    exact decide_eq_true hc

theorem quiesceCheck_sound [Env] : Sound k l .quiesceCheck out := by
  refine sound_silent ?_ rfl
  have hK : ∀ g ∈ kept k l .quiesceCheck out, g ∈ out := fun g hg => (mem_kept hg).1
  have hrec : ∀ g ∈ kept k l .quiesceCheck out,
      (g.client, g.sn) ∉ (l.quiesceCheck k).reclaimed := fun g hg => (mem_kept hg).2.2.2
  generalize kept k l .quiesceCheck out = K at hK hrec ⊢
  simp only [Act.run]
  revert hrec
  fun_cases quiesceCheck with
  | case1 => exact h.gatherTimeout k hK
  | case2 => exact fun hrec => (h.gatherTimeout k hK hrec).gatherComplete
  | case3 => exact fun _ => h.mono hK

theorem fenceEpoch_sound [Env] (hc : Careful k l .fenceEpoch) : Sound k l .fenceEpoch out := by
  have hnil := h.eq_nil hc
  subst hnil
  exact sound_steady (Backed.goTo
    (l := { l with holders := [], gatherList := [], gatherRemaining := 0 })
    ⟨h.carries, h.state, h.target, oneWriter_nil, by simp, by simp, by simp, by simp, by simp⟩ rfl)
    rfl

theorem fileFlushToSync_sound [Env] (hc : Careful k l (.fileFlushToSync c)) :
    Sound k l (.fileFlushToSync c) out := by
  refine sound_steady ?_ rfl
  simp only [Act.run, fileFlushToSync]
  split
  · exact h
  rename_i hfile
  rw [if_neg]
  · refine h.goTo (decide_eq_true ?_)
    by_contra hne
    exact hfile (.inl hne)
  · rw [Bool.not_eq_true, any_eq_false]
    intro x hx hrival
    rw [Bool.and_eq_true, decide_eq_true_eq] at hrival
    rw [hc x hx hrival.1] at hrival
    exact absurd hrival.2 (by decide)

/-- **One section** keeps the standing grants backed, if it is careful. -/
theorem run_sound [Env] (hc : Careful k l act) : Sound k l act out := by
  cases act with
  | rdlock c => exact rdlock_sound h hc
  | wrlock c => exact wrlock_sound h hc
  | xlock c => exact xlock_sound h hc
  | enqueue | drainWaiters => exact sound_steady { h with } rfl
  | unlock sn => exact unlock_sound h hc
  | posixUnlock c => exact posixUnlock_sound h hc
  | recallAck c sn => exact recallAck_sound h
  | sweep now => exact sweep_sound h hc
  | evict c => exact evict_sound h hc
  | quiesce exclude now newEpoch => exact quiesce_sound h
  | quiesceCheck => exact quiesceCheck_sound h
  | fenceEpoch => exact fenceEpoch_sound h hc
  | fileFlushToSync c => exact fileFlushToSync_sound h hc
  | fileSyncToShared =>
    refine sound_steady ?_ rfl
    simp only [Act.run, fileSyncToShared]
    split
    · exact h.goTo rfl
    · exact h
  | localLock | localUnlock | scatterWrlock | scatterUnlock => exact hc.elim

end

/-! ## Runs -/

theorem backed_new (ht : t.capBits.conflicts = true) : Backed (MdLock.new C t) [] :=
  ⟨ht, rfl, rfl, oneWriter_nil, by simp [MdLock.new], by simp [MdLock.new], by simp,
    by simp [MdLock.new], by simp⟩

variable [DecidableEq C]

/-- One section of the arbiter, beside the grants that stand on the lock `(inode, t)`. -/
def track [Env] (inode : Nat) (t : LockType) (s : LockArbiter C × List (Grant C))
    (step : Section C) : LockArbiter C × List (Grant C) :=
  (s.1.step step, match step with
    | .on i u act => if i = inode ∧ u = t
        then note s.1.counters (s.1.lock inode t) act s.2 else s.2
    | _ => s.2)

/-- What the sections on the lock `(inode, t)` meet in the state they start from. -/
def OnLock (P : Counters → MdLock C → List (Grant C) → Act C → Prop) (inode : Nat) (t : LockType)
    (s : LockArbiter C × List (Grant C)) : Section C → Prop
  | .on i u act => i = inode ∧ u = t → P s.1.counters (s.1.lock inode t) s.2 act
  | _ => True

instance (P : Counters → MdLock C → List (Grant C) → Act C → Prop)
    [∀ k l out act, Decidable (P k l out act)] (inode : Nat) (t : LockType)
    (s : LockArbiter C × List (Grant C)) : (step : Section C) → Decidable (OnLock P inode t s step)
  | .on i u act => inferInstanceAs (Decidable (i = inode ∧ u = t → P _ _ _ act))
  | .readClock | .allocEpoch => .isTrue trivial

/-- The condition of `run_sound`, for the sections on one lock. -/
abbrev CarefulStep [Env] (inode : Nat) (t : LockType) :
    LockArbiter C × List (Grant C) → Section C → Prop :=
  OnLock (fun k l _ act => Careful k l act) inode t

theorem track_sound [Env] {inode : Nat} {s : LockArbiter C × List (Grant C)} {step : Section C}
    (h : Backed (s.1.lock inode t) s.2) (hc : CarefulStep inode t s step) :
    Backed ((track inode t s step).1.lock inode t) (track inode t s step).2 ∧
      OnLock (fun k l out act => Sound k l act out) inode t s step := by
  rcases lock_step s.1 step inode t with ⟨act, rfl, hl, -⟩ | ⟨hother, hl⟩
  · have hsound := run_sound h (hc ⟨rfl, rfl⟩)
    refine ⟨?_, fun _ => hsound⟩
    rw [track, hl]
    rw [if_pos ⟨rfl, rfl⟩]
    exact hsound.backed
  · cases step with
    | on i u act =>
      have hne : ¬ (i = inode ∧ u = t) := fun he => hother act (by rw [he.1, he.2])
      rw [track, hl]
      rw [if_neg hne]
      exact ⟨h, fun he => absurd he hne⟩
    | readClock | allocEpoch => exact ⟨h, trivial⟩

/-- Every section of a careful run is sound. -/
theorem careful_sound [Env] {inode : Nat} (ht : t.capBits.conflicts = true)
    {steps : List (Section C)}
    (hc : Along (track inode t) (CarefulStep inode t) (new C, []) steps) :
    Along (track inode t) (OnLock (fun k l out act => Sound k l act out) inode t)
      (new C, []) steps := by
  refine hc.each (I := fun s => Backed (s.1.lock inode t) s.2)
    (fun s step h hc => track_sound h hc) ?_
  rw [lock_new]
  exact backed_new ht

/-! ## Handed over, never shared -/

/-- A grant of write or exclusive capabilities finds no standing grant of another client, and
every grant that stands afterwards has its record, with the capabilities, under its serial. -/
def HandedOver [Env] (k : Counters) (l : MdLock C) (out : List (Grant C)) (act : Act C) : Prop :=
  (∀ g ∈ made k l act, ∀ g' ∈ kept k l act out, g'.client = g.client) ∧
    ∀ g ∈ note k l act out, ∃ h ∈ (act.run k l).lock.holders,
      h.clientId = g.client ∧ h.sn = g.sn ∧ h.grantedCaps.conflicts = true

/-- **Write authority is handed over, never shared**, in every interleaving of sections whose
clients are careful with the FILE lock of an inode. -/
theorem write_authority_handed_over [Env] (inode : Nat) (steps : List (Section C))
    (hc : Along (track inode .file) (CarefulStep inode .file) (LockArbiter.new C, []) steps) :
    Along (track inode .file) (OnLock HandedOver inode .file) (LockArbiter.new C, [])
      steps := by
  refine (careful_sound rfl hc).each (I := fun _ => True) (fun s step _ hs => ⟨trivial, ?_⟩) trivial
  cases step with
  | on i u act =>
    intro he
    refine ⟨(hs he).handed, fun g hg => ?_⟩
    obtain ⟨x, hx, hclient, hsn, hcaps, -⟩ := (hs he).backed.backed g hg
    exact ⟨x, hx, hclient, hsn, hcaps⟩
  | readClock | allocEpoch => trivial

local instance : Env := frozen

/-- The first writer answers its recall, the second one is let in, gives the lock back, and a
third one takes it for itself. -/
def inTurn : List (Section Nat) :=
  [.on 7 .file (.wrlock 1), .on 7 .file (.wrlock 2), .on 7 .file (.recallAck 1 1),
    .on 7 .file (.wrlock 2), .on 7 .file (.unlock 2), .on 7 .file (.unlock 1),
    .on 7 .file (.xlock 3)]

theorem inTurn_handed_over :
    Along (track 7 .file) (CarefulStep 7 .file) (LockArbiter.new Nat, []) inTurn ∧
    Along (track 7 .file) (OnLock HandedOver 7 .file) (LockArbiter.new Nat, [])
      inTurn := by
  have hc : Along (track 7 .file) (CarefulStep 7 .file) (new Nat, [])
      inTurn := by
    decide +kernel
  exact ⟨hc, write_authority_handed_over 7 inTurn hc⟩

/-- The first writer asks again while its recall is on the way and gets the serial 2; its
answer to the recall of serial 1 takes the capabilities of serial 2, and the second writer is
let in beside it. -/
def lateAnswer : List (Section Nat) :=
  [.on 7 .file (.wrlock 1), .on 7 .file (.wrlock 2), .on 7 .file (.wrlock 1),
    .on 7 .file (.recallAck 1 1), .on 7 .file (.wrlock 2)]

theorem late_answer_shares_authority :
    ((lateAnswer.foldl (track 7 .file) (LockArbiter.new Nat, [])).2.map
      fun g => (g.client, g.sn)) = [(1, 2), (2, 3)] := by
  decide +kernel

/-! ## Exclusive locks -/

/-- A grant of `xlock` leaves its client the only holder and stands from then on; while one
stands, no other client is given a serial. -/
def Exclusive [Env] (k : Counters) (l : MdLock C) (out : List (Grant C)) (act : Act C) : Prop :=
  (∀ c sn caps, issued act (act.run k l).reply = some (c, sn, caps, true) → sn ≠ 0 →
    (∀ x ∈ (act.run k l).lock.holders, x.clientId = c) ∧
      ∃ g ∈ note k l act out, g.client = c ∧ g.sn = sn ∧ g.sole = true) ∧
  ∀ c sn caps sole, issued act (act.run k l).reply = some (c, sn, caps, sole) → sn ≠ 0 →
    ∀ g ∈ kept k l act out, g.sole = true → g.client = c

/-- **`xlock` is exclusive** on the locks that carry write or exclusive capabilities, in every
sequence of operations whose sections are careful with the lock. -/
theorem xlock_exclusive [Env] (order : HashOrder) (ops : List (Operation C))
    (inode : Nat) (t : LockType) (ht : t.capBits.conflicts = true)
    (hc : Along (track inode t) (CarefulStep inode t) (LockArbiter.new C, [])
      (LockArbiter.performAll order ops).log) :
    Along (track inode t) (OnLock Exclusive inode t) (LockArbiter.new C, [])
      (LockArbiter.performAll order ops).log := by
  refine (careful_sound ht hc).each (I := fun _ => True) (fun s step _ hs => ⟨trivial, ?_⟩) trivial
  cases step with
  | on i u act =>
    intro he
    refine ⟨fun c sn caps hi hne => ?_, (hs he).alone⟩
    obtain ⟨honly, g, hg, hgrant⟩ := (hs he).exclusive c sn caps hi hne
    exact ⟨honly, g, mem_append_right _ hg, hgrant⟩
  | readClock | allocEpoch => trivial

/-- A reader comes while another client holds the lock alone, and asks again when that client
has given it up. -/
def excludedReader : List (Operation Nat) :=
  [.xlock 7 .auth 1, .rdlock 7 .auth 2, .unlock 7 .auth 1, .rdlock 7 .auth 2]

theorem excludedReader_exclusive :
    Along (track 7 .auth) (OnLock Exclusive 7 .auth) (LockArbiter.new Nat, [])
      (LockArbiter.performAll .byKey excludedReader).log :=
  xlock_exclusive .byKey excludedReader 7 .auth (by decide) (by decide +kernel)

/-- A LINK lock carries no write or exclusive capability: beside the client that was granted
`xlock`, another one is granted `wrlock`. -/
theorem link_xlock_shared :
    ((LockArbiter.performAll .byKey [.xlock 7 .link 1, .wrlock 7 .link 2]).lock 7
      .link).holders.map (fun h => (h.clientId, h.sn)) = [(1, 1), (2, 2)] := by
  decide +kernel

end PowerFS.Filer.Handover
