import PowerFS.Filer.LockFacts

/-! # At most one writer

A holder with write or exclusive capabilities keeps the others from having them. The
invariant `OneWriter` says so of the records of one lock, whether their leases still run or
not. Every section keeps it except a request that ends a gather itself: a recall that ran out
of time counts as answered there, but the record it was sent for keeps its capabilities.
`Patient` excludes that. -/
namespace PowerFS.Filer.WriterExclusion
open Lib.FirstMatch Lib.StepRuns Wal.Index Locks Arbiter LockFacts List LockArbiter MdLock

variable {C : Type}

/-! ## The invariant -/

/-- The records of a lock: one for each client, at most one of them with conflicting
capabilities, and none that a recall would leave more than it has. -/
structure OneWriter (hs : List (LockHolder C)) : Prop where
  distinct : (hs.map (·.clientId)).Nodup
  single : hs.Pairwise fun g h =>
    g.grantedCaps.conflicts = true → h.grantedCaps.conflicts = true → False
  retained : ∀ h ∈ hs, h.retainCaps.conflicts = true → h.grantedCaps.conflicts = true

/-- What a section that grants nothing may make of a record. -/
structure Weaker (h' h : LockHolder C) : Prop where
  clientId : h'.clientId = h.clientId
  granted : (h.retainCaps.conflicts = true → h.grantedCaps.conflicts = true) →
    h'.grantedCaps.conflicts = true → h.grantedCaps.conflicts = true
  retained : (h.retainCaps.conflicts = true → h.grantedCaps.conflicts = true) →
    h'.retainCaps.conflicts = true → h'.grantedCaps.conflicts = true

/-- Records are dropped or made weaker. -/
abbrev Milder (hs' hs : List (LockHolder C)) : Prop := List.SublistForall₂ Weaker hs' hs

theorem Weaker.refl (h : LockHolder C) : Weaker h h := ⟨rfl, fun _ h => h, fun h => h⟩

instance : Std.Refl (Weaker (C := C)) := ⟨Weaker.refl⟩

instance : IsTrans (LockHolder C) Weaker :=
  ⟨fun _ _ _ h₁ h₂ => ⟨h₁.clientId.trans h₂.clientId,
    fun hr hg => h₂.granted hr (h₁.granted (h₂.retained hr) hg),
    fun hr => h₁.retained (h₂.retained hr)⟩⟩

theorem Milder.refl (hs : List (LockHolder C)) : Milder hs hs := Std.Refl.refl hs

theorem Milder.trans {hs₁ hs₂ hs₃ : List (LockHolder C)} (h₁ : Milder hs₁ hs₂)
    (h₂ : Milder hs₂ hs₃) : Milder hs₁ hs₃ :=
  IsTrans.trans _ _ _ h₁ h₂

theorem milder_filter (p : LockHolder C → Bool) (hs : List (LockHolder C)) :
    Milder (hs.filter p) hs :=
  filter_sublist.sublistForall₂

variable {f : LockHolder C → LockHolder C} {p : LockHolder C → Bool} {hs' : List (LockHolder C)}
  {y : LockHolder C}

theorem milder_map (hf : ∀ h, Weaker (f h) h) (hs : List (LockHolder C)) :
    Milder (hs.map f) hs := by
  induction hs with
  | nil => exact .nil
  | cons h hs ih => exact .cons (hf h) ih

theorem milder_modifyFirst (hf : ∀ h, Weaker (f h) h) (hs : List (LockHolder C)) :
    Milder (modifyFirst p f hs) hs := by
  induction hs with
  | nil => exact .nil
  | cons h hs ih =>
    rw [modifyFirst]
    split
    · exact .cons (hf h) (Milder.refl hs)
    · exact .cons (Weaker.refl h) ih

variable {hs : List (LockHolder C)} {c : C} {x : LockHolder C}
  {recalled : LockHolder C → Option (CapSet × CapSet)} {target : GatherTarget} {now : Nat}

/-- Every record of the milder list comes from one of the other. -/
theorem Milder.origin (hm : Milder hs' hs) {h' : LockHolder C} (hmem : h' ∈ hs') :
    ∃ h ∈ hs, Weaker h' h := by
  induction hm with
  | nil => cases hmem
  | cons hw hrest ih =>
    rcases mem_cons.mp hmem with rfl | hmem
    · exact ⟨_, by simp, hw⟩
    · obtain ⟨h, hh, hw⟩ := ih hmem
      exact ⟨h, by simp [hh], hw⟩
  | cons_right hrest ih =>
    obtain ⟨h, hh, hw⟩ := ih hmem
    exact ⟨h, by simp [hh], hw⟩

theorem oneWriter_nil : OneWriter ([] : List (LockHolder C)) :=
  ⟨.nil, .nil, fun _ h => by cases h⟩

/-- The invariant survives whatever makes the records milder. -/
theorem OneWriter.milder (h : OneWriter hs) (hm : Milder hs' hs) : OneWriter hs' := by
  induction hm with
  | nil => exact oneWriter_nil
  | @cons x y xs ys hw hrest ih =>
    obtain ⟨hd, hs, hr⟩ := h
    rw [map_cons, nodup_cons] at hd
    rw [pairwise_cons] at hs
    rw [forall_mem_cons] at hr
    have hxs := ih ⟨hd.2, hs.2, hr.2⟩
    refine ⟨nodup_cons.mpr ⟨fun hmem => ?_, hxs.distinct⟩,
      pairwise_cons.mpr ⟨fun z hz hx hzc => ?_, hxs.single⟩,
      forall_mem_cons.mpr ⟨hw.retained hr.1, hxs.retained⟩⟩
    · obtain ⟨z, hz, hzx⟩ := mem_map.mp hmem
      obtain ⟨z', hz', hzw⟩ := Milder.origin hrest hz
      exact hd.1 (mem_map.mpr ⟨z', hz', hzw.clientId.symm.trans (Eq.trans hzx hw.clientId)⟩)
    · obtain ⟨z', hz', hzw⟩ := Milder.origin hrest hz
      exact hs.1 z' hz' (hw.granted hr.1 hx) (hzw.granted (hr.2 z' hz') hzc)
  | cons_right hrest ih =>
    obtain ⟨hd, hs, hr⟩ := h
    rw [map_cons, nodup_cons] at hd
    exact ih ⟨hd.2, (pairwise_cons.mp hs).2, (forall_mem_cons.mp hr).2⟩

/-- One record for each client, and all that conflicts is in the hands of one. -/
theorem oneWriter_of_only (hd : (hs.map (·.clientId)).Nodup)
    (honly : ∀ h ∈ hs, h.grantedCaps.conflicts = true → h.clientId = c)
    (hr : ∀ h ∈ hs, h.retainCaps.conflicts = true → h.grantedCaps.conflicts = true) :
    OneWriter hs := by
  refine ⟨hd, ?_, hr⟩
  refine (pairwise_map.mp hd).imp_of_mem fun hg hh hne cg ch => hne ?_
  rw [honly _ hg cg, honly _ hh ch]

theorem OneWriter.unique (h : OneWriter hs) (hx : x ∈ hs) (hy : y ∈ hs)
    (hxy : x.clientId = y.clientId) : x = y :=
  inj_on_of_nodup_map h.distinct hx hy hxy

/-- Two records that conflict are one. -/
theorem OneWriter.eq_of_conflicts (h : OneWriter hs) (hx : x ∈ hs) (hy : y ∈ hs)
    (cx : x.grantedCaps.conflicts = true) (cy : y.grantedCaps.conflicts = true) : x = y := by
  by_contra hne
  have : Std.Symm fun g h : LockHolder C =>
      g.grantedCaps.conflicts = true → h.grantedCaps.conflicts = true → False :=
    ⟨fun _ _ hab ca cb => hab cb ca⟩
  exact h.single.forall hx hy hne cx cy

/-- Beside a client that is not the only holder there is another one. -/
theorem OneWriter.exists_other {rest : List (LockHolder C)} (h : OneWriter hs)
    (hcons : hs = x :: rest) (hother : ¬ (rest.isEmpty = true ∧ x.clientId = c)) :
    ∃ y ∈ hs, y.clientId ≠ c := by
  subst hcons
  by_cases hx : x.clientId = c
  · cases rest with
    | nil => exact absurd ⟨rfl, hx⟩ hother
    | cons y rest =>
      refine ⟨y, by simp, fun hy => ?_⟩
      have hd := h.distinct
      simp [hx, hy] at hd
  · exact ⟨x, by simp, hx⟩

/-- A record of a client that has none can be added when at most it, or some other record,
conflicts. -/
theorem OneWriter.push (h : OneWriter hs) (hnew : ∀ y ∈ hs, y.clientId ≠ x.clientId)
    (hfree : ∀ y ∈ hs, y.grantedCaps.conflicts = true → x.grantedCaps.conflicts = true → False)
    (hr : x.retainCaps.conflicts = false) : OneWriter (hs ++ [x]) := by
  refine ⟨?_, ?_, ?_⟩
  · rw [map_append, nodup_append]
    refine ⟨h.distinct, by simp, fun i hi j hj he => ?_⟩
    obtain ⟨y, hy, rfl⟩ := mem_map.mp hi
    rw [map_singleton, mem_singleton] at hj
    exact hnew y hy (he.trans hj)
  · exact pairwise_append.mpr ⟨h.single, by simp, fun y hy => forall_mem_singleton.mpr (hfree y hy)⟩
  · refine forall_mem_append.mpr ⟨h.retained, forall_mem_singleton.mpr fun hc => ?_⟩
    rw [hr] at hc
    cases hc

/-! ## Parts of a section -/

variable {l : MdLock C} {k : Counters}

theorem milder_collect (now : Nat) : Milder (l.collect now).holders l.holders := by
  rw [holders_collect]
  exact milder_filter _ _

theorem weaker_settled (h : LockHolder C) : Weaker (settled h) h := ⟨rfl, fun _ h => h, id⟩

/-- A recall asks for nothing that leaves the holder more than it has. -/
def Tame (recalled : LockHolder C → Option (CapSet × CapSet)) : Prop :=
  ∀ h taken kept, recalled h = some (taken, kept) →
    (h.retainCaps.conflicts = true → h.grantedCaps.conflicts = true) →
    kept.conflicts = true → h.grantedCaps.conflicts = true

theorem milder_recallHolders (ht : Tame recalled) (now newEpoch : Nat) :
    Milder (l.recallHolders now newEpoch recalled).holders l.holders := by
  refine milder_map (fun h => ?_) _
  cases hr : recalled h with
  | none => exact .refl h
  | some caps => exact ⟨rfl, fun _ hg => hg, fun hret hkept => ht h _ _ hr hret hkept⟩

theorem holders_admitReader [Env] (l : MdLock C) (now sn : Nat) (c : C) :
    ∃ caps : CapSet, caps.conflicts = false ∧
    (l.admitReader now sn c).holders =
      l.holders ++ [newHolder c sn caps (now + leaseDuration)] := by
  refine ⟨_, ?_, holders_goTo _⟩
  split <;> rfl

theorem OneWriter.admitReader [Env] (h : OneWriter l.holders)
    (hnew : ∀ x ∈ l.holders, x.clientId ≠ c) (now sn : Nat) :
    OneWriter (l.admitReader now sn c).holders := by
  obtain ⟨caps, hcaps, hh⟩ := holders_admitReader l now sn c
  rw [hh]
  refine h.push hnew (fun y _ _ hc => ?_) rfl
  rw [show (newHolder c sn caps _).grantedCaps = caps from rfl, hcaps] at hc
  cases hc

theorem OneWriter.admitExclusive [Env] (h : OneWriter l.holders) (hnone : l.holders = [])
    (now sn : Nat) (c : C) : OneWriter (l.admitExclusive now sn c).holders := by
  unfold MdLock.admitExclusive
  rw [holders_eval]
  refine h.push (fun y hy => ?_) (fun y hy => ?_) rfl
  · rw [hnone] at hy
    cases hy
  · rw [hnone] at hy
    cases hy

/-- A promotion of the only holder. -/
theorem OneWriter.promoteToLoner (hcarries : l.lockType.capBits.conflicts = true)
    (h : OneWriter l.holders) (hlen : l.holders.length = 1) (newSn : Nat) :
    OneWriter (l.promoteToLoner newSn).holders := by
  obtain ⟨x, hx⟩ := length_eq_one_iff.mp hlen
  unfold MdLock.promoteToLoner
  split
  · exact h
  rw [holders_eval]
  refine oneWriter_of_only (c := x.clientId) ?_ (fun y hy _ => ?_) fun y hy hc => ?_
  · rw [map_modifyFirst]
    · exact h.distinct
    · exact fun _ => rfl
  · rw [hx] at hy
    rcases mem_modifyFirst hy with hy | ⟨z, hz, _, rfl⟩
    · rw [mem_singleton.mp hy]
    · rw [← mem_singleton.mp hz]
  · rcases mem_modifyFirst hy with hy | ⟨z, _, _, rfl⟩
    · exact h.retained y hy hc
    · exact hcarries

theorem state_openGather : (l.openGather k now target recalled).lock.state = .gather := by
  unfold openGather
  split
  · assumption
  · rfl

variable [DecidableEq C]

theorem milder_gatherComplete (l : MdLock C) : Milder l.gatherComplete.holders l.holders := by
  by_cases ht : l.gatherTarget = .toExcl
  · rw [holders_gatherComplete_toExcl ht]
    exact (milder_filter _ _).trans (milder_map weaker_settled _)
  · rw [holders_gatherComplete ht]
    exact milder_map weaker_settled _

theorem milder_gatherTimeout [Env] (k : Counters) (l : MdLock C) :
    Milder (l.gatherTimeout k).lock.holders l.holders := by
  rcases gatherTimeout_cases k l with ⟨-, h⟩ | ⟨m, _, rfl, -, -, -, ⟨-, h⟩ | ⟨-, h⟩⟩
  · rw [h]
    exact .refl _
  · rw [h]
    exact .refl _
  · rw [h]
    exact milder_gatherComplete _

theorem recallConflicting_tame (conflict : CapSet) (c : C) :
    Tame (recallConflicting conflict c) := by
  intro h taken kept hr _ hkept
  obtain ⟨-, ⟨⟩⟩ := Option.ite_none_left_eq_some.mp hr
  exact conflicts_remove hkept

theorem recallAll_tame (exclude : Option C) : Tame (recallAll exclude) := by
  intro h taken kept hr _ hkept
  obtain ⟨-, ⟨⟩⟩ := Option.ite_none_left_eq_some.mp hr
  cases hkept

theorem recallScattered_tame (c : C) : Tame (recallScattered c) := by
  intro h taken kept hr hret hkept
  obtain ⟨-, ⟨⟩⟩ := Option.ite_none_left_eq_some.mp hr
  exact hret hkept

theorem milder_gatherStage [Env] (k : Counters) (l : MdLock C) (ht : Tame recalled)
    (now : Nat) (target : GatherTarget) :
    Milder (l.gatherStage k now target recalled).lock.holders l.holders := by
  refine (milder_gatherTimeout _ _).trans ?_
  unfold openGather
  split
  · exact .refl _
  · exact milder_recallHolders ht now k.epoch

/-! ## Grants -/

theorem findHolder_none (h : l.findHolder c = none) : ∀ x ∈ l.holders, x.clientId ≠ c := by
  intro x hx
  simpa using find?_eq_none.mp h x hx

theorem needsGather_false (h : l.needsGather c = false) :
    ∀ x ∈ l.holders, x.grantedCaps.conflicts = true → x.clientId = c := by
  intro x hx hc
  by_contra hne
  have := any_eq_false.mp h x hx
  simp [hne, hc] at this

theorem OneWriter.admitWriter [Env] (hcarries : l.lockType.capBits.conflicts = true)
    (h : OneWriter l.holders)
    (honly : ∀ x ∈ l.holders, x.grantedCaps.conflicts = true → x.clientId = c) (now sn : Nat) :
    OneWriter (l.admitWriter now sn c).holders := by
  unfold MdLock.admitWriter
  rw [holders_eval]
  cases hf : l.findHolder c with
  | none =>
    have hnew := findHolder_none hf
    exact h.push hnew (fun y hy hc _ => hnew y hy (honly y hy hc)) rfl
  | some old =>
    refine oneWriter_of_only (c := c) ?_ (fun x hx hc => ?_) fun x hx hc => ?_
    · rw [map_modifyFirst]
      · exact h.distinct
      · exact fun _ => rfl
    · rcases mem_modifyFirst hx with hx | ⟨y, _, hy, rfl⟩
      · exact honly x hx hc
      · exact of_decide_eq_true hy
    · rcases mem_modifyFirst hx with hx | ⟨y, _, _, rfl⟩
      · exact h.retained x hx hc
      · exact hcarries

/-! ## Requests -/

/-- Some recall is open and has time left: the gather does not end now. -/
def StaysOpen [Env] (k : Counters) (l : MdLock C) : Prop :=
  l.gatherRemaining ≠ 0 ∧ ∃ g ∈ l.gatherList, g.acked = false ∧
    g.lapsed recallTimeout (instant k.reads) = false

/-- The end of the gather drops every holder that the request is in conflict with. -/
def Clears (l : MdLock C) (rival : LockHolder C → Prop) : Prop :=
  l.gatherRemaining ≠ 0 ∧ l.gatherTarget = .toExcl ∧
    ∀ h ∈ l.holders, rival h → ∃ g ∈ l.gatherList, g.clientId = h.clientId

/-- A request that finds rivals does not end the gather itself, or ends one that drops all of
them. -/
def Patient [Env] (k : Counters) (l : MdLock C) : Act C → Prop
  | .wrlock c =>
    let now := instant k.reads
    let m := l.collect now
    m.lonerOf c = none → m.needsGather c = true →
      let g := m.openGather k.read now m.wrlockTarget (MdLock.recallConflicting conflictCaps c)
      StaysOpen g.counters g.lock ∨
        Clears g.lock fun h => h.clientId ≠ c ∧ h.grantedCaps.conflicts = true
  | .xlock c =>
    let now := instant k.reads
    let m := l.collect now
    (∃ h ∈ m.holders, h.clientId ≠ c) →
      let g := m.openGather k.read now .toExcl (MdLock.recallAll (some c))
      StaysOpen g.counters g.lock ∨ Clears g.lock fun _ => True
  | _ => True

instance [Env] (l : MdLock C) : Decidable (StaysOpen k l) := by
  unfold StaysOpen
  infer_instance

instance (l : MdLock C) (rival : LockHolder C → Prop) [DecidablePred rival] :
    Decidable (Clears l rival) := by
  unfold Clears
  infer_instance

instance [Env] (l : MdLock C) (act : Act C) : Decidable (Patient k l act) := by
  unfold Patient
  split <;> infer_instance

/-- A gather that has an open recall with time left is waited for. -/
theorem StaysOpen.waits [Env] (h : StaysOpen (l.openGather k now target recalled).counters
      (l.openGather k now target recalled).lock) :
    0 < (l.gatherStage k now target recalled).lock.gatherRemaining := by
  obtain ⟨hrem, g, hg, hack, hlapse⟩ := h
  rcases gatherTimeout_cases (l.openGather k now target recalled).counters
    (l.openGather k now target recalled).lock with
      ⟨hidle, ht⟩ | ⟨m, _, rfl, -, -, -, ⟨-, ht⟩ | ⟨hall, ht⟩⟩
  · exact absurd hidle (not_or.mpr ⟨not_not.mpr state_openGather, hrem⟩)
  · rw [gatherStage, ht]
    exact Nat.pos_of_ne_zero hrem
  have := hall g (mem_map.mpr ⟨g, hg, by rw [hlapse]; rfl⟩)
  rw [hack] at this
  cases this

/-- A gather that clears the rivals and is over has dropped them. -/
theorem Clears.cleared [Env] {rival : LockHolder C → Prop}
    (h : Clears (l.openGather k now target recalled).lock rival)
    (hrival : ∀ x, rival (settled x) → rival x)
    (hdone : ¬ 0 < (l.gatherStage k now target recalled).lock.gatherRemaining) :
    ∀ x ∈ (l.gatherStage k now target recalled).lock.gatherComplete.holders, ¬ rival x := by
  obtain ⟨hrem, htarget, hlisted⟩ := h
  rcases gatherTimeout_cases (l.openGather k now target recalled).counters
    (l.openGather k now target recalled).lock with
    ⟨hidle, ht⟩ | ⟨m, _, hm, -, -, -, ⟨-, ht⟩ | ⟨hall, ht⟩⟩
  · exact absurd hidle (not_or.mpr ⟨not_not.mpr state_openGather, hrem⟩)
  · rw [gatherStage, ht, hm] at hdone
    exact absurd (Nat.pos_of_ne_zero hrem) hdone
  intro x hx hr
  rw [gatherStage, ht] at hx
  -- the second end of the gather finds no recall, the first one has dropped the rivals
  obtain ⟨y, hy, rfl, -⟩ := mem_gatherComplete hx
  obtain ⟨z, hz, rfl, hgone⟩ := mem_gatherComplete hy
  rw [hm] at hz hgone hall
  obtain ⟨g, hg, hclient⟩ := hlisted z hz (hrival _ (hrival _ hr))
  refine hgone htarget (mem_ackedClients.mpr ⟨_, mem_map_of_mem hg, ?_, ?_⟩)
  · exact hall _ (mem_map_of_mem hg)
  · split <;> exact hclient

theorem rdlock_oneWriter [Env] (h : OneWriter l.holders) (c : C) :
    OneWriter (l.rdlock k c).lock.holders := by
  have hm : OneWriter (l.collect (instant k.reads)).holders := h.milder (milder_collect _)
  simp only [rdlock]
  split
  · exact hm
  split
  · exact hm
  rename_i hnone
  have hnew := findHolder_none hnone
  split
  · have hstage := milder_gatherStage k.read.nextSn (l.collect (instant k.reads))
      (recallConflicting_tame conflictCaps c) (instant k.reads) .toShared
    split
    · exact hm.milder hstage
    have hall := (milder_gatherComplete _).trans hstage
    refine (hm.milder hall).admitReader (fun x hx => ?_) _ _
    obtain ⟨y, hy, hw⟩ := Milder.origin hall hx
    rw [hw.clientId]
    exact hnew y hy
  · exact hm.admitReader hnew _ _

open OneWriter

theorem wrlock_oneWriter [Env] (hcarries : l.lockType.capBits.conflicts = true)
    (h : OneWriter l.holders) (hp : Patient k l (.wrlock c)) :
    OneWriter (l.wrlock k c).lock.holders := by
  have hm : OneWriter (l.collect (instant k.reads)).holders := h.milder (milder_collect _)
  simp only [wrlock]
  split
  · exact hm
  rename_i hloner
  split
  · rename_i hneeds
    have hstage := milder_gatherStage k.read (l.collect (instant k.reads))
      (recallConflicting_tame conflictCaps c) (instant k.reads)
      (l.collect (instant k.reads)).wrlockTarget
    split
    · exact hm.milder hstage
    rename_i hdone
    have hall := (milder_gatherComplete _).trans hstage
    rcases hp hloner hneeds with hopen | hclears
    · exact absurd hopen.waits hdone
    refine admitWriter (by simpa using hcarries) (hm.milder hall) (fun x hx hc => ?_)
      _ _
    by_contra hne
    exact hclears.cleared (fun x hx => hx) hdone x hx ⟨hne, hc⟩
  · rename_i hneeds
    exact admitWriter (by simpa using hcarries) hm
      (needsGather_false (Bool.eq_false_iff.mpr hneeds)) _ _

theorem xlock_oneWriter [Env] (h : OneWriter l.holders) (hp : Patient k l (.xlock c)) :
    OneWriter (l.xlock k c).lock.holders := by
  have hm : OneWriter (l.collect (instant k.reads)).holders := h.milder (milder_collect _)
  simp only [xlock]
  split
  · rename_i hnil
    exact hm.admitExclusive hnil _ _ c
  rename_i x rest hcons
  split
  · rw [holders_goTo]
    exact hm
  rename_i hother
  have hstage := milder_gatherStage k.read (l.collect (instant k.reads))
    (recallAll_tame (some c)) (instant k.reads) .toExcl
  split
  · exact hm.milder hstage
  rename_i hdone
  rcases hp (hm.exists_other hcons hother) with hopen | hclears
  · exact absurd hopen.waits hdone
  refine admitExclusive (hm.milder ((milder_gatherComplete _).trans hstage)) ?_ _ _ c
  exact eq_nil_iff_forall_not_mem.mpr fun x hx =>
    hclears.cleared (fun _ _ => trivial) hdone x hx trivial

theorem scatterWrlock_oneWriter [Env] (h : OneWriter l.holders) (c : C) :
    OneWriter (l.scatterWrlock k c).lock.holders := by
  have henter : ∀ (m : MdLock C) k now reclaimed, OneWriter m.holders →
      OneWriter (m.admitScattered k now c reclaimed).lock.holders := by
    intro m k now reclaimed hm
    simp only [admitScattered, holders_goTo]
    split
    · exact hm
    · rename_i hnone
      exact hm.push (findHolder_none hnone) (fun _ _ _ hc => by cases hc) rfl
  have hm : OneWriter (l.collect (instant k.reads)).activate.holders := by
    unfold activate
    split <;> exact h.milder (milder_collect _)
  simp only [scatterWrlock]
  split
  · exact henter _ _ _ _ hm
  have hstage := milder_gatherStage k.read (l.collect (instant k.reads)).activate
    (recallScattered_tame c) (instant k.reads) .toDscatter
  split
  · exact hm.milder hstage
  · exact henter _ _ _ _ (hm.milder ((milder_gatherComplete _).trans hstage))

/-! ## Giving up and housekeeping -/

section

variable (hcarries : l.lockType.capBits.conflicts = true)
include hcarries

omit [DecidableEq C] in
theorem OneWriter.settleShared (h : OneWriter l.holders) (promotes : Bool) (k : Counters) :
    OneWriter (l.settleShared promotes k).lock.holders := by
  unfold MdLock.settleShared
  split
  · exact h
  split
  · rename_i hone
    exact h.promoteToLoner hcarries hone.1 _
  · exact h

omit hcarries in
theorem OneWriter.leaveGather (h : OneWriter l.holders) (sn : Nat) :
    OneWriter (l.leaveGather sn).2.holders := by
  simp only [MdLock.leaveGather]
  split
  · split
    · exact h.milder (milder_gatherComplete _)
    · split <;> exact h
  · exact h

omit [DecidableEq C] in
theorem Departs.oneWriter {g : MdLock C} {o : Outcome C (Departure C)} (hd : Departs k l p g o)
    (h : OneWriter l.holders) (hg : OneWriter (without l p).holders → OneWriter g.holders) :
    OneWriter o.lock.holders := by
  have hrest : OneWriter (without l p).holders := h.milder (milder_filter _ _)
  cases hd with
  | nobody => exact h
  | left =>
    rw [holders_goTo]
    exact hrest
  | settled =>
    rw [holders_eval]
    refine settleShared ?_ hrest _ k
    exact hcarries
  | gathering =>
    rw [holders_eval]
    exact hg hrest

omit hcarries in
theorem OneWriter.forgotten (h : OneWriter l.holders) (c : C) :
    OneWriter (forgotten l c).holders := by
  unfold LockFacts.forgotten
  split
  · exact milder h (milder_gatherComplete _)
  · exact h

omit hcarries in
theorem milder_answered (l : MdLock C) (c : C) (sn : Nat) :
    Milder (answered l c sn).holders l.holders :=
  milder_modifyFirst (f := fun h => { h with grantedCaps := h.retainCaps, recallInFlight := false })
    (fun _ => ⟨rfl, fun hr => hr, fun _ => id⟩) _

omit hcarries in
theorem recallAck_oneWriter (h : OneWriter l.holders) (c : C) (sn : Nat) :
    OneWriter (l.recallAck c sn).2.holders := by
  have hdown : OneWriter (answered l c sn).holders := h.milder (milder_answered l c sn)
  simp only [MdLock.recallAck]
  split
  · split
    · exact milder hdown (milder_gatherComplete _)
    · exact hdown
  · exact h

theorem sweep_oneWriter [Env]
    (h : OneWriter l.holders) (now : Nat) : OneWriter (l.sweep k now).lock.holders := by
  have hgc : OneWriter (l.garbageCollect now).2.holders := h.milder (milder_filter _ _)
  have hswept : OneWriter (l.sweepExpired k now).lock.holders := by
    simp only [sweepExpired]
    split
    · split
      · rw [holders_goTo]; exact hgc
      split
      · rename_i hone
        rw [holders_eval]
        refine promoteToLoner ?_ hgc hone.1 _
        exact hcarries
      · rw [holders_eval]; exact hgc
    · exact hgc
  simp only [sweep, retire]
  split <;> exact hswept.milder (milder_gatherTimeout _ _)

/-- **One section** keeps the invariant, if it is patient. -/
theorem run_oneWriter [Env] (h : OneWriter l.holders)
    {act : Act C} (hp : Patient k l act) : OneWriter (act.run k l).lock.holders := by
  cases act with
  | rdlock c => exact rdlock_oneWriter h c
  | wrlock c => exact wrlock_oneWriter hcarries h hp
  | xlock c => exact xlock_oneWriter h hp
  | enqueue | drainWaiters => exact h
  | unlock sn => exact Departs.oneWriter hcarries (unlock_departs k l sn) h (·.leaveGather sn)
  | posixUnlock c => exact Departs.oneWriter hcarries (posixUnlock_departs k l c) h id
  | recallAck c sn => exact recallAck_oneWriter h c sn
  | sweep now => exact sweep_oneWriter hcarries h now
  | evict c => exact Departs.oneWriter hcarries (evict_departs k l c) h (·.forgotten c)
  | quiesce exclude now newEpoch =>
    simp only [Act.run, quiesce]
    split
    · exact h
    · exact h.milder (milder_recallHolders (recallAll_tame exclude) now newEpoch)
  | quiesceCheck =>
    have hwaited := h.milder (milder_gatherTimeout k l)
    simp only [Act.run, quiesceCheck]
    split
    · split
      · exact hwaited
      · exact hwaited.milder (milder_gatherComplete _)
    · exact h
  | fenceEpoch =>
    simp only [Act.run, fenceEpoch, holders_goTo]
    exact oneWriter_nil
  | fileFlushToSync c =>
    have hstage : OneWriter _ := h.milder (milder_gatherStage k.read _
      (recallConflicting_tame CapSet.capW c) (instant k.reads) .toSync)
    simp only [Act.run, fileFlushToSync]
    split
    · exact h
    split
    · split
      · exact hstage.milder (milder_gatherComplete _)
      · exact hstage
    · rw [holders_goTo]; exact h
  | fileSyncToShared =>
    simp only [Act.run, fileSyncToShared]
    split
    · rw [holders_goTo]; exact h
    · exact h
  | localLock =>
    simp only [Act.run, localLock]
    split
    · rw [holders_goTo]; exact h
    · exact h
  | localUnlock =>
    simp only [Act.run, localUnlock, holders_goTo]
    exact h
  | scatterWrlock c => exact scatterWrlock_oneWriter h c
  | scatterUnlock sn =>
    simp only [Act.run, scatterUnlock, holders_eval]
    exact h.milder (milder_filter _ _)

end

/-! ## Runs -/

/-- The holders whose lease runs at `now` and that may write. -/
def writers (l : MdLock C) (now : Nat) : List (LockHolder C) :=
  (unexpired l now).filter (·.grantedCaps.conflicts)

omit [DecidableEq C] in
theorem OneWriter.writers_le (h : OneWriter l.holders) (now : Nat) :
    (writers l now).length ≤ 1 := by
  have hw : OneWriter (writers l now) :=
    h.milder ((milder_filter _ _).trans (milder_filter _ _))
  have hc : ∀ x ∈ writers l now, x.grantedCaps.conflicts = true := fun x hx =>
    (mem_filter.mp hx).2
  match hws : writers l now with
  | [] => simp
  | [x] => simp
  | x :: y :: rest =>
    rw [hws] at hw hc
    exact (pairwise_cons.mp hw.single).1 y (by simp) (hc x (by simp)) (hc y (by simp)) |>.elim

/-- The sections on FILE locks are patient. -/
def PatientStep [Env] (a : LockArbiter C) : Section C → Prop
  | .on i .file act => Patient a.counters (a.lock i .file) act
  | _ => True

instance [Env] (a : LockArbiter C) (s : Section C) : Decidable (PatientStep a s) := by
  unfold PatientStep
  split <;> infer_instance

theorem step_oneWriter [Env] (a : LockArbiter C) (s : Section C)
    (h : ∀ i, (a.lock i .file).lockType = .file ∧ OneWriter (a.lock i .file).holders)
    (hp : PatientStep a s) (i : Nat) :
    ((a.step s).lock i .file).lockType = .file ∧
      OneWriter ((a.step s).lock i .file).holders := by
  rcases lock_step a s i .file with ⟨act, rfl, hl, -⟩ | ⟨-, hl⟩
  · rw [hl, lockType_run]
    refine ⟨(h i).1, run_oneWriter ?_ (h i).2 hp⟩
    rw [(h i).1]
    rfl
  · rw [hl]
    exact h i

/-- **At most one writer.** As long as no request on a FILE lock ends a gather that leaves it
a rival, at most one holder with a running lease has write or exclusive capabilities, at every
moment of every sequence of operations. -/
theorem at_most_one_writer [Env] (order : HashOrder) (ops : List (Operation C))
    (hp : Along LockArbiter.step PatientStep (LockArbiter.new C)
      (LockArbiter.performAll order ops).log) {done rest : List (Section C)}
    (hlog : (LockArbiter.performAll order ops).log = done ++ rest) (inode now : Nat) :
    (writers ((done.foldl LockArbiter.step (LockArbiter.new C)).lock inode .file)
      now).length ≤ 1 := by
  rw [hlog] at hp
  have hinv := hp.before.invariant (I := fun a => ∀ i, (a.lock i .file).lockType = .file ∧
    OneWriter (a.lock i .file).holders) (fun a s h hp => step_oneWriter a s h hp) ?_
  · exact (hinv inode).2.writers_le now
  · intro i
    rw [lock_new]
    exact ⟨rfl, oneWriter_nil⟩

/-- The default timeouts, with a clock that stands still for three readings and then shows
three seconds. -/
local instance : Env := ⟨2000, 30000, fun n => if n < 3 then 0 else 3000⟩

/-- The first writer answers the recall, then the second one is let in. -/
def handedOver : List (Operation Nat) :=
  [.wrlock 7 .file 1, .wrlock 7 .file 2, .recallAck 7 .file 1 1, .wrlock 7 .file 2]

theorem handedOver_one_writer :
    Along LockArbiter.step PatientStep (LockArbiter.new Nat)
      (LockArbiter.performAll .byKey handedOver).log ∧
    (writers ((LockArbiter.performAll .byKey handedOver).lock 7 .file) 3000).length ≤ 1 := by
  have hp : Along step PatientStep (new Nat) (performAll .byKey handedOver).log := by
    decide +kernel
  have hend := at_most_one_writer .byKey handedOver hp (append_nil _).symm 7 3000
  rw [performAll_sections] at hend
  exact ⟨hp, hend⟩

/-- The first writer does not answer: the second request finds that its recall has run out of
time, and both have the full set of capabilities. -/
theorem silent_writer_kept :
    (writers ((LockArbiter.performAll .byKey
      [.wrlock 7 .file 1, .wrlock 7 .file 2, .wrlock 7 .file 2]).lock 7 .file) 3000).map
      (fun h => (h.clientId, h.grantedCaps)) =
    [(1, LockType.file.capBits), (2, LockType.file.capBits)] := by
  decide +kernel

end PowerFS.Filer.WriterExclusion
