import PowerFS.V1.Compaction

/-! # What a flush does with an entry it cannot write

A flush takes an entry out of the coalescer before it writes it, and answers with the
number of entries it has written; `compact` does not look at what its flush has done. An
entry whose write fails is gone and the answer is not an error, so nothing is lost just if
no write fails. When one fails is said by the state the flush has reached when it comes to
the entry. -/
namespace PowerFS.V1.FlushLoss
open Lib.ByteString Lib.Calls Needle Metadata Coalescer State Operations Outcomes Requests
  Compaction

section

variable [Env] {v v' : Volume}

/-! ## A flush returns -/

theorem answers_utcNow : Answers utcNow := fun v => ⟨_, v.tick, rfl⟩

theorem answers_dbRead {α : Type} (what : String) (f : VolumeMetadata → α) :
    Answers (dbRead what f) := by
  intro v
  unfold Returns dbRead
  cases fault v.calls with
  | none | some => exact ⟨_, _, rfl⟩

theorem answers_dbWrite (what : String) (f : VolumeMetadata → VolumeMetadata) :
    Answers (dbWrite what f) := by
  intro v
  unfold Returns dbWrite
  cases fault v.calls with
  | none | some => exact ⟨_, _, rfl⟩

theorem answers_backendWrite (offset : Nat) (bytes : Bytes) :
    Answers (backendWrite offset bytes) := by
  intro v
  unfold Returns backendWrite
  split
  · exact ⟨_, _, rfl⟩
  cases fault v.calls with
  | none | some => exact ⟨_, _, rfl⟩

theorem answers_indexGet (id : Nat) : Answers (indexGet id) :=
  fun v => ⟨_, _, indexGet_eq v id⟩

omit [Env] in
theorem answers_outOfSpace {α : Type} : Answers (outOfSpace : Op α) :=
  (answers_modify _).bind fun _ => answers_fail _

theorem answers_appendRecord (p : Option Nat) (id : Nat) (data : Bytes) :
    Answers (appendRecord p id data) := by
  refine (answers_dbRead _ _).bind fun stats => ?_
  split
  · exact answers_outOfSpace
  split
  · exact answers_outOfSpace
  · exact (answers_backendWrite _ _).bind fun _ => answers_pure _

theorem answers_appendNew (id cookie : Nat) (data : Bytes) : Answers (appendNew id cookie data) :=
  answers_get.bind fun _ => (answers_appendRecord _ _ _).bind fun _ =>
    answers_utcNow.bind fun _ => answers_pure _

theorem answers_prepareWrite (fileKey cookie : Nat) (data : Bytes) :
    Answers (prepareWrite fileKey cookie data) := by
  refine answers_get.bind fun v => ?_
  split
  · exact answers_fail _
  refine Answers.bind (fun v => ⟨_, _, rfl⟩) fun id => ?_
  refine (answers_modify _).bind fun _ => (answers_indexGet _).bind fun found => ?_
  cases found with
  | none => exact answers_appendNew _ _ _
  | some existing =>
    dsimp only
    split
    · exact answers_pure _
    · exact answers_appendNew _ _ _

theorem answers_publish (a : Appended) : Answers (publish a) := by
  refine answers_get.bind fun v => Answers.bind ?_ fun stats => ?_
  · exact (answers_dbRead _ _).bind fun _ => (answers_dbRead _ _).bind fun _ =>
      answers_utcNow.bind fun _ => (answers_dbWrite _ _).bind fun _ => answers_pure _
  · exact (answers_modify _).bind fun _ => answers_pure _

theorem answers_writeNeedleNowait (fileKey cookie : Nat) (data : Bytes) :
    Answers (writeNeedleNowait fileKey cookie data) := by
  refine (answers_prepareWrite _ _ _).bind fun x => ?_
  cases x with
  | inl existing => exact answers_pure _
  | inr a => exact answers_publish a

theorem answers_appendVersion (id : Nat) (data : Bytes) (base : NeedleInfo) :
    Answers (appendVersion id data base) :=
  (answers_appendRecord _ _ _).bind fun _ => answers_pure _

theorem answers_appendNeedleVersion (id : Nat) (data : Bytes) (old : NeedleInfo) :
    Answers (appendNeedleVersion id data old) := by
  refine Answers.bind (answers_get.bind fun v => ?_) fun x => ?_
  · split
    · exact answers_fail _
    refine (answers_indexGet _).bind fun found => ?_
    cases found with
    | none => exact answers_appendVersion _ _ _
    | some latest =>
      dsimp only
      split
      · exact answers_pure _
      · exact answers_appendVersion _ _ _
  · cases x with
    | none => exact answers_pure _
    | some a => exact (answers_publish a).bind fun _ => answers_pure _

theorem answers_flushCoalescerEntry (id : Nat) (merged : Bytes) (isNew : Bool) :
    Answers (flushCoalescerEntry id merged isNew) := by
  have hfull : Answers (writeNeedleNowait id 0 merged >>= fun _ => (pure () : Op Unit)) :=
    (answers_writeNeedleNowait _ _ _).bind fun _ => answers_pure _
  cases isNew with
  | true => exact hfull
  | false =>
    refine (answers_indexGet _).bind fun found => ?_
    cases found with
    | none => exact hfull
    | some existing => exact answers_appendNeedleVersion _ _ _

theorem answers_flushIds (ids : List Nat) : Answers (flushIds ids) := by
  induction ids with
  | nil => exact answers_pure _
  | cons id ids ih =>
    refine answers_get.bind fun v => ?_
    split
    · exact ih
    split
    · exact ih
    · exact (answers_modify _).bind fun _ => (answers_flushCoalescerEntry _ _ _).attempt.bind
        fun _ => ih.bind fun _ => answers_pure _

theorem answers_flushTaken (es : List (Nat × DirtyEntry)) : Answers (flushTaken es) := by
  induction es with
  | nil => exact answers_pure _
  | cons e es ih =>
    exact (answers_flushCoalescerEntry _ _ _).attempt.bind fun _ => ih.bind fun _ => answers_pure _

/-! ## When an entry can be written -/

/-- The volume is available, and it has the content already, or it has the space for it
and no call to the outside fails. -/
def Admits (v : Volume) (id : Nat) (e : DirtyEntry) : Prop :=
  v.info.state = .available ∧
    (FlushKnown v id e.merged e.isNewNeedle ∨ FlushGood v id e.merged e.isNewNeedle)

variable {id : Nat} {r : Result Unit} {log : List Attempt}

theorem flush_ok_iff {e : DirtyEntry}
    (h : Returns (flushCoalescerEntry id e.merged e.isNewNeedle) v r v') :
    r = .ok () ↔ Admits v id e := by
  rcases flushCoalescerEntry_returns h with ⟨hs, ⟨err, rfl⟩, _⟩ | ⟨hs, w, k, r₀, _, rfl, hw⟩
  · exact ⟨nofun, fun ha => absurd ha.1 hs⟩
  cases hw with
  | skipped n hknown => exact ⟨fun _ => ⟨hs, .inl hknown⟩, fun _ => rfl⟩
  | failed hnew hbad => exact ⟨nofun, fun ha => (ha.2.elim hnew hbad).elim⟩
  | published n now hnew hgood => exact ⟨fun _ => ⟨hs, .inr hgood⟩, fun _ => rfl⟩

/-- Every entry can be written when its turn comes. -/
def AdmitsIds : List Nat → Volume → Prop
  | [], _ => True
  | id :: ids, v =>
    if v.compacting then AdmitsIds ids v
    else match v.coalescer.take id with
      | (_, none) => AdmitsIds ids v
      | (c, some e) => Admits (v.setCoalescer c) id e ∧
        ∀ r v₁, Returns (flushCoalescerEntry id e.merged e.isNewNeedle) (v.setCoalescer c) r v₁ →
          AdmitsIds ids v₁

/-- The same for entries that have been taken before. -/
def AdmitsTaken : List (Nat × DirtyEntry) → Volume → Prop
  | [], _ => True
  | (id, e) :: es, v => Admits v id e ∧
    ∀ r v₁, Returns (flushCoalescerEntry id e.merged e.isNewNeedle) v r v₁ →
      AdmitsTaken es v₁

omit [Env] in
theorem attempt_succeeded_iff {merged : Bytes} :
    Attempt.succeeded ⟨id, merged, r⟩ = true ↔ r = .ok () := by
  cases r with
  | ok u => exact ⟨fun _ => rfl, fun _ => rfl⟩
  | error e => exact ⟨nofun, nofun⟩

/-- The first of a list of attempts and the others. -/
theorem forall_attempts_iff {x : Op Unit} {e : DirtyEntry} {w v₁ : Volume} {rest : Volume → Prop}
    (hx : x = flushCoalescerEntry id e.merged e.isNewNeedle) (h : Returns x w r v₁)
    (hrest : (∀ a ∈ log, a.succeeded = true) ↔ rest v₁) :
    (∀ a ∈ (⟨id, e.merged, r⟩ : Attempt) :: log, a.succeeded = true) ↔
      Admits w id e ∧ ∀ r' v', Returns x w r' v' → rest v' := by
  subst hx
  rw [List.forall_mem_cons, attempt_succeeded_iff, flush_ok_iff h, hrest]
  refine and_congr_right fun _ => ⟨fun hv₁ r' v' h' => ?_, fun hall => hall r v₁ h⟩
  rw [← (h.unique h').2]
  exact hv₁

theorem admitsIds_nothing {ids : List Nat} (h : v.compacting = true ∨ v.coalescer.held id = none) :
    AdmitsIds (id :: ids) v ↔ AdmitsIds ids v := by
  rw [AdmitsIds]
  by_cases hc : v.compacting = true
  · rw [if_pos hc]
  · rw [if_neg hc, WriteCoalescer.take_none (h.resolve_left hc)]

theorem flushed_all_iff {ids : List Nat} (h : Flushed ids v log v') :
    (∀ a ∈ log, a.succeeded = true) ↔ AdmitsIds ids v := by
  induction h with
  | nil => exact ⟨fun _ => trivial, nofun⟩
  | nothing hnone _ ih => rw [ih, admitsIds_nothing hnone]
  | entry hrun htake hflush _ ih =>
    unfold AdmitsIds
    rw [if_neg (Bool.eq_false_iff.mp hrun), htake]
    exact forall_attempts_iff rfl hflush ih

theorem drained_all_iff {es : List (Nat × DirtyEntry)} (h : Drained es v log v') :
    (∀ a ∈ log, a.succeeded = true) ↔ AdmitsTaken es v := by
  induction h with
  | nil => exact ⟨fun _ => trivial, nofun⟩
  | cons hflush _ ih => exact forall_attempts_iff rfl hflush ih

/-! ## The calls that flush -/

inductive FlushCall where
  | needleIds (ids : List Nat)
  | specific (ids : List Nat)
  | compaction

namespace FlushCall

/-- The entries that the call tries to write, and how that goes. -/
def attempts : FlushCall → Op (List Attempt)
  | .needleIds ids => flushIds (flushOrder ids)
  | .specific ids => flushIds (flushOrder ids)
  | .compaction => do
    let v ← Call.get
    if v.compacting then pure []
    else do
      Call.modify (·.setCompacting true)
      compactFlush

/-- The call; whether it answers with an error is kept of its answer. -/
def run : FlushCall → Op Unit
  | .needleIds ids => ignore (flushNeedleIdsAtomic ids)
  | .specific ids => ignore (flushSpecificNeedles ids)
  | .compaction => ignore compact

/-- Every entry that the call tries can be written when its turn comes. -/
def Admitted (v : Volume) : FlushCall → Prop
  | .needleIds ids => AdmitsIds (flushOrder ids) v
  | .specific ids => AdmitsIds (flushOrder ids) v
  | .compaction => v.compacting = true ∨
      AdmitsTaken (Env.order.entries v.coalescer.entries) (drainedFrom (v.setCompacting true))

theorem answers_attempts (c : FlushCall) : Answers c.attempts := by
  cases c with
  | needleIds | specific => exact answers_flushIds _
  | compaction =>
    refine answers_get.bind fun v => ?_
    split
    · exact answers_pure _
    · exact (answers_modify _).bind fun _ => answers_get.bind fun _ => (answers_modify _).bind
        fun _ => answers_flushTaken _

/-- The attempts do not fail as a whole, and all succeed just if they are admitted. -/
theorem attempts_returns {c : FlushCall} {r : Result (List Attempt)}
    (h : Returns c.attempts v r v') :
    ∃ log, r = .ok log ∧ ((∀ a ∈ log, a.succeeded = true) ↔ c.Admitted v) := by
  cases c with
  | needleIds | specific =>
    obtain ⟨log, rfl, hlog⟩ := flushIds_returns h
    exact ⟨log, rfl, flushed_all_iff hlog⟩
  | compaction =>
    replace h := h.get_bind
    split at h
    case isTrue hc =>
      obtain ⟨rfl, rfl⟩ := h.pure
      exact ⟨[], rfl, iff_of_true (List.forall_mem_nil _) (.inl hc)⟩
    case isFalse hc =>
      obtain ⟨log, rfl, hlog⟩ := compactFlush_returns h.modify_bind
      exact ⟨log, rfl, (drained_all_iff hlog).trans (or_iff_right hc).symm⟩

/-- The flushes never answer with an error. -/
theorem run_ok (c : FlushCall) (hc : c ≠ .compaction) (v : Volume) :
    ∃ v', Returns c.run v (.ok ()) v' := by
  have hflush : ∀ ids, ∃ v', Returns (ignore (flushNeedleIdsAtomic ids)) v (.ok ()) v' := by
    intro ids
    obtain ⟨r, v', h⟩ := answers_flushIds (flushOrder ids) v
    obtain ⟨log, rfl, -⟩ := flushIds_returns h
    have hcount : flushNeedleIdsAtomic ids v = _ := bind_eq h
    exact ⟨v', bind_eq hcount⟩
  cases c with
  | needleIds ids => exact hflush ids
  | specific ids => exact hflush ids
  | compaction => exact absurd rfl hc

end FlushCall

/-- What is asked of a flush: if the write of an entry fails, its content can still be
read after the call, and the call answers with an error. -/
def LossReported (v : Volume) (c : FlushCall) : Prop :=
  ∀ log v₁ r v', Returns c.attempts v (.ok log) v₁ → Returns c.run v r v' →
    ∀ a ∈ log, a.succeeded = false → readNeedle v' a.id = .ok a.merged ∧ ∃ e, r = .error e

/-- **A flush loses nothing unreported if every entry can be written** when its turn comes.
If one cannot, a flush loses it unreported, and so does a compaction that ends well. -/
theorem loss_reported_iff (v : Volume) (c : FlushCall) :
    (c.Admitted v → LossReported v c) ∧
    (c ≠ .compaction ∨ (∃ v', Returns c.run v (.ok ()) v') →
      LossReported v c → c.Admitted v) := by
  obtain ⟨out, v₁, h⟩ := FlushCall.answers_attempts c v
  obtain ⟨log, rfl, hall⟩ := FlushCall.attempts_returns h
  rw [← hall]
  constructor
  · intro hgood log' v₁' r v' h' _ a ha hfail
    obtain ⟨hlog, _⟩ := h.unique h'
    cases hlog
    rw [hgood a ha] at hfail
    cases hfail
  · intro hends hloss a ha
    obtain ⟨v', hrun⟩ := hends.elim (fun hc => c.run_ok hc v) id
    by_contra hfail
    obtain ⟨_, e, he⟩ := hloss log v₁ _ v' h hrun a ha (Bool.eq_false_iff.mpr hfail)
    cases he

end

local instance : Env := calm

/-- A volume without space for a needle that has been written in part: the flush answers
that it has written nothing, a compaction that all is well, and the content is gone. -/
theorem full_volume_loses_entry : ∃ v v' v'', Run (fun _ _ => True) (newVolume 10)
    [.blob 1 0 1 [7]] v ∧ readNeedle v 1 = .ok [7] ∧
    Returns (flushSpecificNeedles [1]) v (.ok 0) v' ∧
    readNeedle v' 1 = .error (.needleNotFound 1) ∧
    Returns compact v (.ok (0, 0)) v'' ∧
    readNeedle v'' 1 = .error (.needleNotFound 1) := by
  have hlost : (performAll (fun _ _ => True) [.blob 1 0 1 [7]] (newVolume 10)).map
      (fun v => (readNeedle v 1, (flushSpecificNeedles [1] v).map
        fun out => (out.1, readNeedle out.2 1))) =
      some (.ok [7], some (.ok 0, .error (.needleNotFound 1))) := by
    decide +kernel
  have hcompact : (performAll (fun _ _ => True) [.blob 1 0 1 [7]] (newVolume 10)).map
      (fun v => (compact v).map fun out => (out.1, readNeedle out.2 1)) =
      some (some (.ok (0, 0), .error (.needleNotFound 1))) := by
    decide +kernel
  obtain ⟨v, hv, heq⟩ := Option.map_eq_some_iff.mp hlost
  obtain ⟨hbefore, hflush⟩ := Prod.mk.inj heq
  obtain ⟨⟨r, v'⟩, hrun, hr⟩ := Option.map_eq_some_iff.mp hflush
  obtain ⟨rfl, hafter⟩ := Prod.mk.inj hr
  rw [hv, Option.map_some, Option.some_inj] at hcompact
  obtain ⟨⟨r, v''⟩, hrun', hr⟩ := Option.map_eq_some_iff.mp hcompact
  obtain ⟨rfl, hafter'⟩ := Prod.mk.inj hr
  exact ⟨v, v', v'', run_of_performAll hv, hbefore, hrun, hafter, hrun', hafter'⟩

end PowerFS.V1.FlushLoss
