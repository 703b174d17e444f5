import PowerFS.Wal.EngineRun

/-! # Calls that interleave

Writes, deletions and checkpoints that run at the same time. What the engine does under
one lock is one step: a record gets its LSN and its place on disk in one step, and is
applied to the index in a later one. Between its steps a call is a thread that waits to
be resumed; any thread may be next.

`disk` and `applied` are histories: the records that have been given an LSN, and those
that have reached the index, in the order in which they did. -/
namespace PowerFS.Wal.Interleaving
open Lib.ByteString Lib.Calls Wal.Frame Payload SegmentScan Index Checkpoint LogContents Engine
  EngineDisk EngineRun List

/-- A call in progress, by what it does next. -/
inductive Thread where
  /-- enqueue the record of a write -/
  | writing (payload : DataPayload)
  /-- apply it -/
  | written (receipt : CommitReceipt) (payload : DataPayload)
  /-- enqueue the record of a deletion -/
  | deleting (payload : DeletePayload)
  /-- apply it -/
  | deleted (receipt : CommitReceipt) (payload : DeletePayload)
  /-- write the file of a checkpoint -/
  | frozen (out : CkptOutcome) (data : CkptData)
  /-- enqueue its anchor -/
  | stored (out : CkptOutcome)
  /-- apply the anchor -/
  | anchored (out : CkptOutcome) (receipt : CommitReceipt)
  /-- store the superblock -/
  | announced (out : CkptOutcome)

inductive Act where
  | write (needleId : UInt64) (data : Bytes)
  | delete (needleId : UInt64)
  | checkpoint (o : HashOrder)
  | resume (i : Nat)

structure System where
  engine : WalEngine
  threads : List Thread
  disk : List Located
  applied : List Located

section Model

variable [Checksum] (clock : Nat → Int64)

/-- The frame that the receipt is about, with the segment it is in. -/
def located (receipt : CommitReceipt) (rtype : RecordType) (payload : Bytes) : Located :=
  (receipt.placement.segId,
    frameOf receipt.placement.offset rtype 0 (UInt64.ofNat receipt.lsn) payload)

/-- The record that the thread has on disk and not yet in the index. -/
def Thread.record? : Thread → Option Located
  | .written receipt payload => some (located receipt .data payload.encode)
  | .deleted receipt payload => some (located receipt .delete payload.encode)
  | .anchored out receipt => some (located receipt .ckptAnchor out.anchor.encode)
  | _ => none

/-- The next step of a thread, and what is left of it. -/
def Thread.resume : Thread → EngineM (Option Thread)
  | .writing payload => do
    let receipt ← enqueue clock .data payload.encode
    pure (some (.written receipt payload))
  | .written receipt payload => do
    applyWritten clock receipt payload
    pure none
  | .deleting payload => do
    let receipt ← enqueue clock .delete payload.encode
    pure (some (.deleted receipt payload))
  | .deleted receipt payload => do
    applyDeleted receipt payload
    pure none
  | .frozen out data => do
    storeCkpt out data
    pure (some (.stored out))
  | .stored out => do
    let receipt ← enqueue clock .ckptAnchor out.anchor.encode
    pure (some (.anchored out receipt))
  | .anchored out receipt => do
    applyAnchor out receipt
    pure (some (.announced out))
  | .announced out => do
    finishCkpt clock out
    pure none

/-- The first step of a call, and the thread it leaves. -/
def start : Act → EngineM (Option Thread)
  | .write needleId data => do
    admitWrite data
    pure (some (.writing ⟨needleId, data⟩))
  | .delete needleId => do
    let payload ← admitDelete clock needleId
    pure (some (.deleting payload))
  | .checkpoint o => do
    let (out, data) ← freezeCkpt clock o
    pure (some (.frozen out data))
  | .resume _ => Call.hang

/-- What is left of a thread; a call that fails is over. -/
def rest : Except EngineError (Option Thread) → List Thread
  | .ok (some thread) => [thread]
  | _ => []

/-- One step. A thread that waits for ever cannot be resumed. -/
def step (s : System) : Act → Option System
  | .resume i => do
    let thread ← s.threads[i]?
    let (r, engine) ← thread.resume clock s.engine
    pure {
      engine := engine
      threads := s.threads.eraseIdx i ++ rest r
      disk := s.disk ++ (rest r).filterMap Thread.record?
      applied := s.applied ++ thread.record?.toList }
  | act => do
    let (r, engine) ← start clock act s.engine
    pure { s with engine := engine, threads := s.threads ++ rest r }

def steps : System → List Act → Option System
  | s, [] => some s
  | s, act :: acts => (step clock s act).bind fun s' => steps s' acts

/-- An engine before any call. -/
def System.idle (e : WalEngine) : System := ⟨e, [], [], []⟩

end Model

/-! ## The invariant -/

/-- The receipt of a thread is the one that the append of its record gave. -/
def Thread.Valid [Checksum] : Thread → Prop
  | .written receipt payload => ValidReceipt receipt .data payload.encode
  | .deleted receipt payload => ValidReceipt receipt .delete payload.encode
  | .anchored out receipt => ValidReceipt receipt .ckptAnchor out.anchor.encode
  | _ => True
where
  ValidReceipt (receipt : CommitReceipt) (rtype : RecordType) (payload : Bytes) : Prop :=
    receipt.lsn < 2 ^ 64 ∧ ∃ segId off,
      receipt = ⟨receipt.lsn, placed segId off rtype receipt.lsn payload⟩

/-- A record of a write, a deletion or a checkpoint. -/
def CallRecord (r : Located) : Prop :=
  r.2.fmeta.rtype = .data ∨ r.2.fmeta.rtype = .delete ∨ r.2.fmeta.rtype = .ckptAnchor

/-- The records up to an LSN. -/
def upTo (lsn : Nat) (rs : List Located) : List Located := rs.filter fun r => decide (r.lsn ≤ lsn)

/-- The index has the records that were applied, in their order; every other record on
disk belongs to a thread that is about to apply it. -/
structure Inv [Checksum] (s : System) : Prop where
  running : ∃ segs last, Running s.engine segs last ∧ onDisk segs last = s.disk
  index : IndexOf s.engine.config.volumeSize.toNat s.applied s.engine.index
  outstanding : (s.applied ++ s.threads.filterMap Thread.record?).Perm s.disk
  calls : ∀ r ∈ s.disk, CallRecord r
  valid : ∀ t ∈ s.threads, t.Valid

/-- The system after a thread moved on to `r`: what it had on disk is now in the index, and what
it has put on disk is outstanding. -/
def System.resumed [Checksum] (s : System) (e : WalEngine) (i : Nat) (t : Thread)
    (r : Except EngineError (Option Thread)) : System where
  engine := e
  threads := s.threads.eraseIdx i ++ rest r
  disk := s.disk ++ (rest r).filterMap Thread.record?
  applied := s.applied ++ t.record?.toList

section Preservation

variable [Checksum] {clock : Nat → Int64} {s s' : System} {e e' : WalEngine}
  {i : Nat} {t : Thread} {r : Except EngineError (Option Thread)}

section

variable (h : Inv s)
include h

theorem Inv.disk_sorted : s.disk.Pairwise fun a b => a.lsn < b.lsn := by
  obtain ⟨segs, last, hrun, hdisk⟩ := h.running
  rw [← hdisk]
  exact hrun.stored.wellFormed.increasing

theorem Inv.disk_records : ∀ r ∈ s.disk, EngineFrame r.2 ∧ isRecord r.2 = true := by
  obtain ⟨segs, last, hrun, hdisk⟩ := h.running
  rw [← hdisk]
  exact hrun.stored.wellFormed.engineRecords

theorem Inv.disk_positive : ∀ r ∈ s.disk, 0 < r.lsn := by
  obtain ⟨segs, last, hrun, hdisk⟩ := h.running
  rw [← hdisk]
  exact hrun.stored.wellFormed.positive

theorem Inv.applied_subset : ∀ r ∈ s.applied, r ∈ s.disk := fun _ hr =>
  h.outstanding.mem_iff.mp (mem_append_left _ hr)

/-- What has been applied is not behind the cursor. -/
theorem Inv.applied_upTo : ∀ r ∈ s.applied, r ∈ upTo s.engine.index.lastLsn s.disk := by
  intro r hr
  refine mem_filter.mpr ⟨h.applied_subset r hr, decide_eq_true ?_⟩
  rw [h.index.cursor]
  exact (applyRecords_cursor _ WalIndex.empty s.applied fun q hq =>
    h.disk_records q (h.applied_subset q hq)).2 r hr

open Thread

theorem Inv.advance (hi : s.threads[i]? = some t) (hrun : ∃ segs last, Running e segs last ∧
      onDisk segs last = s.disk ++ (rest r).filterMap record?)
    (hidx : IndexOf e.config.volumeSize.toNat (s.applied ++ t.record?.toList) e.index)
    (hcalls : ∀ x ∈ (rest r).filterMap record?, CallRecord x)
    (hvalid : ∀ t' ∈ rest r, t'.Valid) :
    Inv (s.resumed e i t r) := by
  obtain ⟨hlt, rfl⟩ := List.getElem?_eq_some_iff.mp hi
  refine ⟨hrun, hidx, ?_, ?_, ?_⟩
  · have hperm := (List.getElem_cons_eraseIdx_perm hlt).filterMap record?
    have hcons : (s.threads[i] :: s.threads.eraseIdx i).filterMap record? =
        (s.threads[i].record?).toList ++
          (s.threads.eraseIdx i).filterMap (record?) := by
      cases hr : s.threads[i].record? with
      | none | some => simp [hr]
    rw [hcons] at hperm
    show ((s.applied ++ (s.threads[i].record?).toList) ++
      (s.threads.eraseIdx i ++ rest r).filterMap record?).Perm _
    rw [List.filterMap_append, List.append_assoc,
      ← List.append_assoc _ _ (List.filterMap _ (rest r)), ← List.append_assoc s.applied]
    exact ((hperm.append_left s.applied).trans h.outstanding).append_right _
  · exact List.forall_mem_append.mpr ⟨h.calls, hcalls⟩
  · exact List.forall_mem_append.mpr
      ⟨fun t' ht' => h.valid t' (List.mem_of_mem_eraseIdx ht'), hvalid⟩

/-- A step that puts nothing on disk. -/
theorem Inv.advance_still (hi : s.threads[i]? = some t)
    (hr : ∀ t' ∈ rest r, t'.record? = none ∧ t'.Valid)
    (hsink : e.sink = s.engine.sink) (hconfig : e.config = s.engine.config)
    (hlsn : e.nextLsn = s.engine.nextLsn) (herr : e.commitError = s.engine.commitError)
    (hidx : IndexOf s.engine.config.volumeSize.toNat (s.applied ++ t.record?.toList) e.index) :
    Inv (s.resumed e i t r) := by
  have hnone : (rest r).filterMap record? = [] :=
    filterMap_eq_nil_iff.mpr fun t' ht' => (hr t' ht').1
  obtain ⟨segs, last, hrun, hdisk⟩ := h.running
  refine h.advance hi ?_ (by rwa [hconfig]) (by simp [hnone]) fun t' ht' => (hr t' ht').2
  rw [hnone, append_nil]
  exact ⟨segs, last, Running.congr hrun hsink hconfig hlsn herr, hdisk⟩

/-- Of a thread that has nothing on disk, the index stays as it is. -/
theorem Inv.index_quiet (ht : t.record? = none) :
    IndexOf s.engine.config.volumeSize.toNat (s.applied ++ t.record?.toList) s.engine.index := by
  rw [ht]
  simpa using h.index

/-- A thread enqueues its record, or is refused and over. -/
theorem Inv.advance_enqueue (hi : s.threads[i]? = some t)
    (ht : t.record? = none) {rtype : RecordType}
    {payload : Bytes} {next : CommitReceipt → Thread}
    (hnext : ∀ receipt, (next receipt).record? = some (located receipt rtype payload))
    (hvalid : ∀ receipt, Thread.Valid.ValidReceipt receipt rtype payload →
      (next receipt).Valid)
    (hrec : EngineRecord rtype payload) (hcall : ∀ r : Located,
      r.2.fmeta.rtype = rtype → CallRecord r)
    (hret : Returns (enqueue clock rtype payload >>= fun receipt =>
      pure (some (next receipt))) s.engine r e) :
    Inv (s.resumed e i t r) := by
  obtain ⟨segs, last, hrun, hdisk⟩ := h.running
  rcases enqueue_bind hrun hrec hret with ⟨rfl, _, err, rfl⟩ | ⟨segs', last', off, e₁, henq, hrest⟩
  · exact h.advance_still hi (fun t' ht' => by cases ht') rfl rfl rfl rfl (h.index_quiet ht)
  obtain ⟨rfl, rfl⟩ := hrest.pure
  have hone : (rest (.ok (some (next ⟨s.engine.nextLsn,
      placed last'.segId off rtype s.engine.nextLsn payload⟩)))).filterMap
      record? = [(last'.segId, frameOf off rtype 0 (UInt64.ofNat s.engine.nextLsn) payload)] := by
    simp [rest, hnext, located, placed]
  refine h.advance hi ?_ ?_ ?_ ?_
  · rw [hone, ← hdisk]
    exact ⟨segs', last', henq.2.1, henq.2.2⟩
  · obtain ⟨⟨_, _, rfl⟩, _, _⟩ := henq
    exact h.index_quiet ht
  · rw [hone]
    exact forall_mem_singleton.mpr (hcall _ rfl)
  · exact forall_mem_singleton.mpr (hvalid _ ⟨hrun.bounded, _, _, rfl⟩)

omit [Checksum] h in
theorem rest_of_bind_pure {α : Type} {x : EngineM α}
    (h : Returns (x >>= fun _ => pure none) e r e') : rest r = [] := by
  rcases h.bind with ⟨err, rfl, _⟩ | ⟨_, e₁, _, hpure⟩
  · rfl
  · obtain ⟨rfl, _⟩ := hpure.pure
    rfl

/-- Every step of a thread keeps the invariant. -/
theorem resume_inv (hi : s.threads[i]? = some t) (hret : Returns (t.resume clock) s.engine r e) :
    Inv (s.resumed e i t r) := by
  have hvalid := h.valid t (mem_of_getElem? hi)
  cases t with
  | writing payload =>
    refine h.advance_enqueue hi rfl ?_ ?_ (engineRecord_data payload) ?_ hret
    · exact fun _ => rfl
    · exact fun _ hv => hv
    · exact fun _ hr => Or.inl hr
  | deleting payload =>
    refine h.advance_enqueue hi rfl ?_ ?_ (engineRecord_delete payload) ?_ hret
    · exact fun _ => rfl
    · exact fun _ hv => hv
    · exact fun _ hr => Or.inr (.inl hr)
  | stored out =>
    refine h.advance_enqueue hi rfl ?_ ?_ (engineRecord_anchor out.anchor) ?_ hret
    · exact fun _ => rfl
    · exact fun _ hv => hv
    · exact fun _ hr => Or.inr (.inr hr)
  | written receipt payload =>
    have hrest : rest r = [] := rest_of_bind_pure hret
    obtain ⟨_, happly⟩ := hret.bind_pure
    obtain ⟨hlsn, segId, off, hreceipt⟩ := hvalid
    rw [hreceipt] at happly hi ⊢
    rw [applyWritten_returns hlsn happly]
    exact h.advance_still hi (by simp [hrest]) rfl rfl rfl rfl (h.index.apply _ _)
  | deleted receipt payload =>
    have hrest : rest r = [] := rest_of_bind_pure hret
    obtain ⟨_, happly⟩ := hret.bind_pure
    obtain ⟨hlsn, segId, off, hreceipt⟩ := hvalid
    rw [hreceipt] at happly hi ⊢
    rw [applyDeleted_returns hlsn happly]
    exact h.advance_still hi (by simp [hrest]) rfl rfl rfl rfl (h.index.apply _ 0)
  | anchored out receipt =>
    obtain ⟨rfl, rfl⟩ := hret.modify_bind.pure
    obtain ⟨hlsn, segId, off, hreceipt⟩ := hvalid
    exact h.advance_still hi (forall_mem_singleton.mpr ⟨rfl, trivial⟩) rfl rfl rfl rfl
      (h.index.anchor _ _ hlsn _ _ _)
  | frozen out data =>
    obtain ⟨segs, last, hrun, _⟩ := h.running
    rcases hret.bind with ⟨err, _, hstore⟩ | ⟨_, e₁, hstore, hpure⟩
    · have hok := (storeCkpt_returns hstore hrun.healthy).2
      cases hok
    obtain ⟨rfl, rfl⟩ := hpure.pure
    obtain ⟨rfl, _⟩ := storeCkpt_returns hstore hrun.healthy
    exact h.advance_still hi (forall_mem_singleton.mpr ⟨rfl, trivial⟩) rfl rfl rfl rfl
      (h.index_quiet rfl)
  | announced out =>
    have hrest : rest r = [] := rest_of_bind_pure hret
    obtain ⟨_, hfinish⟩ := hret.bind_pure
    obtain ⟨e₁, hstore, hlast⟩ := storeSuperblock_bind hfinish
    obtain ⟨_, rfl⟩ := hlast.modify
    rw [Returns, storeSuperblock_eq] at hstore
    obtain ⟨copies, _, heq⟩ := Option.map_eq_some_iff.mp hstore
    cases heq
    exact h.advance_still hi (by simp [hrest]) rfl rfl rfl rfl (h.index_quiet rfl)

omit h in
/-- The first step of a call touches neither the disk nor the index. -/
theorem start_quiet {act : Act} (hret : Returns (start clock act) e r e') :
    (e'.sink = e.sink ∧ e'.config = e.config ∧ e'.nextLsn = e.nextLsn ∧
      e'.commitError = e.commitError ∧ e'.index = e.index) ∧
    ∀ t ∈ rest r, t.record? = none ∧ t.Valid := by
  cases act with
  | resume i => exact absurd hret Returns.hang
  | write needleId data =>
    rcases hret.bind with ⟨err, rfl, hadmit⟩ | ⟨_, e₁, hadmit, hpure⟩
    · obtain rfl := admitWrite_returns hadmit
      exact ⟨⟨rfl, rfl, rfl, rfl, rfl⟩, fun t ht => by cases ht⟩
    obtain rfl := admitWrite_returns hadmit
    obtain ⟨rfl, rfl⟩ := hpure.pure
    exact ⟨⟨rfl, rfl, rfl, rfl, rfl⟩, forall_mem_singleton.mpr ⟨rfl, trivial⟩⟩
  | delete needleId =>
    rcases hret.bind with ⟨err, rfl, hadmit⟩ | ⟨payload, e₁, hadmit, hpure⟩
    · rw [admitDelete_returns hadmit]
      exact ⟨⟨rfl, rfl, rfl, rfl, rfl⟩, fun t ht => by cases ht⟩
    obtain ⟨rfl, rfl⟩ := hpure.pure
    rw [admitDelete_returns hadmit]
    exact ⟨⟨rfl, rfl, rfl, rfl, rfl⟩, forall_mem_singleton.mpr ⟨rfl, trivial⟩⟩
  | checkpoint o =>
    rcases hret.bind with ⟨err, _, hfreeze⟩ | ⟨⟨out, data⟩, e₁, hfreeze, hpure⟩
    · have hok := (freezeCkpt_returns hfreeze).2
      cases hok
    obtain ⟨rfl, rfl⟩ := hpure.pure
    obtain ⟨rfl, _⟩ := freezeCkpt_returns hfreeze
    exact ⟨⟨rfl, rfl, rfl, rfl, rfl⟩, forall_mem_singleton.mpr ⟨rfl, trivial⟩⟩

theorem start_inv {act : Act} (hret : Returns (start clock act) s.engine r e) :
    Inv { s with engine := e, threads := s.threads ++ rest r } := by
  obtain ⟨⟨hsink, hconfig, hlsn, herr, hidx⟩, hquiet⟩ := @start_quiet _ clock _ _ r act hret
  obtain ⟨segs, last, hrun, hdisk⟩ := h.running
  have hnone : (rest r).filterMap record? = [] :=
    filterMap_eq_nil_iff.mpr fun t ht => (hquiet t ht).1
  refine ⟨⟨segs, last, Running.congr hrun hsink hconfig hlsn herr, hdisk⟩, ?_, ?_, h.calls, ?_⟩
  · rw [hconfig, hidx]
    exact h.index
  · rw [filterMap_append, hnone, append_nil]
    exact h.outstanding
  · exact forall_mem_append.mpr ⟨h.valid, fun t ht => (hquiet t ht).2⟩

omit h in
/-- What a step is: a call starts, or a thread is resumed. -/
theorem step_cases {act : Act} (h : step clock s act = some s') :
    (∃ r, Returns (start clock act) s.engine r s'.engine ∧
      s' = { s with engine := s'.engine, threads := s.threads ++ rest r }) ∨
    ∃ i t r, act = .resume i ∧ s.threads[i]? = some t ∧
      Returns (t.resume clock) s.engine r s'.engine ∧
      s' = s.resumed s'.engine i t r := by
  have hstart : ∀ act, (start clock act s.engine).bind (fun out => some
      { s with engine := out.2, threads := s.threads ++ rest out.1 }) = some s' →
      ∃ r, Returns (start clock act) s.engine r s'.engine ∧
        s' = { s with engine := s'.engine, threads := s.threads ++ rest r } := by
    intro act h
    obtain ⟨⟨r, e⟩, hret, heq⟩ := Option.bind_eq_some_iff.mp h
    cases heq
    exact ⟨r, hret, rfl⟩
  cases act with
  | resume i =>
    obtain ⟨t, ht, h⟩ := Option.bind_eq_some_iff.mp h
    obtain ⟨⟨r, e⟩, hret, heq⟩ := Option.bind_eq_some_iff.mp h
    cases heq
    exact .inr ⟨i, t, r, rfl, ht, hret, rfl⟩
  | write | delete | checkpoint => exact .inl (hstart _ h)

theorem step_inv {act : Act} (hstep : step clock s act = some s') : Inv s' := by
  rcases step_cases hstep with ⟨r, hret, heq⟩ | ⟨i, t, r, _, hi, hret, heq⟩
  · rw [heq]
    exact start_inv h hret
  · rw [heq]
    exact resume_inv h hi hret

end

/-- **The invariant holds throughout every interleaving.** -/
theorem steps_inv (acts : List Act) (h : Inv s)
    (hsteps : steps clock s acts = some s') : Inv s' := by
  induction acts generalizing s with
  | nil =>
    cases hsteps
    exact h
  | cons act acts ih =>
    obtain ⟨s₁, hstep, hrest⟩ := Option.bind_eq_some_iff.mp hsteps
    exact ih (step_inv h hstep) hrest

/-- The disk only grows. -/
theorem steps_disk (acts : List Act) (hsteps : steps clock s acts = some s') :
    ∃ more, s'.disk = s.disk ++ more := by
  induction acts generalizing s with
  | nil =>
    cases hsteps
    exact ⟨[], (append_nil _).symm⟩
  | cons act acts ih =>
    obtain ⟨s₁, hstep, hrest⟩ := Option.bind_eq_some_iff.mp hsteps
    obtain ⟨more, hmore⟩ := ih hrest
    rcases step_cases hstep with ⟨r, _, heq⟩ | ⟨i, t, r, _, _, _, heq⟩
    · rw [heq] at hmore
      exact ⟨more, hmore⟩
    · rw [heq, System.resumed, append_assoc] at hmore
      exact ⟨_, hmore⟩

end Preservation

end PowerFS.Wal.Interleaving
