import PowerFS.Wal.EngineDisk
import PowerFS.Wal.IndexAlike

/-! # Running the engine

Calls made one after another. Whatever they are, the index of the engine is that of
the records on disk, every checkpoint holds the index of the first records, and the
superblock that would be loaded knows the capacity. -/
namespace PowerFS.Wal.EngineRun
open Lib.ByteString Lib.Calls Lib.FinTable Wal.Frame Payload Segment SegmentScan Index
  IndexAccounting Checkpoint Replay LogContents Superblocks Directory Engine EngineDisk Effects
  IndexAlike

/-! ## Calls -/

inductive EngineOp where
  | write (needleId : UInt64) (data : Bytes)
  | delete (needleId : UInt64)
  | resize (newSize : UInt64) (hsize : newSize ≠ 0)
  | checkpoint (o : HashOrder)

/-- The id a call makes known to the index. -/
def EngineOp.named : EngineOp → Nat
  | .write needleId _ => needleId.toNat
  | _ => 0

section Run

variable [Checksum] (clock : Nat → Int64)

/-- The engine after a call, whether it succeeded or not. -/
def step (e : WalEngine) : EngineOp → Option WalEngine
  | .write needleId data => (write clock needleId data e).map (·.2)
  | .delete needleId => (delete clock needleId e).map (·.2)
  | .resize newSize _ => (resize clock newSize e).map (·.2)
  | .checkpoint o => (checkpoint clock o e).map (·.2)

def run : WalEngine → List EngineOp → Option WalEngine
  | e, [] => some e
  | e, op :: ops => (step clock e op).bind fun e' => run e' ops

end Run

/-! ## The index of a list of records -/

/-- `idx` is the index of the records `rs` on a volume of `size` bytes, up to ages. -/
structure IndexOf (size : Nat) (rs : List Located) (idx : WalIndex) : Prop where
  alike : Alike Eq idx (applyRecords (fun _ => 0) WalIndex.empty rs)
  cursor : idx.lastLsn = (applyRecords (fun _ => 0) WalIndex.empty rs).lastLsn
  largest : idx.maxNeedleId = (applyRecords (fun _ => 0) WalIndex.empty rs).maxNeedleId
  capacity : idx.volumeSize = sizeAfter size rs
  consistent : Consistent idx
  dated : Dated idx

section IndexOf

variable {size : Nat} {rs : List Located} {idx : WalIndex}

theorem IndexOf.apply (h : IndexOf size rs idx) (r : Located) (t : Int64) :
    IndexOf size (rs ++ [r]) (applyFrame idx r.1 r.2 t).1 := by
  rw [applyFrame_effect]
  refine ⟨?_, ?_, ?_, ?_, Effect.apply_consistent _ h.consistent t, h.dated.apply _ t⟩
  · rw [applyRecords_append]
    show Alike Eq _ (applyFrame _ r.1 r.2 _).1
    rw [applyFrame_effect]
    exact h.alike.apply eq_kept _ _ _
  · rw [applyRecords_append]
    show _ = (applyFrame _ r.1 r.2 _).1.lastLsn
    rw [applyFrame_effect, Effect.apply_lastLsn, Effect.apply_lastLsn, h.cursor]
  · rw [applyRecords_append]
    show _ = (applyFrame _ r.1 r.2 _).1.maxNeedleId
    rw [applyFrame_effect, Effect.apply_maxNeedleId, Effect.apply_maxNeedleId, h.largest]
  · rw [apply_volumeSize, sizeAfter_append, h.capacity]
    rfl

/-- What the last anchor was is not part of the index of the records. -/
theorem IndexOf.setAnchor (h : IndexOf size rs idx) (anchor : Option (Nat × Nat)) :
    IndexOf size rs { idx with lastCkptAnchor := anchor } :=
  { h with alike := { h.alike with }, dated := { h.dated with } }

end IndexOf

/-- The checkpoint holds the index of the first records. -/
def Covers (config : WalEngineConfig) (rs : List Located) (data : CkptData) : Prop :=
  ∃ o segEntries idx front back, data = build o data.header segEntries idx ∧
    data.header.volumeId = config.volumeId.toNat ∧ data.header.appliedLsn = idx.lastLsn ∧
    rs = front ++ back ∧ IndexOf config.volumeSize.toNat front idx

theorem Covers.append {config : WalEngineConfig} {rs : List Located} {data : CkptData}
    (h : Covers config rs data) (qs : List Located) : Covers config (rs ++ qs) data := by
  obtain ⟨o, segEntries, idx, front, back, hdata, hid, hlsn, rfl, hidx⟩ := h
  exact ⟨o, segEntries, idx, front, back ++ qs, hdata, hid, hlsn, List.append_assoc _ _ _, hidx⟩

/-! ## The invariant of a run -/

/-- The engine agrees with the records on disk. -/
structure Traced [Checksum] (e : WalEngine) (segs : List SegContents)
    (last : SegContents) : Prop where
  running : Running e segs last
  index : IndexOf e.config.volumeSize.toNat (onDisk segs last) e.index
  bounded : e.index.volumeSize < 2 ^ 64
  nonzero : ∀ r ∈ onDisk segs last, newSize (effectOf r.1 r.2) ≠ some 0
  ckpts : ∀ c ∈ e.ckpts, ∃ data, c.2 = some data ∧ Covers e.config (onDisk segs last) data
  sbSeq : e.sbSeq.toNat ≤ e.nextLsn

/-- `sb` is the superblock that would be loaded, and it is up to date. -/
structure SbCurrent [Checksum] (e : WalEngine) (sb : Superblock) : Prop where
  newest : Newest e.superblock sb
  seq : sb.seq = e.sbSeq
  volumeId : sb.volumeId = e.config.volumeId
  volumeSize : sb.volumeSize.toNat = e.index.volumeSize

/-- The engine of a volume that was opened with `config`. -/
def Sound [Checksum] (config : WalEngineConfig) (e : WalEngine) : Prop :=
  e.config = config ∧ ∃ segs last sb, Traced e segs last ∧ SbCurrent e sb

section Steps

variable {clock : Nat → Int64} {config : WalEngineConfig} {e e' e₁ : WalEngine}
  {segs segs' : List SegContents} {last last' : SegContents} {rtype : RecordType} {payload : Bytes}
  {off : Nat} {sb : Superblock} {data : CkptData} {r : Except EngineError Unit}

/-- Only one kind of record sets the capacity. -/
theorem newSize_eq_none (segId : Nat) {f : ScannedFrame} (h : f.fmeta.rtype ≠ .volumeMeta) :
    newSize (effectOf segId f) = none := by
  fun_cases effectOf <;> first | rfl | exact absurd ‹_› h

theorem reportAs_fst {α : Type} (err : ReplayError) (out : WalIndex × Except IndexError α) :
    (reportAs err out).1 = out.1 := by
  unfold reportAs
  split <;> rfl

theorem applyIndex_returns {α : Type} {f : WalIndex → WalIndex × Except IndexError α}
    {r : Except EngineError α} (h : Returns (applyIndex f) e r e') :
    e' = { e with index := (f e.index).1 } ∧ ∀ a, (f e.index).2 = .ok a → r = .ok a := by
  unfold Returns applyIndex at h
  split at h
  · rename_i a ha
    cases h
    refine ⟨rfl, ?_⟩
    intro b hb
    rw [ha] at hb
    rw [Except.ok.inj hb]
  · rename_i err ha
    cases h
    refine ⟨rfl, ?_⟩
    intro b hb
    rw [ha] at hb
    cases hb

theorem admitWrite_returns {data : Bytes} (h : Returns (admitWrite data) e r e') : e' = e := by
  have h := h.get_bind
  dsimp only at h
  split at h
  · exact h.fail.2
  split at h
  · exact h.fail.2
  · exact h.pure.2

theorem admitDelete_returns {needleId : UInt64} {r : Except EngineError DeletePayload}
    (h : Returns (admitDelete clock needleId) e r e') : e' = { e with ticks := e'.ticks } := by
  have h := h.get_bind
  split at h
  · obtain ⟨_, rfl⟩ := h.fail
    rfl
  · obtain ⟨_, rfl⟩ := (now_bind h).pure
    rfl

theorem freezeCkpt_returns {o : HashOrder} {r : Except EngineError (CkptOutcome × CkptData)}
    (h : Returns (freezeCkpt clock o) e r e') :
    e' = { e with nextCkptSeq := e.nextCkptSeq + 1, ticks := e.ticks + 1 } ∧
    r = .ok (⟨e.nextCkptSeq, e.index.lastLsn⟩, freeze o e' e.nextCkptSeq (clock e.ticks)) := by
  obtain ⟨rfl, rfl⟩ := (now_bind h.get_bind.modify_bind).get_bind.pure
  exact ⟨rfl, rfl⟩

theorem storeCkpt_returns {out : CkptOutcome}
    (h : Returns (storeCkpt out data) e r e') (hhealthy : e.commitError = none) :
    e' = { e with ckpts := insertCkpt e.ckpts out.ckptSeq data } ∧ r = .ok () := by
  have h := h.get_bind
  split at h
  · rename_i err herr
    rw [hhealthy] at herr
    cases herr
  · obtain ⟨rfl, rfl⟩ := h.modify
    exact ⟨rfl, rfl⟩

variable [Checksum]

theorem Stored.congr (h : Stored e segs last) (hsink : e'.sink = e.sink)
    (hconfig : e'.config = e.config) : Stored e' segs last := by
  obtain ⟨h1, h2, h3, h4, h5, h6, h7, h8, h9, h10⟩ := h
  rw [← hsink] at h1 h2 h3 h4 h5 h7
  rw [← hconfig] at h5 h6
  exact ⟨h1, h2, h3, h4, h5, h6, h7, h8, h9, h10⟩

theorem Running.congr (h : Running e segs last) (hsink : e'.sink = e.sink)
    (hconfig : e'.config = e.config) (hlsn : e'.nextLsn = e.nextLsn)
    (herr : e'.commitError = e.commitError) : Running e' segs last :=
  ⟨Stored.congr h.stored hsink hconfig, hlsn ▸ h.below, hlsn ▸ h.started, hlsn ▸ h.bounded,
    hlsn ▸ h.idBound, herr ▸ h.healthy⟩

/-! ## Records -/

theorem engineRecord_data (q : DataPayload) : EngineRecord .data q.encode := by
  refine ⟨by decide, ?_⟩
  intro hshort off lsn
  refine ⟨q, ?_, rfl⟩
  simp only [DataPayload.encode, List.length_append] at hshort
  omega

theorem engineRecord_delete (q : DeletePayload) : EngineRecord .delete q.encode :=
  ⟨by decide, fun _ _ _ => ⟨q, rfl⟩⟩

theorem engineRecord_anchor (q : CkptAnchorPayload) : EngineRecord .ckptAnchor q.encode :=
  ⟨by decide, fun _ _ _ => ⟨q, rfl⟩⟩

theorem engineRecord_volumeSize (newSize : UInt64) :
    EngineRecord .volumeMeta (VolumeMetaPayload.volumeSize newSize) :=
  ⟨by decide, fun _ _ _ => ⟨newSize, rfl⟩⟩

theorem named_data (segId off : Nat) (lsn : UInt64) (q : DataPayload) :
    (effectOf segId (frameOf off .data 0 lsn q.encode)).named ≤ q.needleId.toNat := by
  have hid : ofLE (slice q.encode 0 8) = q.needleId.toNat := by
    rw [DataPayload.encode, slice_head (by simp), ofLE_toLE_u64]
  dsimp only [effectOf, frameOf]
  split
  · exact Nat.zero_le _
  split
  · exact Nat.zero_le _
  · exact hid.le

theorem named_delete (segId off : Nat) (lsn : UInt64) (q : DeletePayload) :
    (effectOf segId (frameOf off .delete 0 lsn q.encode)).named = 0 := by
  dsimp only [effectOf, frameOf]
  split <;> rfl

/-- **One more record**: the engine took it and its index is that of the records with it. -/
theorem Traced.enqueued (h : Traced e segs last)
    (henq : Enqueued e e₁ segs segs' last last' rtype payload off) {idx : WalIndex}
    (hidx : IndexOf e.config.volumeSize.toNat (onDisk segs' last') idx)
    (hsize : ∀ n, newSize (effectOf last'.segId (frameOf off rtype 0
      (UInt64.ofNat e.nextLsn) payload)) = some n → n ≠ 0 ∧ n < 2 ^ 64) (ticks : Nat) :
    Traced { e₁ with ticks := ticks, index := idx } segs' last' := by
  obtain ⟨⟨sink, _, rfl⟩, hrun, hdisk⟩ := henq
  refine ⟨Running.congr hrun rfl rfl rfl rfl, hidx, ?_, ?_, ?_, ?_⟩
  · have hkeep := h.bounded
    rw [h.index.capacity] at hkeep
    rw [hidx.capacity, hdisk, sizeAfter_append]
    simp only [sizeAfter, List.foldl_cons, List.foldl_nil]
    cases hn : newSize (effectOf last'.segId (frameOf off rtype 0
      (UInt64.ofNat e.nextLsn) payload)) with
    | none => exact hkeep
    | some n => exact (hsize n hn).2
  · rw [hdisk]
    exact List.forall_mem_append.mpr
      ⟨h.nonzero, List.forall_mem_singleton.mpr fun hzero => (hsize 0 hzero).1 rfl⟩
  · intro c hc
    obtain ⟨data, hdata, hcov⟩ := h.ckpts c hc
    rw [hdisk]
    exact ⟨data, hdata, hcov.append _⟩
  · exact Nat.le_succ_of_le h.sbSeq

/-- The same, where the index applied what replay would apply. -/
theorem Traced.applied (h : Traced e segs last)
    (henq : Enqueued e e₁ segs segs' last last' rtype payload off)
    (hsize : ∀ n, newSize (effectOf last'.segId (frameOf off rtype 0
      (UInt64.ofNat e.nextLsn) payload)) = some n → n ≠ 0 ∧ n < 2 ^ 64) (ticks : Nat) (t : Int64) :
    Traced { e₁ with
      ticks := ticks
      index := (applyFrame e.index last'.segId (frameOf off rtype 0
        (UInt64.ofNat e.nextLsn) payload) t).1 } segs' last' := by
  refine h.enqueued henq ?_ hsize ticks
  rw [henq.2.2]
  exact h.index.apply _ t

/-- A record that is not about the capacity leaves the superblock up to date. -/
theorem Sound.record (hconfig : e.config = config) (h : Traced e segs last) (hsb : SbCurrent e sb)
    (henq : Enqueued e e₁ segs segs' last last' rtype payload off)
    (hr : rtype ≠ .volumeMeta) (ticks : Nat) (t : Int64) :
    Sound config { e₁ with
      ticks := ticks
      index := (applyFrame e.index last'.segId (frameOf off rtype 0
        (UInt64.ofNat e.nextLsn) payload) t).1 } := by
  have hnone : newSize (effectOf last'.segId (frameOf off rtype 0
      (UInt64.ofNat e.nextLsn) payload)) = none := newSize_eq_none _ hr
  refine ⟨?_, segs', last', sb, h.applied henq ?_ ticks t, ?_⟩
  · obtain ⟨⟨sink, _, rfl⟩, _, _⟩ := henq
    exact hconfig
  · intro n hn
    rw [hnone] at hn
    cases hn
  · obtain ⟨⟨sink, _, rfl⟩, _, _⟩ := henq
    refine { hsb with volumeSize := ?_ }
    rw [applyFrame_effect, apply_volumeSize, hnone]
    exact hsb.volumeSize

/-! ## What the calls tell the index -/

/-- What the engine tells its index about a record is what replay tells it. -/
theorem applyData_receipt (idx : WalIndex) (segId off : Nat) {lsn : Nat} (hlsn : lsn < 2 ^ 64)
    (payload : Bytes) (t : Int64) :
    (idx.applyData (CommitReceipt.place ⟨lsn, placed segId off .data lsn payload⟩) payload t).1 =
      (applyFrame idx segId (frameOf off .data 0 (UInt64.ofNat lsn) payload) t).1 := by
  have hplace : CommitReceipt.place ⟨lsn, placed segId off .data lsn payload⟩ =
      placeOf segId (frameOf off .data 0 (UInt64.ofNat lsn) payload).fmeta := by
    simp [CommitReceipt.place, placed, placeOf, frameOf, UInt64.toNat_ofNat_of_lt' hlsn]
  rw [hplace]
  exact (reportAs_fst _ _).symm

theorem applyDelete_receipt (idx : WalIndex) (segId off : Nat) {lsn : Nat} (hlsn : lsn < 2 ^ 64)
    (payload : Bytes) (t : Int64) :
    (idx.applyDelete lsn payload).1 =
      (applyFrame idx segId (frameOf off .delete 0 (UInt64.ofNat lsn) payload) t).1 := by
  have hnat : (UInt64.ofNat lsn).toNat = lsn := UInt64.toNat_ofNat_of_lt' hlsn
  refine Eq.trans ?_ (reportAs_fst _ _).symm
  show _ = (idx.applyDelete (UInt64.ofNat lsn).toNat payload).1
  rw [hnat]

/-! ## Write and delete -/

/-- The index has the record that was enqueued, as replay would apply it. -/
theorem applyWritten_returns {segId off lsn : Nat} (hlsn : lsn < 2 ^ 64) {payload : DataPayload}
    (h : Returns (applyWritten clock
      ⟨lsn, placed segId off .data lsn payload.encode⟩ payload) e r e') :
    e' = { e with
      ticks := e.ticks + 1
      index := (applyFrame e.index segId (frameOf off .data 0 (UInt64.ofNat lsn)
        payload.encode) (clock e.ticks)).1 } := by
  have h := (applyIndex_returns (now_bind h)).1
  rw [applyData_receipt _ _ _ hlsn] at h
  exact h

theorem applyDeleted_returns {segId off lsn : Nat} (hlsn : lsn < 2 ^ 64) {payload : DeletePayload}
    (h : Returns (applyDeleted ⟨lsn, placed segId off .delete lsn payload.encode⟩ payload) e r e') :
    e' = { e with
      index := (applyFrame e.index segId (frameOf off .delete 0 (UInt64.ofNat lsn)
        payload.encode) 0).1 } := by
  have h := (applyIndex_returns h).1
  rw [@applyDelete_receipt _ _ segId off _ hlsn _ 0] at h
  exact h

theorem write_sound (h : Sound config e) {needleId : UInt64} {data : Bytes}
    {r : Except EngineError CommitReceipt}
    (hret : Returns (write clock needleId data) e r e') : Sound config e' ∧
      e'.index.maxNeedleId ≤ max e.index.maxNeedleId needleId.toNat := by
  obtain ⟨hconfig, segs, last, sb, htr, hsb⟩ := h
  rcases hret.bind with ⟨err, _, hadmit⟩ | ⟨_, e₀, hadmit, henqueue⟩
  · obtain rfl := admitWrite_returns hadmit
    exact ⟨⟨hconfig, segs, last, sb, htr, hsb⟩, le_max_left _ _⟩
  obtain rfl := admitWrite_returns hadmit
  rcases enqueue_bind htr.running (engineRecord_data _) henqueue with
    ⟨rfl, _⟩ | ⟨segs', last', off, e₁, henq, hrest⟩
  · exact ⟨⟨hconfig, segs, last, sb, htr, hsb⟩, le_max_left _ _⟩
  obtain ⟨_, happly⟩ := hrest.bind_pure
  rw [applyWritten_returns htr.running.bounded happly, henq.index_eq]
  refine ⟨Sound.record hconfig htr hsb henq (by decide) _ _, ?_⟩
  dsimp only
  rw [applyFrame_effect, Effect.apply_maxNeedleId]
  exact max_le_max_left _ (named_data _ _ _ _)

theorem delete_sound (h : Sound config e) {needleId : UInt64} {r : Except EngineError CommitReceipt}
    (hret : Returns (delete clock needleId) e r e') : Sound config e' ∧
      e'.index.maxNeedleId = e.index.maxNeedleId := by
  obtain ⟨hconfig, segs, last, sb, htr, hsb⟩ := h
  -- the clock is read before the record is enqueued
  have hlater : ∀ ticks, Traced { e with ticks := ticks } segs last ∧
      SbCurrent { e with ticks := ticks } sb := fun ticks =>
    ⟨{ htr with running := Running.congr htr.running rfl rfl rfl rfl }, { hsb with }⟩
  rcases hret.bind with ⟨err, _, hadmit⟩ | ⟨payload, e₀, hadmit, hret⟩
  · rw [admitDelete_returns hadmit]
    exact ⟨⟨hconfig, segs, last, sb, (hlater _).1, (hlater _).2⟩, rfl⟩
  rw [admitDelete_returns hadmit] at hret
  rcases enqueue_bind (hlater _).1.running (engineRecord_delete _) hret with
    ⟨rfl, _⟩ | ⟨segs', last', off, e₁, henq, hrest⟩
  · exact ⟨⟨hconfig, segs, last, sb, (hlater _).1, (hlater _).2⟩, rfl⟩
  obtain ⟨_, happly⟩ := hrest.bind_pure
  rw [applyDeleted_returns htr.running.bounded happly, henq.index_eq]
  refine ⟨Sound.record (e := { e with ticks := e₀.ticks }) hconfig (hlater _).1 (hlater _).2 henq
    (by decide) _ _, ?_⟩
  dsimp only
  rw [applyFrame_effect, Effect.apply_maxNeedleId, named_delete, Nat.max_zero]

/-! ## Superblock, resize and checkpoint -/

/-- The superblock that the engine stores next. -/
def nextSuperblock (e : WalEngine) (latestCkptSeq : Nat) (t : Int64) : Superblock where
  seq := e.sbSeq + 1
  volumeId := e.config.volumeId
  latestCkptSeq := UInt64.ofNat latestCkptSeq
  activeSegId := e.sink.writer.header.segId
  activeSegSize := UInt64.ofNat e.config.segSize
  volumeSize := UInt64.ofNat e.index.volumeSize
  state := if 0 < e.index.volumeSize ∧ e.index.volumeSize ≤ occupiedBytes e.index.stats
    then volumeStateFull else 0
  createdTs := e.sbCreatedTs
  lastMountTs := t
  minLiveSnapshotLsn := 0

theorem storeSuperblock_eq (n : Nat) : storeSuperblock clock n e =
    (e.superblock.store (nextSuperblock e n (clock e.ticks))).map fun copies =>
      (.ok (), { e with
        sbSeq := e.sbSeq + 1, ticks := e.ticks + 1, superblock := copies }) := by
  refine (bind_eq rfl).trans ((bind_eq rfl).trans ((bind_eq rfl).trans ?_))
  dsimp only [nextSuperblock]
  generalize e.superblock.store _ = stored
  cases stored with
  | none | some => rfl

/-- Storing the superblock never fails. -/
theorem storeSuperblock_bind {n : Nat} {α : Type} {f : Unit → EngineM α}
    {r : Except EngineError α} (h : Returns (storeSuperblock clock n >>= f) e r e') :
    ∃ e₁, Returns (storeSuperblock clock n) e (.ok ()) e₁ ∧ Returns (f ()) e₁ r e' := by
  rcases h.bind with ⟨err, _, hfail⟩ | ⟨_, e₁, hok, hrest⟩
  · rw [Returns, storeSuperblock_eq] at hfail
    obtain ⟨_, _, habs⟩ := Option.map_eq_some_iff.mp hfail
    cases habs
  · exact ⟨e₁, hok, hrest⟩

/-- Storing the superblock brings it up to date. The copies on disk are whole and older. -/
theorem storeSuperblock_sound (h : Traced e segs last) (hlsn : e.sbSeq.toNat < e.nextLsn)
    {x y : Option Superblock} (hpair : e.superblock = .ofPair x y)
    (hx : ∀ z, x = some z → z.seq ≤ e.sbSeq) (hy : ∀ z, y = some z → z.seq ≤ e.sbSeq) (n : Nat) :
    ∃ copies, storeSuperblock clock n e = some (.ok (), { e with
        sbSeq := e.sbSeq + 1, ticks := e.ticks + 1, superblock := copies }) ∧
      Traced { e with
        sbSeq := e.sbSeq + 1, ticks := e.ticks + 1, superblock := copies } segs last ∧
      ∃ sb, SbCurrent { e with
        sbSeq := e.sbSeq + 1, ticks := e.ticks + 1, superblock := copies } sb := by
  have hsucc : (e.sbSeq + 1).toNat = e.sbSeq.toNat + 1 := by
    have hbound := h.running.bounded
    rw [UInt64.toNat_add]
    exact Nat.mod_eq_of_lt (by simpa using by omega)
  have hnewer : ∀ w : Option Superblock, (∀ z, w = some z → z.seq ≤ e.sbSeq) →
      ∀ z, w = some z → z.seq < (nextSuperblock e n (clock e.ticks)).seq := by
    intro w hw z hz
    have hle := UInt64.le_iff_toNat_le.mp (hw z hz)
    refine UInt64.lt_iff_toNat_lt.mpr ?_
    show z.seq.toNat < (e.sbSeq + 1).toNat
    omega
  obtain ⟨copies, hstore, hnew⟩ := store_newest x y (nextSuperblock e n (clock e.ticks))
    (hnewer x hx) (hnewer y hy)
  refine ⟨copies, ?_, ?_, _, hnew, rfl, rfl, ?_⟩
  · rw [storeSuperblock_eq, hpair, hstore]
    rfl
  · refine { h with running := Running.congr h.running rfl rfl rfl rfl, sbSeq := ?_ }
    show (e.sbSeq + 1).toNat ≤ e.nextLsn
    omega
  · exact UInt64.toNat_ofNat_of_lt' h.bounded

/-- The same for an engine that has just taken a record and whose superblock was up to
date before. -/
theorem Traced.storeAgain (h : Traced e' segs last)
    (hlsn : e'.sbSeq.toNat < e'.nextLsn) (hsb : SbCurrent e sb)
    (hcopies : e'.superblock = e.superblock) (hseq : e'.sbSeq = e.sbSeq) {n : Nat} {e'' : WalEngine}
    (hret : Returns (storeSuperblock clock n) e' r e'') :
    ∃ sb', (e''.config = e'.config ∧ e''.index = e'.index) ∧ Traced e'' segs last ∧
      SbCurrent e'' sb' := by
  obtain ⟨_, x, y, hpair, hx, hy⟩ := hsb.newest
  rw [hsb.seq, ← hseq] at hx hy
  obtain ⟨copies, heq, htr, sb', hsb'⟩ :=
    @storeSuperblock_sound clock e' segs last _ h hlsn x y (hcopies.trans hpair) hx hy n
  rw [Returns, heq] at hret
  cases hret
  exact ⟨sb', ⟨rfl, rfl⟩, htr, hsb'⟩

theorem effectOf_volumeSize (segId off : Nat) (lsn newVolumeSize : UInt64) :
    effectOf segId (frameOf off .volumeMeta 0 lsn
      (VolumeMetaPayload.volumeSize newVolumeSize)) = .volume lsn.toNat newVolumeSize.toNat := by
  dsimp only [effectOf, frameOf]
  rw [decode_volumeSize]
  dsimp only
  rw [takeVolumeSize_volumeSize]

theorem resize_sound (h : Sound config e) {newVolumeSize : UInt64} (hne : newVolumeSize ≠ 0)
    {r : Except EngineError CommitReceipt}
    (hret : Returns (resize clock newVolumeSize) e r e') : Sound config e' ∧
      e'.index.maxNeedleId = e.index.maxNeedleId := by
  obtain ⟨hconfig, segs, last, sb, htr, hsb⟩ := h
  have hret := hret.get_bind
  dsimp only at hret
  split at hret
  · obtain ⟨_, rfl⟩ := hret.fail
    exact ⟨⟨hconfig, segs, last, sb, htr, hsb⟩, rfl⟩
  rcases enqueue_bind htr.running (engineRecord_volumeSize _) hret with
    ⟨rfl, _⟩ | ⟨segs', last', off, e₁, henq, hrest⟩
  · exact ⟨⟨hconfig, segs, last, sb, htr, hsb⟩, rfl⟩
  have hsize : ∀ n, newSize (effectOf last'.segId (frameOf off .volumeMeta 0
      (UInt64.ofNat e.nextLsn) (VolumeMetaPayload.volumeSize newVolumeSize))) = some n →
      n ≠ 0 ∧ n < 2 ^ 64 := by
    rw [effectOf_volumeSize]
    rintro n ⟨⟩
    exact ⟨fun hz => hne (UInt64.toNat_inj.mp hz), newVolumeSize.toNat_lt⟩
  have htr₁ := htr.applied henq hsize e₁.ticks 0
  rw [applyFrame_effect, effectOf_volumeSize, UInt64.toNat_ofNat_of_lt' htr.running.bounded] at htr₁
  rcases hrest.bind with ⟨err, _, happ⟩ | ⟨_, e₂, happ, hstore⟩
  · have hok := (applyIndex_returns happ).2 newVolumeSize.toNat (by rw [volumeSize_applies])
    cases hok
  have he₂ := (applyIndex_returns happ).1
  rw [volumeSize_applies, henq.index_eq] at he₂
  obtain ⟨e₃, hstore, hpure⟩ := storeSuperblock_bind hstore.get_bind
  obtain ⟨_, rfl⟩ := hpure.pure
  obtain ⟨⟨sink, ticks, rfl⟩, _, _⟩ := henq
  have htr₂ : Traced e₂ segs' last' := he₂ ▸ htr₁
  have hlsn : e₂.sbSeq.toNat < e₂.nextLsn := by
    rw [he₂]
    exact Nat.lt_succ_of_le htr.sbSeq
  obtain ⟨sb', hkeep, htr', hsb'⟩ :=
    htr₂.storeAgain hlsn hsb (by rw [he₂]) (by rw [he₂]) hstore
  refine ⟨⟨?_, segs', last', sb', htr', hsb'⟩, ?_⟩
  · rw [hkeep.1, he₂]
    exact hconfig
  · rw [hkeep.2, he₂]
    rfl

/-- The frozen index covers all records that are on disk. -/
theorem freeze_covers (h : Traced e segs last) (o : HashOrder) (ckptSeq : Nat) (t : Int64) :
    Covers e.config (onDisk segs last) (freeze o e ckptSeq t) :=
  ⟨o, _, e.index, onDisk segs last, [], rfl, rfl, rfl, (List.append_nil _).symm, h.index⟩

theorem Traced.addCkpt (h : Traced e segs last)
    (hdata : Covers e.config (onDisk segs last) data) (seq : Nat) :
    Traced { e with ckpts := insertCkpt e.ckpts seq data } segs last := by
  refine { h with running := Running.congr h.running rfl rfl rfl rfl, ckpts := ?_ }
  intro c hc
  rcases mem_insertCkpt hc with hc | rfl
  · exact h.ckpts c hc
  · exact ⟨data, rfl, hdata⟩

/-- An anchor record moves the cursor, online and in replay. -/
theorem IndexOf.anchor {size : Nat} {rs : List Located} {idx : WalIndex}
    (h : IndexOf size rs idx) (segId off : Nat) {lsn : Nat} (hlsn : lsn < 2 ^ 64)
    (q : CkptAnchorPayload) (ckptSeq appliedLsn : Nat) :
    IndexOf size (rs ++ [(segId, frameOf off .ckptAnchor 0 (UInt64.ofNat lsn) q.encode)])
      (idx.applyCkptAnchor ckptSeq appliedLsn lsn) := by
  have hlen : q.encode.length = 16 := by simp [CkptAnchorPayload.encode]
  have happly := h.apply (segId, frameOf off .ckptAnchor 0 (UInt64.ofNat lsn) q.encode) 0
  have hframe : ∃ a b, (applyFrame idx segId
      (frameOf off .ckptAnchor 0 (UInt64.ofNat lsn) q.encode) 0).1 =
      idx.applyCkptAnchor a b lsn := by
    refine ⟨ofLE (slice q.encode 0 8), ofLE (slice q.encode 8 16), ?_⟩
    rw [applyFrame_effect]
    show Effect.apply idx 0 (if q.encode.length = 16 then .anchor (UInt64.ofNat lsn).toNat
      (ofLE (slice q.encode 0 8)) (ofLE (slice q.encode 8 16)) else .nothing) = _
    rw [if_pos hlen, UInt64.toNat_ofNat_of_lt' hlsn]
    rfl
  obtain ⟨a, b, hframe⟩ := hframe
  rw [hframe] at happly
  obtain ⟨x, hx⟩ := idx.applyCkptAnchor_eq a b lsn
  obtain ⟨y, hy⟩ := idx.applyCkptAnchor_eq ckptSeq appliedLsn lsn
  rw [hx] at happly
  rw [hy]
  exact happly.setAnchor y

/-- The next record is behind all that the index has seen. -/
theorem Traced.cursor_lt (h : Traced e segs last) : e.index.lastLsn < e.nextLsn := by
  rw [h.index.cursor]
  exact applyRecords_below _ _ _ _ h.running.started h.running.below
    h.running.stored.wellFormed.engineRecords

/-- A checkpoint keeps the engine sound and, but for its anchor, the index as it is. -/
theorem checkpoint_sound (h : Sound config e) {o : HashOrder}
    {r : Except EngineError CkptOutcome} (hret : Returns (checkpoint clock o) e r e') :
    Sound config e' ∧ e.index.lastLsn < e'.index.lastLsn ∧
    ∃ lsn anchor, e'.index = { e.index with lastLsn := lsn, lastCkptAnchor := anchor } := by
  obtain ⟨hconfig, segs, last, sb, htr, hsb⟩ := h
  have htr₀ : Traced { e with nextCkptSeq := e.nextCkptSeq + 1, ticks := e.ticks + 1 }
      segs last := { htr with running := Running.congr htr.running rfl rfl rfl rfl }
  rcases hret.bind with ⟨err, _, hfreeze⟩ | ⟨⟨out, data⟩, e₀, hfreeze, hret⟩
  · have hok := (freezeCkpt_returns hfreeze).2
    cases hok
  obtain ⟨rfl, hok⟩ := freezeCkpt_returns hfreeze
  cases hok
  rcases hret.bind with ⟨err, _, hstore⟩ | ⟨_, e₁, hstore, hret⟩
  · have hok := (storeCkpt_returns hstore htr.running.healthy).2
    cases hok
  obtain ⟨rfl, _⟩ := storeCkpt_returns hstore htr.running.healthy
  have htr₁ := htr₀.addCkpt (freeze_covers htr₀ o e.nextCkptSeq (clock e.ticks)) e.nextCkptSeq
  rcases enqueue_bind htr₁.running (engineRecord_anchor _) hret with
    ⟨_, hlong, _⟩ | ⟨segs', last', off, e₁, henq, hrest⟩
  · simp [CkptAnchorPayload.encode] at hlong
  have hidx := @IndexOf.anchor _ _ _ _ htr₁.index last'.segId off _ htr.running.bounded
    (CkptOutcome.anchor ⟨e.nextCkptSeq, e.index.lastLsn⟩) e.nextCkptSeq e.index.lastLsn
  rw [← henq.2.2] at hidx
  have htr₂ := htr₁.enqueued henq hidx (by
    rw [newSize_eq_none _ (by show RecordType.ckptAnchor ≠ _; decide)]
    rintro n ⟨⟩) e₁.ticks
  obtain ⟨⟨sink, ticks, rfl⟩, _, _⟩ := henq
  have hlsn : e.sbSeq.toNat < e.nextLsn + 1 := Nat.lt_succ_of_le htr.sbSeq
  obtain ⟨_, hfinish⟩ := hrest.modify_bind.bind_pure
  obtain ⟨e₂, hstore, hlast⟩ := storeSuperblock_bind hfinish
  obtain ⟨sb', hkeep, htr', hsb'⟩ := htr₂.storeAgain hlsn hsb rfl rfl hstore
  obtain ⟨_, rfl⟩ := hlast.modify
  refine ⟨⟨hkeep.1.trans hconfig, segs', last', sb',
    { htr' with running := Running.congr htr'.running rfl rfl rfl rfl }, { hsb' with }⟩, ?_⟩
  obtain ⟨anchor, heq⟩ :=
    e.index.applyCkptAnchor_eq e.nextCkptSeq e.index.lastLsn e.nextLsn
  refine ⟨?_, _, anchor, hkeep.2.trans heq⟩
  show e.index.lastLsn < e₂.index.lastLsn
  rw [hkeep.2.trans heq]
  exact lt_max_of_lt_right htr.cursor_lt

end Steps

/-! ## Whole runs -/

section Runs

variable [Checksum] {clock : Nat → Int64} {config : WalEngineConfig} {e e' : WalEngine}

/-- A call keeps the engine sound, whether it succeeds or not, and the index knows no id that
it has not been told. -/
theorem step_sound (h : Sound config e) {op : EngineOp}
    (hstep : step clock e op = some e') : Sound config e' ∧
      e'.index.maxNeedleId ≤ max e.index.maxNeedleId op.named := by
  cases op with
  | write needleId data =>
    obtain ⟨⟨r, _⟩, hret, rfl⟩ := Option.map_eq_some_iff.mp hstep
    exact write_sound h hret
  | delete needleId =>
    obtain ⟨⟨r, _⟩, hret, rfl⟩ := Option.map_eq_some_iff.mp hstep
    obtain ⟨hs, hid⟩ := delete_sound h hret
    exact ⟨hs, hid ▸ le_max_left _ _⟩
  | resize newSize hsize =>
    obtain ⟨⟨r, _⟩, hret, rfl⟩ := Option.map_eq_some_iff.mp hstep
    obtain ⟨hs, hid⟩ := resize_sound h hsize hret
    exact ⟨hs, hid ▸ le_max_left _ _⟩
  | checkpoint o =>
    obtain ⟨⟨r, _⟩, hret, rfl⟩ := Option.map_eq_some_iff.mp hstep
    obtain ⟨hs, -, _, _, hidx⟩ := checkpoint_sound h hret
    refine ⟨hs, ?_⟩
    rw [hidx]
    exact le_max_left _ _

/-- **Every run keeps the engine sound.** -/
theorem run_sound (ops : List EngineOp) (h : Sound config e)
    (hrun : run clock e ops = some e') : Sound config e' ∧
      ∀ bound, e.index.maxNeedleId < bound → (∀ op ∈ ops, op.named < bound) →
        e'.index.maxNeedleId < bound := by
  induction ops generalizing e with
  | nil =>
    cases hrun
    exact ⟨h, fun _ he _ => he⟩
  | cons op ops ih =>
    obtain ⟨e₁, hstep, hrest⟩ := Option.bind_eq_some_iff.mp hrun
    obtain ⟨h₁, hid⟩ := step_sound h hstep
    obtain ⟨h', hids⟩ := ih h₁ hrest
    refine ⟨h', fun bound he hops => hids bound (hid.trans_lt ?_) fun o ho => hops o (by simp [ho])⟩
    exact max_lt he (hops op (by simp))

theorem close_sound {o : HashOrder} (h : Sound config e) (hclose : close clock o e = some e') :
    Sound config e' ∧
    (e'.index.lastLsn = e.index.lastLsn ↔ config.ckptOnClose = false) ∧
    ∃ lsn anchor, e'.index = { e.index with lastLsn := lsn, lastCkptAnchor := anchor } := by
  unfold close at hclose
  rw [h.1] at hclose
  split at hclose
  · rename_i hon
    obtain ⟨⟨r, _⟩, hret, rfl⟩ := Option.map_eq_some_iff.mp hclose
    obtain ⟨hs, hlt, hidx⟩ := checkpoint_sound h hret
    exact ⟨hs, by simp [hon, hlt.ne'], hidx⟩
  · rename_i hoff
    cases hclose
    exact ⟨h, by simpa using hoff, _, _, rfl⟩

end Runs

end PowerFS.Wal.EngineRun
