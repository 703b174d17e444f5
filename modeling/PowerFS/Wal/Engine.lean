import PowerFS.Lib.Calls
import PowerFS.Wal.Directory

/-! # The engine

`wal/engine.rs`: segments that roll over, the index, checkpoints and the superblock,
put together. A call runs alone here and returns when its record is durable or
accepted; how concurrent calls share a sync is the business of the commit queue. No sync
fails here: the worker of the queue never reports an error of its own.

The clock is a sequence of readings; `ticks` counts the ones used up. `none` stands for
a call that does not return: a wait that never ends, or an overflow of the LSN
counter. -/
namespace PowerFS.Wal.Engine
open Lib.ByteString Lib.FinTable Lib.Calls Wal.Frame Payload Index Checkpoint Segment Replay
  Superblocks Directory

/-- `exceedsRatio dead live` is the floating-point test `dead / live > ratio`. -/
structure GcConfig where
  exceedsRatio : Nat → Nat → Bool
  minBytes : Nat

structure WalEngineConfig where
  segSize : Nat
  volumeId : UInt64
  preallocate : Bool
  recoveryMode : RecoveryMode
  verifyOnRead : Bool
  /-- The byte budget of the commit queue. -/
  maxDirtyBytes : Nat
  ckptOnClose : Bool
  volumeSize : UInt64
  gc : GcConfig
  tombstoneRetentionSecs : Int64

inductive SinkError where
  | exceedsCapacity (bytes segSize : Nat)
  | segment (e : SegmentError)
  deriving DecidableEq, Repr

inductive CommitError where
  | payloadTooLarge (got : Nat)
  | sink (e : SinkError)
  deriving DecidableEq, Repr

inductive EngineError where
  | io
  | segment (e : SegmentError)
  | replay (e : ReplayError)
  | index (e : IndexError)
  | commit (e : CommitError)
  | superblock (e : SbError)
  | volumeIdMismatch (sb got : UInt64)
  | notFound (needleId : Nat)
  | recordTooLarge (need segSize : Nat)
  | resizeTooSmall (requested required : Nat)
  | volumeFull (volumeSize occupied need : Nat)
  deriving DecidableEq, Repr

structure SegSink where
  /-- The segment files before the active one. -/
  older : List SegFile
  writer : SegWriter
  manifest : SegManifest

structure WalEngine where
  config : WalEngineConfig
  sink : SegSink
  ckpts : List (Nat × Option CkptData)
  superblock : SbCopies
  index : WalIndex
  nextLsn : Nat
  /-- Set by a failed append; from then on the queue refuses every record. -/
  commitError : Option CommitError
  nextNeedleId : Nat
  nextCkptSeq : Nat
  sbSeq : UInt64
  sbCreatedTs : Int64
  lastCkptLsn : Nat
  lastCkptSeq : Nat
  ticks : Nat

structure Placement where
  segId : Nat
  offset : Nat
  crc : UInt32
  payloadLen : UInt32
  deriving DecidableEq, Repr

structure CommitReceipt where
  lsn : Nat
  placement : Placement
  deriving DecidableEq, Repr

structure CkptOutcome where
  ckptSeq : Nat
  appliedLsn : Nat
  deriving DecidableEq, Repr

def occupiedBytes (st : IndexStats) : Nat := st.usedBytes + st.stagingBytes + st.pinnedBytes

namespace SegSink

def activeSegId (s : SegSink) : Nat := s.writer.header.segId.toNat

/-- The active segment as a file. -/
def activeFile (s : SegSink) : SegFile := ⟨s.activeSegId, s.writer.file⟩

def files (s : SegSink) : List SegFile := s.older ++ [s.activeFile]

end SegSink

namespace WalEngine

/-- The directory. -/
def volume (e : WalEngine) : Volume := ⟨e.sink.files, e.ckpts, e.superblock⟩

end WalEngine

abbrev EngineM := Call WalEngine EngineError

/-- Where the index is told that a record is. -/
def CommitReceipt.place (r : CommitReceipt) : WalIndex.Place :=
  ⟨r.placement.segId, r.placement.offset, r.placement.crc, r.lsn⟩

section Engine

variable (clock : Nat → Int64)

def now {ε : Type} : Call WalEngine ε Int64 := fun e =>
  some (.ok (clock e.ticks), { e with ticks := e.ticks + 1 })

theorem now_bind {ε β : Type} {clock : Nat → Int64} {f : Int64 → Call WalEngine ε β}
    {e e' : WalEngine} {r : Except ε β} (h : Returns (now clock >>= f) e r e') :
    Returns (f (clock e.ticks)) { e with ticks := e.ticks + 1 } r e' := h

variable [Checksum]

/-! ## The sink -/

/-- Seal the active segment and open the next one. -/
def roll (nextLsn : Nat) : Call WalEngine SinkError Unit := do
  Call.modify fun e =>
    { e with sink := { e.sink with writer := e.sink.writer.sealSegment } }
  let t ← now clock
  let e ← Call.get
  let segId := SegManifest.nextSegId e.sink.manifest
  let volumeId := e.sink.writer.header.volumeId
  match SegWriter.create (UInt64.ofNat segId) volumeId (UInt64.ofNat nextLsn)
      e.config.segSize e.config.preallocate t with
  | .error err => Call.fail (.segment err)
  | .ok w => Call.modify fun e =>
      { e with sink := {
        older := e.sink.files
        writer := w
        manifest := SegManifest.register e.sink.manifest segId nextLsn volumeId } }

/-- The loop of `SegSink::append`. A record that does not fit a segment it has just
opened is refused only if padding left the segment untouched; else it rolls again. -/
def appendLoop (lsn : Nat) (rtype : RecordType) (flags : UInt8) (payload : Bytes) :
    Nat → Call WalEngine SinkError Placement
  | 0 => Call.hang
  | n + 1 => do
    let e ← Call.get
    let out := e.sink.writer.append rtype flags (UInt64.ofNat lsn) payload
    Call.modify fun e => { e with sink := { e.sink with writer := out.1 } }
    match out.2 with
    | .ok fmeta =>
      pure ⟨out.1.header.segId.toNat, fmeta.offset, fmeta.crc, fmeta.payloadLen⟩
    | .error (.segmentFull _ _) =>
      if out.1.writePos = segHeaderSize then
        Call.fail (.exceedsCapacity (frameHeaderSize + payload.length) e.config.segSize)
      else do
        roll clock lsn
        appendLoop lsn rtype flags payload n
    | .error err => Call.fail (.segment err)

/-- Two passes decide: a fresh segment takes the record, or no segment ever will. -/
def appendRecord (lsn : Nat) (rtype : RecordType) (payload : Bytes) :
    Call WalEngine SinkError Placement :=
  appendLoop clock lsn rtype 0 payload 2

/-- `CommitQueue::enqueue` for a call that runs alone, while no sync fails. A record above
the budget of the queue waits for ever. -/
def enqueue (rtype : RecordType) (payload : Bytes) : EngineM CommitReceipt := do
  if 2 ^ 32 ≤ payload.length then Call.fail (.commit (.payloadTooLarge payload.length))
  else do
    let e ← Call.get
    match e.commitError with
    | some err => Call.fail (.commit err)
    | none =>
      if e.config.maxDirtyBytes < frameHeaderSize + payload.length ∨ 2 ^ 64 ≤ e.nextLsn + 1 then
        Call.hang
      else do
        let lsn := e.nextLsn
        Call.modify fun e => { e with nextLsn := e.nextLsn + 1 }
        match ← appended lsn with
        | .ok placement => pure ⟨lsn, placement⟩
        | .error err => do
          Call.modify fun e => { e with commitError := some (.sink err) }
          Call.fail (.commit (.sink err))
where
  /-- The outcome of the append as a value. -/
  appended (lsn : Nat) : EngineM (Except SinkError Placement) := fun e =>
    match appendRecord clock lsn rtype payload e with
    | none => none
    | some (out, e') => some (.ok out, e')

/-! ## Reading and writing -/

def applyIndex {α : Type} (f : WalIndex → WalIndex × Except IndexError α) : EngineM α := fun e =>
  match (f e.index).2 with
  | .ok a => some (.ok a, { e with index := (f e.index).1 })
  | .error err => some (.error (.index err), { e with index := (f e.index).1 })

/-- Whether a write of `data` is accepted. -/
def admitWrite (data : Bytes) : EngineM Unit := do
  let e ← Call.get
  let need := frameHeaderSize + 12 + data.length
  let cap := e.index.volumeSize
  let occupied := occupiedBytes e.index.stats
  if e.config.segSize - segHeaderSize < need then
    Call.fail (.recordTooLarge need e.config.segSize)
  else if 0 < cap ∧ cap < occupied + data.length then
    Call.fail (.volumeFull cap occupied data.length)
  else pure ()

def applyWritten (receipt : CommitReceipt) (payload : DataPayload) : EngineM Unit := do
  let t ← now clock
  applyIndex fun idx => idx.applyData receipt.place payload.encode t

def write (needleId : UInt64) (data : Bytes) : EngineM CommitReceipt := do
  admitWrite data
  let receipt ← enqueue clock .data (DataPayload.encode ⟨needleId, data⟩)
  applyWritten clock receipt ⟨needleId, data⟩
  pure receipt

/-- The record of a deletion, if the needle exists. -/
def admitDelete (needleId : UInt64) : EngineM DeletePayload := do
  let e ← Call.get
  if e.index.needles.lookup needleId.toNat = none ∧
      e.index.tombstones.lookup needleId.toNat = none then
    Call.fail (.notFound needleId.toNat)
  else do
    let t ← now clock
    pure ⟨needleId, t, t + e.config.tombstoneRetentionSecs⟩

def applyDeleted (receipt : CommitReceipt) (payload : DeletePayload) : EngineM Unit :=
  applyIndex fun idx => idx.applyDelete receipt.lsn payload.encode

def delete (needleId : UInt64) : EngineM CommitReceipt := do
  let payload ← admitDelete clock needleId
  let receipt ← enqueue clock .delete payload.encode
  applyDeleted receipt payload
  pure receipt

/-! ## Superblock, resize and checkpoint -/

def volumeStateFull : UInt8 := 1

def storeSuperblock (latestCkptSeq : Nat) : EngineM Unit := do
  Call.modify fun e => { e with sbSeq := e.sbSeq + 1 }
  let t ← now clock
  let e ← Call.get
  let cap := e.index.volumeSize
  let full := 0 < cap ∧ cap ≤ occupiedBytes e.index.stats
  let sb : Superblock := {
    seq := e.sbSeq
    volumeId := e.config.volumeId
    latestCkptSeq := UInt64.ofNat latestCkptSeq
    activeSegId := e.sink.writer.header.segId
    activeSegSize := UInt64.ofNat e.config.segSize
    volumeSize := UInt64.ofNat cap
    state := if full then volumeStateFull else 0
    createdTs := e.sbCreatedTs
    lastMountTs := t
    minLiveSnapshotLsn := 0 }
  match e.superblock.store sb with
  | none => Call.hang
  | some copies => Call.modify fun e => { e with superblock := copies }

def resize (newSize : UInt64) : EngineM CommitReceipt := do
  let e ← Call.get
  let required := occupiedBytes e.index.stats
  if newSize.toNat < required then Call.fail (.resizeTooSmall newSize.toNat required)
  else do
    let buf := VolumeMetaPayload.volumeSize newSize
    let receipt ← enqueue clock .volumeMeta buf
    let _ ← applyIndex fun idx => idx.applyVolumeMeta receipt.lsn buf
    let e ← Call.get
    storeSuperblock clock e.lastCkptSeq
    pure receipt

def noteLsn (m : Table Nat) (segId lsn : Nat) : Table Nat :=
  m.insert segId (max ((m.lookup segId).getD 0) lsn)

def segStateSealed : UInt8 := 0
def segStateActive : UInt8 := 1

def buildSegEntries (o : HashOrder) (manifest : SegManifest) (index : WalIndex) :
    List CkptSegEntry :=
  let buckets := perSegBytes o index
  let m := (o.values index.needles).foldl (fun m n => noteLsn m n.segId n.versionLsn)
    (∅ : Table Nat)
  let m := (o.values index.tombstones).foldl (fun m t => noteLsn m t.segId t.versionLsn) m
  let lastLsn := index.deadCopies.foldl (fun m d => noteLsn m d.segId d.versionLsn) m
  manifest.map fun e =>
    let b := (buckets.lookup e.segId).getD ⟨0, 0, 0⟩
    { segId := e.segId
      state := if e.state = .active then segStateActive else segStateSealed
      liveBytes := b.live
      stagingBytes := b.staging
      deadBytes := b.dead
      baseLsn := e.baseLsn
      lastLsn := (lastLsn.lookup e.segId).getD e.baseLsn }

/-- The snapshot that a checkpoint freezes. -/
def freeze (o : HashOrder) (e : WalEngine) (ckptSeq : Nat) (createdTs : Int64) : CkptData :=
  build o
    { ckptSeq := ckptSeq
      appliedLsn := e.index.lastLsn
      volumeId := e.config.volumeId.toNat
      activeSegId := e.sink.activeSegId
      nextSegId := SegManifest.nextSegId e.sink.manifest
      nextNeedleId := e.nextNeedleId
      nextSnapshotId := 1
      createdTs := createdTs }
    (buildSegEntries o e.sink.manifest e.index) e.index

/-- Take a sequence number and freeze the index with its replay boundary. (The ids of
the segments, which nothing reads back, are taken a moment before.) -/
def freezeCkpt (o : HashOrder) : EngineM (CkptOutcome × CkptData) := do
  let e ← Call.get
  let out : CkptOutcome := ⟨e.nextCkptSeq, e.index.lastLsn⟩
  Call.modify fun e => { e with nextCkptSeq := e.nextCkptSeq + 1 }
  let t ← now clock
  let e ← Call.get
  pure (out, freeze o e out.ckptSeq t)

/-- The barrier and the checkpoint file. The barrier of a broken queue is taken to fail. -/
def storeCkpt (out : CkptOutcome) (data : CkptData) : EngineM Unit := do
  let e ← Call.get
  match e.commitError with
  | some err => Call.fail (.commit err)
  | none => Call.modify fun e => { e with ckpts := insertCkpt e.ckpts out.ckptSeq data }

def CkptOutcome.anchor (out : CkptOutcome) : CkptAnchorPayload :=
  ⟨UInt64.ofNat out.ckptSeq, UInt64.ofNat out.appliedLsn⟩

def applyAnchor (out : CkptOutcome) (receipt : CommitReceipt) : EngineM Unit :=
  Call.modify fun e =>
    { e with index := e.index.applyCkptAnchor out.ckptSeq out.appliedLsn receipt.lsn }

def finishCkpt (out : CkptOutcome) : EngineM Unit := do
  storeSuperblock clock out.ckptSeq
  Call.modify fun e => { e with lastCkptLsn := out.appliedLsn, lastCkptSeq := out.ckptSeq }

/-- `checkpoint_impl`. -/
def checkpoint (o : HashOrder) : EngineM CkptOutcome := do
  let (out, data) ← freezeCkpt clock o
  storeCkpt out data
  let receipt ← enqueue clock .ckptAnchor out.anchor.encode
  applyAnchor out receipt
  finishCkpt clock out
  pure out

/-- Dropping the engine: a last checkpoint if the configuration asks for it, whose
failure is only logged. -/
def close (o : HashOrder) (e : WalEngine) : Option WalEngine :=
  if e.config.ckptOnClose then (checkpoint clock o e).map (·.2) else some e

end Engine

end PowerFS.Wal.Engine
