import PowerFS.Wal.Engine

/-! # Opening a volume

`WalEngine::open`: superblock, newest checkpoint, replay of what lies behind it, and
the segment that takes the next record. -/
namespace PowerFS.Wal.EngineOpen
open Lib.ByteString Index Checkpoint Segment Replay Superblocks Directory Engine

def initialSuperblock (config : WalEngineConfig) (t : Int64) : Superblock where
  seq := 0
  volumeId := config.volumeId
  latestCkptSeq := 0
  activeSegId := 0
  activeSegSize := UInt64.ofNat config.segSize
  volumeSize := config.volumeSize
  state := 0
  createdTs := t
  lastMountTs := t
  minLiveSnapshotLsn := 0

/-- The checkpoint that replay starts from. -/
structure LoadedCkpt where
  appliedLsn : Nat
  seq : Nat
  needleFloor : Nat
  index : WalIndex

def LoadedCkpt.absent : LoadedCkpt := ⟨0, 0, 0, WalIndex.empty⟩

def LoadedCkpt.ofData (seq : Nat) (data : CkptData) : LoadedCkpt where
  appliedLsn := data.header.appliedLsn
  seq := seq
  needleFloor := data.header.nextNeedleId
  index := (intoIndex data).advanceReplayCursor data.header.appliedLsn

def loadCkpt (config : WalEngineConfig) (ckpts : List (Nat × Option CkptData)) :
    Except EngineError LoadedCkpt :=
  match newestCkpt ckpts with
  | none => .ok .absent
  | some (seq, data) =>
    if data.header.volumeId ≠ config.volumeId.toNat then
      .error (.volumeIdMismatch (UInt64.ofNat data.header.volumeId) config.volumeId)
    else .ok (.ofData seq data)

/-- The index and the files after replay, and what is known about checkpoints. -/
structure Recovered where
  replay : ReplayResult
  ckpts : List (Nat × Option CkptData)
  appliedLsn : Nat
  ckptSeq : Nat
  seqFloor : Nat

/-- The capacity of a volume that no record and no checkpoint has set. -/
def withBaseline (config : WalEngineConfig) (sb : Superblock) (index : WalIndex) : WalIndex :=
  if index.volumeSize = 0 then
    index.setVolumeSize (if sb.volumeSize ≠ 0 then sb.volumeSize.toNat else config.volumeSize.toNat)
  else index

/-- The id behind all that the index has seen. The sum is a machine word: a build with overflow
checks panics where it does not fit, one without them goes on from 0. -/
def nextNeedle (index : WalIndex) (floor : Nat) : Option Nat :=
  if index.maxNeedleId + 1 < 2 ^ 64 then some (max (index.maxNeedleId + 1) floor) else none

def replaceFile (files : List SegFile) (segId : Nat) (bytes : Bytes) : List SegFile :=
  files.map fun f => if f.segId = segId then { f with bytes := bytes } else f

section Open

variable [Checksum] (reads : ReadSplit) (replayClock : Nat → Int64)

def loadSuperblock (config : WalEngineConfig) (v : Volume) (t : Int64) :
    Option (Except EngineError Superblock) :=
  match v.superblock.load with
  | none => none
  | some (.ok sb) =>
    if sb.volumeId ≠ 0 ∧ sb.volumeId ≠ config.volumeId then
      some (.error (.volumeIdMismatch sb.volumeId config.volumeId))
    else some (.ok sb)
  | some (.error .notFound) => some (.ok (initialSuperblock config t))
  | some (.error e) => some (.error (.superblock e))

def recover (config : WalEngineConfig) (v : Volume) (ckpt : LoadedCkpt) :
    Except EngineError Recovered :=
  match replayAll reads replayClock config.recoveryMode ckpt.appliedLsn v.segs ckpt.index with
  | .error e => .error (.replay e)
  | .ok replay =>
    if replay.stop.isSome ∧ 0 < ckpt.appliedLsn then
      -- the checkpoint may refer to segments that are given up: replay without it, up to
      -- the place where the first replay stopped
      match replayWith reads replayClock config.recoveryMode 0 replay.files WalIndex.empty
          replay.stop with
      | .error e => .error (.replay e)
      | .ok full =>
        let cut := removeFutureCkpts v.ckpts full.index.lastLsn
        .ok ⟨full, cut.1, 0, (latestSeq cut.1).getD 0, cut.2.foldl max 0⟩
    else .ok ⟨replay, v.ckpts, ckpt.appliedLsn, ckpt.seq, 0⟩

def reopenFile (config : WalEngineConfig) (files : List SegFile) (segId : Nat) :
    Except EngineError SegWriter :=
  match files.find? fun f => decide (f.segId = segId) with
  | none => .error .io
  | some f =>
    match SegWriter.reopen f.bytes (reads.split segId (f.bytes.drop segHeaderSize))
        config.segSize with
    | .error e => .error (.segment e)
    | .ok (w, _) => .ok w

def freshSegment (config : WalEngineConfig) (files : List SegFile) (manifest : SegManifest)
    (baseLsn : Nat) (t : Int64) : Except EngineError SegSink :=
  let segId := SegManifest.nextSegId manifest
  match SegWriter.create (UInt64.ofNat segId) config.volumeId (UInt64.ofNat baseLsn)
      config.segSize config.preallocate t with
  | .error e => .error (.segment e)
  | .ok w => .ok ⟨files, w, SegManifest.register manifest segId baseLsn config.volumeId⟩

/-- The segment for the next record. Behind a stop the damaged segment is sealed, the
ones after it are deleted, and a new one is opened. -/
def openSegs (config : WalEngineConfig) (replay : ReplayResult) (manifest : SegManifest)
    (baseLsn : Nat) (t : Int64) : Except EngineError SegSink :=
  match replay.stop with
  | some sp =>
    let kept := replay.files.filter fun f => decide (f.segId ∉ replay.abandoned)
    let manifest := manifest.filter fun e => decide (e.segId ∉ replay.abandoned)
    match reopenFile reads config kept sp.segId with
    | .error e => .error e
    | .ok w =>
      freshSegment config (replaceFile kept sp.segId w.sealSegment.file)
        (SegManifest.markSealed manifest sp.segId) baseLsn t
  | none => match SegManifest.active manifest with
    | some entry => match reopenFile reads config replay.files entry.segId with
      | .error e => .error e
      | .ok w =>
        .ok ⟨replay.files.filter fun f => decide (f.segId ≠ entry.segId), w, manifest⟩
    | none => freshSegment config replay.files manifest baseLsn t

/-- The engine before it stores its superblock. -/
def mount (clock : Nat → Int64) (config : WalEngineConfig) (v : Volume) (sb : Superblock)
    (ticks : Nat) : Option (Except EngineError WalEngine) :=
  match loadCkpt config v.ckpts with
  | .error e => some (.error e)
  | .ok ckpt => match SegManifest.load v.segs with
    | .error e => some (.error (.segment e))
    | .ok manifest => match recover reads replayClock config v ckpt with
      | .error e => some (.error e)
      | .ok r =>
        let index := withBaseline config sb r.replay.index
        match openSegs reads config r.replay manifest (index.lastLsn + 1) (clock ticks) with
        | .error e => some (.error e)
        | .ok sink => (nextNeedle index ckpt.needleFloor).map fun nextNeedleId => .ok {
            config := config
            sink := sink
            ckpts := r.ckpts
            superblock := v.superblock
            index := index
            nextLsn := index.lastLsn + 1
            commitError := none
            nextNeedleId := nextNeedleId
            nextCkptSeq := max r.ckptSeq r.seqFloor + 1
            sbSeq := sb.seq
            sbCreatedTs := sb.createdTs
            lastCkptLsn := r.appliedLsn
            lastCkptSeq := r.ckptSeq
            ticks := ticks + 1 }

/-- `open`; the first reading of the clock is the one at `ticks`. -/
def openEngine (clock : Nat → Int64) (config : WalEngineConfig) (v : Volume) (ticks : Nat) :
    Option (Except EngineError WalEngine) :=
  match loadSuperblock config v (clock ticks) with
  | none => none
  | some (.error e) => some (.error e)
  | some (.ok sb) => match mount reads replayClock clock config v sb (ticks + 1) with
    | none => none
    | some (.error e) => some (.error e)
    | some (.ok e) => match storeSuperblock clock e.lastCkptSeq e with
      | none => none
      | some (.error err, _) => some (.error err)
      | some (.ok (), e') => some (.ok e')

end Open

end PowerFS.Wal.EngineOpen
