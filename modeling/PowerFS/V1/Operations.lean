import PowerFS.V1.State

/-! # The operations of a volume

`volume.rs`. A write appends a record to the data file and then publishes it in the
index; partial writes go through the coalescer; compaction moves live records down and
cuts the file off. Writing and compacting are cut into the phases at which other threads
can come in between.

Locks and waiting are not here: an operation that would wait for a compaction gives up. -/
namespace PowerFS.V1.Operations
open Lib.ByteString Lib.FinTable Lib.Calls Lib.SparseFiles Needle Metadata Coalescer State

def u32 (n : Nat) : Nat := n % 2 ^ 32

/-- `as usize` of a signed number. -/
def asUsize (n : Int) : Nat := (n % 2 ^ 64).toNat

/-- No vector is longer than this. -/
def isizeMax : Nat := 2 ^ 63 - 1

variable [Env]

def contentSum (data : Bytes) : UInt64 := Env.checksum Env.algorithm data

/-- The content is the one that is stored already, by length and checksum. -/
def identical (info : NeedleInfo) (data : Bytes) : Bool :=
  info.deletedAt.isNone && decide (info.dataSize = data.length) &&
    decide (info.checksum = contentSum data)

/-! ## Appending -/

/-- A record that is in the data file and not yet in the index. -/
structure Appended where
  info : NeedleInfo
  space : Nat

/-- A volume without space is full from then on. -/
def outOfSpace {α : Type} : Op α := do
  Call.modify (·.setState .full)
  Call.fail .outOfSpace

/-- Key 0 asks for a new key. -/
def keyOf (v : Volume) (fileKey : Nat) : Nat :=
  if fileKey = 0 then v.info.nextFileKey else fileKey

def assignKey (fileKey : Nat) : Op Nat := fun v =>
  some (.ok (keyOf v fileKey), { v with info := { v.info with
    nextFileKey := if fileKey = 0 then v.info.nextFileKey + 1 else v.info.nextFileKey } })

/-- A full write also checks the size of the data file; a new version does not. -/
def exceeds (physicalSize : Option Nat) (stop : Nat) : Bool :=
  match physicalSize with
  | none => false
  | some n => decide (n < stop)

/-- Check the space and append a record; the result is where it is. -/
def appendRecord (physicalSize : Option Nat) (id : Nat) (data : Bytes) : Op Nat := do
  let stats ← getAllocation
  if stats.freeBytes < recordSize data.length then outOfSpace
  else if exceeds physicalSize (stats.appendOffset + recordSize data.length) then outOfSpace
  else do
    backendWrite stats.appendOffset (toBytes id data (contentSum data))
    pure stats.appendOffset

/-- Append the record of a full write. -/
def appendNew (id cookie : Nat) (data : Bytes) : Op (NeedleInfo ⊕ Appended) := do
  let v ← Call.get
  let offset ← appendRecord (some (v.info.size + volumeDataOffset)) id data
  let now ← utcNow
  pure (.inr ⟨⟨id, v.info.id, u32 data.length, offset, contentSum data,
    Env.algorithm, none, none, none, now, cookie⟩, recordSize data.length⟩)

/-- `write_needle_nowait` up to the point where the record is in the data file. -/
def prepareWrite (fileKey cookie : Nat) (data : Bytes) : Op (NeedleInfo ⊕ Appended) := do
  let v ← Call.get
  if v.info.state ≠ .available then Call.fail (.invalidVolumeState "volume not available")
  else do
    let id ← assignKey fileKey
    -- a dirty entry of the same id is stale from now on
    Call.modify (·.discard Env.capacity id)
    match ← indexGet id with
    | some existing =>
      if identical existing data then pure (.inl existing) else appendNew id cookie data
    | none => appendNew id cookie data

/-- The record enters the index and the statistics in one batch. -/
def publish (a : Appended) : Op NeedleInfo := do
  let v ← Call.get
  let stats ← writeNeedleAtomic a.info a.space v.info.size
  Call.modify fun v => { v.setUsed stats.usedBytes with
    maxNeedleId := max v.maxNeedleId a.info.id }
  pure a.info

def writeNeedleNowait (fileKey cookie : Nat) (data : Bytes) : Op NeedleInfo := do
  match ← prepareWrite fileKey cookie data with
  | .inl existing => pure existing
  | .inr a => publish a

def compactingError : PowerFsError := .internal "Volume is compacting, retry later"

def writeNeedleWithCookie (fileKey cookie : Nat) (data : Bytes) : Op NeedleInfo := do
  let v ← Call.get
  if v.compacting then Call.fail compactingError
  else writeNeedleNowait fileKey cookie data

/-- Append the record of a new version. -/
def appendVersion (id : Nat) (data : Bytes) (base : NeedleInfo) : Op (Option Appended) := do
  let offset ← appendRecord none id data
  pure (some ⟨⟨id, base.volumeId, u32 data.length, offset, contentSum data,
    Env.algorithm, none, base.deleteRetentionUntil, base.wormRetentionUntil, base.createdAt,
    base.cookie⟩, recordSize data.length⟩)

/-- `append_needle_version` up to the point where the record is in the data file. -/
def prepareVersion (id : Nat) (data : Bytes) (oldInfo : NeedleInfo) : Op (Option Appended) := do
  let v ← Call.get
  if v.info.state ≠ .available then Call.fail (.invalidVolumeState "volume not available")
  else do
    match ← indexGet id with
    | some latest =>
      if identical latest data then pure none else appendVersion id data latest
    | none => appendVersion id data oldInfo

def appendNeedleVersion (id : Nat) (data : Bytes) (oldInfo : NeedleInfo) : Op Unit := do
  match ← prepareVersion id data oldInfo with
  | none => pure ()
  | some a => do
    let _ ← publish a
    pure ()

/-! ## Dirty entries -/

/-- Write the content of a dirty entry to the data file and the index. -/
def flushCoalescerEntry (id : Nat) (merged : Bytes) (isNewNeedle : Bool) : Op Unit := do
  if isNewNeedle then do
    let _ ← writeNeedleNowait id 0 merged
    pure ()
  else
    match ← indexGet id with
    | none => do
      let _ ← writeNeedleNowait id 0 merged
      pure ()
    | some existing => appendNeedleVersion id merged existing

/-- Merge a partial write; without coalescing it is stored at once. -/
def recordBlob (id offset : Nat) (data : Bytes) (fullSizeHint : Nat) (existing : Option Bytes) :
    Op Unit := do
  let now ← instantNow
  let v ← Call.get
  let out := v.coalescer.recordWrite Env.order now id offset data fullSizeHint existing
  Call.modify (·.setCoalescer out.1)
  match out.2 with
  | some (fid, merged, isNew) => flushCoalescerEntry fid merged isNew
  | none => pure ()

/-- The bytes to read for a needle of the index, in 32-bit arithmetic. -/
def readSize (info : NeedleInfo) : Nat := u32 info.size

def writeNeedleBlob (fileKey : Nat) (offset size : Int) (data : Bytes) : Op Unit := do
  let v ← Call.get
  if v.compacting then Call.fail compactingError
  else
    let dataOffset := asUsize offset
    let dataSize := min (asUsize size) data.length
    let stop := dataOffset + dataSize
    -- a vector of that length cannot be made
    if isizeMax < stop then Call.hang
    else if v.coalescer.isDirty fileKey then
      recordBlob fileKey dataOffset (data.take dataSize) stop none
    else do
      match ← indexGet fileKey with
      | some info => do
        let raw ← backendRead info.offset (readSize info)
        match fromBytes Env.checksum raw info.checksumAlgorithm with
        | .error e => Call.fail e
        | .ok cur =>
          recordBlob fileKey dataOffset (data.take dataSize) (max cur.length stop) (some cur)
      | none => recordBlob fileKey dataOffset (data.take dataSize) stop none

/-- An entry that a flush has taken, and how its write went. -/
structure Attempt where
  id : Nat
  merged : Bytes
  result : Result Unit

/-- Flush the entries of the given ids one after another. A failure is logged and the
next id is taken. -/
def flushIds : List Nat → Op (List Attempt)
  | [] => pure []
  | id :: rest => do
    let v ← Call.get
    if v.compacting then flushIds rest
    else match v.coalescer.take id with
      | (_, none) => flushIds rest
      | (c, some entry) => do
        Call.modify (·.setCoalescer c)
        let r ← Call.attempt (flushCoalescerEntry id entry.merged entry.isNewNeedle)
        let log ← flushIds rest
        pure (⟨id, entry.merged, r⟩ :: log)

def Attempt.succeeded (a : Attempt) : Bool :=
  match a.result with
  | .ok _ => true
  | .error _ => false

/-- The ids in the order in which they are flushed. -/
def flushOrder (ids : List Nat) : List Nat := (ids.insertionSort (· ≤ ·)).dedup

/-- Only the number of entries that were stored is returned. -/
def flushNeedleIdsAtomic (ids : List Nat) : Op Nat := do
  let log ← flushIds (flushOrder ids)
  pure (log.countP (·.succeeded))

def flushSpecificNeedles (ids : List Nat) : Op Nat := flushNeedleIdsAtomic ids

def flushAllDirty : Op Nat := do
  let v ← Call.get
  flushNeedleIdsAtomic (v.coalescer.dirtyIds Env.order)

def flushExpiredDirty : Op Nat := do
  let now ← instantNow
  let v ← Call.get
  flushNeedleIdsAtomic (v.coalescer.expiredIds Env.order now)

/-! ## Deleting and protecting -/

/-- `if let Ok(stats) = get_allocation()` -/
def withAllocation (f : AllocationStats → Volume → Volume) : Op Unit := do
  match ← Call.attempt getAllocation with
  | .ok stats => Call.modify (f stats)
  | .error _ => pure ()

/-- A full volume that has space again is available. -/
def recoverAvailable : Op Unit := do
  let v ← Call.get
  if v.info.state = .full then
    withAllocation fun stats v => if 0 < stats.freeBytes then v.setState .available else v
  else pure ()

/-- The part of `delete_needle` behind the checks. -/
def removeNeedle (id : Nat) : Op Unit := do
  let v ← Call.get
  let _ ← deleteNeedleAtomic id v.info.size
  recoverAvailable
  withAllocation fun stats v => v.setUsed stats.usedBytes

def deleteNeedle (id : Nat) : Op Unit := do
  Call.modify (·.discard Env.capacity id)
  match ← indexGet id with
  | none => Call.fail (.needleNotFound id)
  | some info =>
    if info.deletedAt.isSome then Call.fail (.needleNotFound id)
    else match info.wormRetentionUntil with
      | none => removeNeedle id
      | some retentionUntil => do
        let now ← utcNow
        if now < retentionUntil then Call.fail .permissionDenied else removeNeedle id

def restoreNeedle (id : Nat) : Op Unit := do
  let v ← Call.get
  match ← restoreNeedleAtomic id v.info.size with
  | some _ => pure ()
  | none => Call.fail (.needleNotFound id)

def wormLock (id : Nat) (retentionDays : Int) : Op Unit := do
  match ← indexGet id with
  | none => Call.fail (.needleNotFound id)
  | some info =>
    if info.deletedAt.isSome then Call.fail (.invalidRequest "cannot lock deleted needle")
    else do
      let now ← utcNow
      indexInsert { info with wormRetentionUntil := some (now + days retentionDays) }

def gcCleanup : Op Nat := purgeExpiredDeleted

/-! ## Compaction -/

/-- Flush entries that have been taken out of the coalescer; failures are dropped. -/
def flushTaken : List (Nat × DirtyEntry) → Op (List Attempt)
  | [] => pure []
  | (id, entry) :: rest => do
    let r ← Call.attempt (flushCoalescerEntry id entry.merged entry.isNewNeedle)
    let log ← flushTaken rest
    pure (⟨id, entry.merged, r⟩ :: log)

/-- The flush at the start of a compaction. -/
def compactFlush : Op (List Attempt) := do
  let v ← Call.get
  let taken := v.coalescer.takeAll Env.order
  Call.modify (·.setCoalescer taken.1)
  flushTaken taken.2

/-- The live needles in the order in which they lie in the file. -/
def activeNeedles (needles : List (Nat × NeedleInfo)) : List NeedleInfo :=
  ((needles.map Prod.snd).filter (·.deletedAt.isNone)).insertionSort fun a b => a.offset ≤ b.offset

def scanActive : Op (List NeedleInfo) := do
  let needles ← indexIter
  pure (activeNeedles needles)

/-- Copy the record of a needle down. -/
def copyNeedle (info : NeedleInfo) (newOffset : Nat) : Op Unit := do
  let raw ← backendRead info.offset (readSize info)
  backendWrite newOffset raw

/-- Point the index to the copy. -/
def relocate (info : NeedleInfo) (newOffset : Nat) : Op Unit :=
  indexInsert { info with offset := newOffset }

/-- Move the needles down one after another; the results are the new end and the number
of needles moved. -/
def moveNeedles : List NeedleInfo → Nat → Nat → Op (Nat × Nat)
  | [], newOffset, updated => pure (newOffset, updated)
  | info :: rest, newOffset, updated =>
    if info.offset = newOffset then moveNeedles rest (newOffset + info.size) updated
    else do
      copyNeedle info newOffset
      relocate info newOffset
      moveNeedles rest (newOffset + info.size) (updated + 1)

/-- Enter the new end in the statistics. -/
def settleCompact (newOffset : Nat) : Op Nat := do
  let old ← getAllocation
  let v ← Call.get
  let stats ← compactCleanup newOffset v.info.size
  Call.modify (·.setUsed stats.usedBytes)
  pure (old.appendOffset - newOffset)

def compactInner : Op (Nat × Nat) := do
  let _ ← compactFlush
  let active ← scanActive
  let (newOffset, updated) ← moveNeedles active volumeDataOffset 0
  let reclaimed ← settleCompact newOffset
  truncateVolume newOffset
  pure (reclaimed, updated)

def compact : Op (Nat × Nat) := do
  let v ← Call.get
  if v.compacting then Call.fail (.internal "Volume is already compacting")
  else do
    Call.modify (·.setCompacting true)
    Call.ensuring compactInner (·.setCompacting false)

/-! ## Reading -/

def sizeMismatch : PowerFsError := .invalidRequest "needle data size mismatch"

/-- Read a needle of the index from the data file. A record whose header has another
size is returned as it is, unchecked. -/
def readStored (data : DataFile) (info : NeedleInfo) : Result Bytes :=
  if data.totalSize < info.offset + readSize info then
    .error (.storage "Invalid operation: read beyond volume size")
  else match data.file.read info.offset (readSize info) with
    | none => .error (.storage "IO error: short read")
    | some raw => match fromBytes Env.checksum raw info.checksumAlgorithm with
      | .ok bytes => .ok bytes
      | .error e =>
        if e = sizeMismatch then
          .ok (slice raw needleHeaderSize (min (needleHeaderSize + info.dataSize) raw.length))
        else .error e

def readNeedle (v : Volume) (id : Nat) : Result Bytes :=
  -- `read_if_dirty(id, 0, usize::MAX)` is the whole buffer
  match v.coalescer.entries.lookup id with
  | some e => .ok e.merged
  | none => match v.index.needles.lookup id with
    | none => .error (.needleNotFound id)
    | some info =>
      if info.deletedAt.isSome then .error (.needleNotFound id) else readStored v.data info

/-- Part of a needle; there may be fewer bytes. `none` is an overflow. -/
def readNeedleBlob (v : Volume) (id : Nat) (offset size : Int) : Option (Result Bytes) :=
  let from_ := asUsize offset
  match v.coalescer.entries.lookup id with
  | some e =>
    if e.merged.length ≤ from_ then some (.ok [])
    else if 2 ^ 64 ≤ from_ + asUsize size then none
    else some (.ok (slice e.merged from_ (min (from_ + asUsize size) e.merged.length)))
  | none => match v.index.needles.lookup id with
    | none => some (.error (.needleNotFound id))
    | some info => match readStored v.data info with
      | .error e => some (.error e)
      | .ok bytes =>
        if bytes.length ≤ from_ then some (.ok [])
        else some (.ok (slice bytes from_ (from_ + min (asUsize size) (bytes.length - from_))))

/-! ## Opening -/

/-- `Volume::new` over what is on disk. The data file is extended to the physical size;
dirty entries do not survive. -/
def openVolume (config : CoalescerConfig) (id size : Nat) (index : VolumeMetadata)
    (file : SparseFile) (now : Int) : Volume :=
  { info := ⟨id, size, index.rebuildAllocationStats.1, .available, 1⟩
    index := index.syncAllocation size now
    data := ⟨size + volumeDataOffset, file.setLen (size + volumeDataOffset)⟩
    coalescer := .new config
    compacting := false
    maxNeedleId := index.maxNeedleIdInDb
    calls := 0 }

end PowerFS.V1.Operations
