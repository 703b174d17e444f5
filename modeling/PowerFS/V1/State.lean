import PowerFS.Lib.Calls
import PowerFS.Lib.SparseFiles
import PowerFS.V1.Coalescer
import PowerFS.V1.Metadata

/-! # The state of a volume and what is outside of it

`volume.rs` and the part of `storage_backend/local_fs.rs` it uses. An operation is a
call on the state of the volume. RocksDB, the data file and the clocks are outside: the
volume counts its calls there, and an environment says how each of them goes. A call
that fails changes nothing, but for a write to the data file, of which a part may have
been written. -/
namespace PowerFS.V1.State
open Lib.ByteString Lib.FinTable Lib.Calls Lib.SparseFiles Wal.Index Needle Metadata Coalescer

inductive VolumeState where
  | creating
  | available
  | full
  | readOnly
  | draining
  | deleting
  deriving DecidableEq

structure VolumeInfo where
  id : Nat
  size : Nat
  used : Nat
  state : VolumeState
  nextFileKey : Nat
  deriving DecidableEq

/-- The file of a volume: it must not grow beyond `totalSize`. -/
structure DataFile where
  totalSize : Nat
  file : SparseFile

structure Volume where
  info : VolumeInfo
  index : VolumeMetadata
  data : DataFile
  coalescer : WriteCoalescer
  compacting : Bool
  /-- The largest needle id ever stored. -/
  maxNeedleId : Nat
  /-- How many calls to the outside have been made. -/
  calls : Nat

class Env where
  algorithm : ChecksumAlgorithm
  checksum : Checksum
  /-- The `n`-th call to the outside fails, after so many bytes. -/
  fault : Nat → Option Nat
  utc : Nat → Int
  instant : Nat → Nat
  order : HashOrder
  capacity : Bytes → Nat

export Env (fault utc instant)

abbrev Op (α : Type) := Call Volume PowerFsError α

namespace Volume

def tick (v : Volume) : Volume := { v with calls := v.calls + 1 }

def ticks (v : Volume) (n : Nat) : Volume := { v with calls := v.calls + n }

def setIndex (v : Volume) (m : VolumeMetadata) : Volume := { v with index := m }

def setState (v : Volume) (s : VolumeState) : Volume :=
  { v with info := { v.info with state := s } }

def setUsed (v : Volume) (used : Nat) : Volume := { v with info := { v.info with used := used } }

def setCompacting (v : Volume) (b : Bool) : Volume := { v with compacting := b }

def setCoalescer (v : Volume) (c : WriteCoalescer) : Volume := { v with coalescer := c }

/-- Discard the dirty entry of a needle. -/
def discard (v : Volume) (capacity : Bytes → Nat) (id : Nat) : Volume :=
  v.setCoalescer (v.coalescer.invalidate capacity id)

end Volume

/-! ## RocksDB -/

section Outside

variable [Env]

def utcNow : Op Int := fun v => some (.ok (utc v.calls), v.tick)

def instantNow : Op Nat := fun v => some (.ok (instant v.calls), v.tick)

def dbError (what : String) : PowerFsError := .internal s!"RocksDB {what} failed"

/-- A read of the database. -/
def dbRead {α : Type} (what : String) (f : VolumeMetadata → α) : Op α := fun v =>
  match fault v.calls with
  | some _ => some (.error (dbError what), v.tick)
  | none => some (.ok (f v.index), v.tick)

/-- An atomic batch of writes. -/
def dbWrite (what : String) (f : VolumeMetadata → VolumeMetadata) : Op Unit := fun v =>
  match fault v.calls with
  | some _ => some (.error (dbError what), v.tick)
  | none => some (.ok (), v.tick.setIndex (f v.index))

def getAllocation : Op AllocationStats := dbRead "get allocation" (·.getAllocation)

def getNeedle (id : Nat) : Op (Option NeedleInfo) :=
  dbRead "get needle" (·.needles.lookup id)

/-- `NeedleIndex::get`: a failure is reported as an absent needle. -/
def indexGet (id : Nat) : Op (Option NeedleInfo) := do
  match ← Call.attempt (getNeedle id) with
  | .ok info => pure info
  | .error _ => pure none

/-- `NeedleIndex::insert`: a failure is only logged. -/
def indexInsert (info : NeedleInfo) : Op Unit := do
  let _ ← Call.attempt (dbWrite "put needle" (·.putNeedle info))
  pure ()

/-- `NeedleIndex::iter`: a failure is reported as an empty index. -/
def indexIter : Op (List (Nat × NeedleInfo)) := do
  match ← Call.attempt (dbRead "iterator" (·.listNeedles)) with
  | .ok needles => pure needles
  | .error _ => pure []

/-! ## The data file -/

def backendRead (offset size : Nat) : Op Bytes := fun v =>
  if v.data.totalSize < offset + size then
    some (.error (.storage "Invalid operation: read beyond volume size"), v)
  else match fault v.calls with
    | some _ => some (.error (.storage "IO error"), v.tick)
    | none => match v.data.file.read offset size with
      | none => some (.error (.storage "IO error: short read"), v.tick)
      | some bytes => some (.ok bytes, v.tick)

def Volume.putBytes (v : Volume) (offset : Nat) (bytes : Bytes) : Volume :=
  { v with data := { v.data with file := v.data.file.write offset bytes } }

def backendWrite (offset : Nat) (bytes : Bytes) : Op Unit := fun v =>
  if v.data.totalSize < offset + bytes.length then
    some (.error (.storage "Invalid operation: write beyond volume size"), v)
  else match fault v.calls with
    | some n => some (.error (.storage "IO error"), v.tick.putBytes offset (bytes.take n))
    | none => some (.ok (), v.tick.putBytes offset bytes)

def truncateVolume (newSize : Nat) : Op Unit := fun v =>
  if v.data.totalSize < newSize then
    some (.error (.storage "Invalid operation: cannot truncate to larger size"), v)
  else match fault v.calls with
    | some _ => some (.error (.storage "IO error"), v.tick)
    | none => some (.ok (),
        { v.tick with data := { v.data with file := v.data.file.setLen newSize } })

/-! ## Atomic metadata operations -/

def writeNeedleAtomic (info : NeedleInfo) (dataSize volumeSize : Nat) : Op AllocationStats := do
  let stats ← getAllocation
  let old ← getNeedle info.id
  let now ← utcNow
  let stats := stats.afterWrite old info.id dataSize volumeSize now
  dbWrite "atomic write" (·.written info stats)
  pure stats

def deleteNeedleAtomic (id volumeSize : Nat) : Op (Option NeedleInfo) := do
  match ← getNeedle id with
  | none => pure none
  | some info =>
    let now ← utcNow
    let stats ← getAllocation
    dbWrite "atomic delete" (·.removed id (VolumeMetadata.buried info now)
      (stats.afterDelete info volumeSize now))
    pure (some info)

def restoreNeedleAtomic (id volumeSize : Nat) : Op (Option NeedleInfo) := do
  match ← dbRead "get deleted" (·.deleted.lookup id) with
  | none => pure none
  | some info =>
    let now ← utcNow
    let stats ← getAllocation
    dbWrite "atomic restore" (·.restored id (VolumeMetadata.revived info)
      (stats.afterRestore info volumeSize now))
    pure (some (VolumeMetadata.revived info))

/-- Remove the expired entries one by one, and count them. -/
def purgeLoop (now : Int) : List (Nat × NeedleInfo) → Nat → Op Nat
  | [], purged => pure purged
  | (id, info) :: rest, purged => match info.deleteRetentionUntil with
    | some until_ =>
      if until_ < now then do
        dbWrite "purge deleted" fun m => { m with deleted := m.deleted.erase id }
        purgeLoop now rest (purged + 1)
      else purgeLoop now rest purged
    | none => purgeLoop now rest purged

def purgeExpiredDeleted : Op Nat := do
  let now ← utcNow
  let items ← dbRead "iterator" (·.listDeleted)
  let purged ← purgeLoop now items 0
  if 0 < purged then do
    let stats ← getAllocation
    dbWrite "put allocation" (·.putAllocation (stats.afterPurge purged now))
    pure purged
  else pure purged

def compactCleanup (newAppendOffset volumeSize : Nat) : Op AllocationStats := do
  let _ ← dbRead "iterator" (·.listDeleted)
  let stats ← getAllocation
  let now ← utcNow
  let stats := stats.afterCompact newAppendOffset volumeSize now
  dbWrite "compact cleanup" (·.cleaned stats)
  pure stats

end Outside

end PowerFS.V1.State
