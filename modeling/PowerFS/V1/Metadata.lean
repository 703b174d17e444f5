import PowerFS.Lib.FinTable
import PowerFS.V1.Needle

/-! # The metadata of a volume

`volume_metadata.rs`: the index of live needles, the index of deleted ones and the
allocation statistics, each a column family of one RocksDB. A column family is a table;
an atomic batch is one change of all three. Every operation adjusts the statistics by
what it knows, without recounting.

Times are nanoseconds since the epoch. -/
namespace PowerFS.V1.Metadata
open Lib.FinTable Needle

/-- The data of a volume starts here. -/
def volumeDataOffset : Nat := 1024 * 1024

structure NeedleInfo where
  id : Nat
  volumeId : Nat
  /-- The low 32 bits of the length of the data. -/
  dataSize : Nat
  offset : Nat
  checksum : UInt64
  checksumAlgorithm : ChecksumAlgorithm
  deletedAt : Option Int
  deleteRetentionUntil : Option Int
  wormRetentionUntil : Option Int
  createdAt : Int
  cookie : Nat
  deriving DecidableEq

/-- What the source counts for a needle: its header, data and footer. -/
def NeedleInfo.size (info : NeedleInfo) : Nat := recordSize info.dataSize

structure AllocationStats where
  usedBytes : Nat
  freeBytes : Nat
  nextNeedleId : Nat
  appendOffset : Nat
  activeCount : Nat
  deletedCount : Nat
  garbageBytes : Nat
  lastModifiedAt : Int
  deriving DecidableEq

def timestamp (now : Int) : Int := now / 1000000000

def days (n : Int) : Int := n * 86400000000000

namespace AllocationStats

def default : AllocationStats := ⟨0, 0, 1, 0, 0, 0, 0, 0⟩

/-- Every update ends by recomputing the free space. -/
def refresh (s : AllocationStats) (volumeSize : Nat) (now : Int) : AllocationStats :=
  { s with
    freeBytes := volumeSize - s.usedBytes
    lastModifiedAt := timestamp now }

/-- The used bytes when a needle of `oldTotal` bytes is replaced by one of `size`. -/
def exchange (used oldTotal size : Nat) : Nat :=
  if oldTotal < size then used + (size - oldTotal)
  else if size < oldTotal then used - (oldTotal - size)
  else used

/-- `write_needle_atomic`: the old copy of an overwritten needle turns to garbage. -/
def afterWrite (s : AllocationStats) (old : Option NeedleInfo) (id size volumeSize : Nat)
    (now : Int) : AllocationStats :=
  let s := match old with
    | none => { s with usedBytes := s.usedBytes + size, activeCount := s.activeCount + 1 }
    | some old =>
      { s with
        garbageBytes := s.garbageBytes + old.size
        usedBytes := exchange s.usedBytes old.size size }
  refresh { s with
    appendOffset := s.appendOffset + size
    -- the sum wraps in a build without overflow checks
    nextNeedleId := max s.nextNeedleId ((id + 1) % 2 ^ 64) } volumeSize now

def afterDelete (s : AllocationStats) (info : NeedleInfo) (volumeSize : Nat) (now : Int) :
    AllocationStats :=
  refresh { s with
    usedBytes := s.usedBytes - info.size
    garbageBytes := s.garbageBytes + info.size
    activeCount := s.activeCount - 1
    deletedCount := s.deletedCount + 1 } volumeSize now

def afterRestore (s : AllocationStats) (info : NeedleInfo) (volumeSize : Nat) (now : Int) :
    AllocationStats :=
  refresh { s with
    usedBytes := s.usedBytes + info.size
    garbageBytes := s.garbageBytes - info.size
    activeCount := s.activeCount + 1
    deletedCount := s.deletedCount - 1 } volumeSize now

def afterPurge (s : AllocationStats) (purged : Nat) (now : Int) : AllocationStats :=
  { s with deletedCount := s.deletedCount - purged, lastModifiedAt := timestamp now }

def afterCompact (s : AllocationStats) (newAppendOffset volumeSize : Nat) (now : Int) :
    AllocationStats :=
  refresh { s with
    appendOffset := newAppendOffset
    deletedCount := 0
    garbageBytes := 0 } volumeSize now

end AllocationStats

structure VolumeMetadata where
  needles : Table NeedleInfo
  deleted : Table NeedleInfo
  allocation : Option AllocationStats

namespace VolumeMetadata

def empty : VolumeMetadata := ⟨∅, ∅, none⟩

def getAllocation (m : VolumeMetadata) : AllocationStats := m.allocation.getD .default

def putNeedle (m : VolumeMetadata) (info : NeedleInfo) : VolumeMetadata :=
  { m with needles := m.needles.insert info.id info }

def putAllocation (m : VolumeMetadata) (s : AllocationStats) : VolumeMetadata :=
  { m with allocation := some s }

/-- The batch of `write_needle_atomic`. -/
def written (m : VolumeMetadata) (info : NeedleInfo) (s : AllocationStats) : VolumeMetadata :=
  { m with needles := m.needles.insert info.id info, allocation := some s }

/-- A needle as the deleted family keeps it: restorable for seven days. -/
def buried (info : NeedleInfo) (now : Int) : NeedleInfo :=
  { info with deletedAt := some now, deleteRetentionUntil := some (now + days 7) }

/-- The batch of `delete_needle_atomic`. -/
def removed (m : VolumeMetadata) (id : Nat) (info : NeedleInfo) (s : AllocationStats) :
    VolumeMetadata :=
  { needles := m.needles.erase id, deleted := m.deleted.insert id info, allocation := some s }

def revived (info : NeedleInfo) : NeedleInfo :=
  { info with deletedAt := none, deleteRetentionUntil := none }

/-- The batch of `restore_needle_atomic`. -/
def restored (m : VolumeMetadata) (id : Nat) (info : NeedleInfo) (s : AllocationStats) :
    VolumeMetadata :=
  { needles := m.needles.insert id info, deleted := m.deleted.erase id, allocation := some s }

/-- The batch of `compact_cleanup`. -/
def cleaned (m : VolumeMetadata) (s : AllocationStats) : VolumeMetadata :=
  { m with deleted := ∅, allocation := some s }

def listNeedles (m : VolumeMetadata) : List (Nat × NeedleInfo) := toList m.needles

def listDeleted (m : VolumeMetadata) : List (Nat × NeedleInfo) := toList m.deleted

/-- The end of the last copy that a list of entries refers to. -/
def maxEnd (entries : List (Nat × NeedleInfo)) (start : Nat) : Nat :=
  entries.foldl (fun m e => max m (e.2.offset + e.2.size)) start

/-- `rebuild_allocation_stats`: used bytes, physical end, live and deleted needles. -/
def rebuildAllocationStats (m : VolumeMetadata) : Nat × Nat × Nat × Nat :=
  (((m.listNeedles.map fun e => e.2.size).sum),
    maxEnd m.listDeleted (maxEnd m.listNeedles volumeDataOffset),
    m.listNeedles.length, m.listDeleted.length)

/-- `sync_allocation_from_index`: at start the statistics are set to a recount. -/
def syncAllocation (m : VolumeMetadata) (volumeSize : Nat) (now : Int) : VolumeMetadata :=
  let stats := m.getAllocation
  let (used, rebuiltEnd, active, deleted) := m.rebuildAllocationStats
  let physicalEnd := max (max stats.appendOffset rebuiltEnd) volumeDataOffset
  let free := volumeSize - used
  let garbage := physicalEnd - volumeDataOffset - used
  if stats.usedBytes ≠ used ∨ stats.freeBytes ≠ free ∨ stats.activeCount ≠ active ∨
      stats.deletedCount ≠ deleted ∨ stats.appendOffset ≠ physicalEnd ∨
      stats.garbageBytes ≠ garbage then
    m.putAllocation ⟨used, free, stats.nextNeedleId, physicalEnd, active, deleted, garbage,
      timestamp now⟩
  else m

/-- The largest id of both families. -/
def maxNeedleIdInDb (m : VolumeMetadata) : Nat :=
  max ((m.listNeedles.map Prod.fst).foldl max 0) ((m.listDeleted.map Prod.fst).foldl max 0)

end VolumeMetadata

/-- Entries are stored under the id they carry. -/
structure Keyed (m : VolumeMetadata) : Prop where
  live : ∀ id info, m.needles.lookup id = some info → info.id = id
  buried : ∀ id info, m.deleted.lookup id = some info → info.id = id

namespace Keyed

variable {m : VolumeMetadata}

theorem empty : Keyed .empty :=
  ⟨fun id info h => absurd h (by simp [VolumeMetadata.empty]),
    fun id info h => absurd h (by simp [VolumeMetadata.empty])⟩

theorem insert (h : Keyed m) (info : NeedleInfo) (s : Option AllocationStats) :
    Keyed { m with needles := m.needles.insert info.id info, allocation := s } :=
  ⟨lookup_insert_key h.live rfl, h.buried⟩

theorem removed (h : Keyed m) {id : Nat} {info : NeedleInfo} (now : Int)
    (hold : m.needles.lookup id = some info) (s : AllocationStats) :
    Keyed (m.removed id (VolumeMetadata.buried info now) s) :=
  ⟨fun x i hx => h.live x i (lookup_erase_some hx),
    lookup_insert_key h.buried (h.live id info hold)⟩

theorem restored (h : Keyed m) {id : Nat} {info : NeedleInfo}
    (hold : m.deleted.lookup id = some info) (s : AllocationStats) :
    Keyed (m.restored id (VolumeMetadata.revived info) s) :=
  ⟨lookup_insert_key h.live (h.buried id info hold),
    fun x i hx => h.buried x i (lookup_erase_some hx)⟩

theorem syncAllocation (h : Keyed m) (volumeSize : Nat) (now : Int) :
    Keyed (m.syncAllocation volumeSize now) := by
  unfold VolumeMetadata.syncAllocation
  dsimp only
  split
  · exact ⟨h.live, h.buried⟩
  · exact h

end Keyed

end PowerFS.V1.Metadata
