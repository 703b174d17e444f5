import PowerFS.Wal.Index

/-! # Checkpoints

`wal/checkpoint.rs`: what a checkpoint file holds, how it is built from an index
and how an index is rebuilt from it. The file is its contents here; the byte codec
is not part of this module. -/
namespace PowerFS.Wal.Checkpoint
open Lib.FinTable Index

structure CkptSegEntry where
  segId : Nat
  state : UInt8
  liveBytes : Nat
  stagingBytes : Nat
  deadBytes : Nat
  baseLsn : Nat
  lastLsn : Nat
  deriving DecidableEq

structure CkptHeader where
  ckptSeq : Nat
  appliedLsn : Nat
  volumeId : Nat
  activeSegId : Nat
  nextSegId : Nat
  nextNeedleId : Nat
  nextSnapshotId : Nat
  createdTs : Int64
  deriving DecidableEq

structure CkptAllocStats where
  used : Nat
  staging : Nat
  garbage : Nat
  pinned : Nat
  activeCount : Nat
  deletedCount : Nat
  volumeSize : Nat
  deriving DecidableEq

structure CkptData where
  header : CkptHeader
  segments : List CkptSegEntry
  needles : List NeedleEntry
  tombstones : List TombstoneEntry
  dead : List DeadCopy
  purged : List (Nat × Nat)
  allocStats : CkptAllocStats
  deriving DecidableEq

def build (o : HashOrder) (header : CkptHeader) (segEntries : List CkptSegEntry)
    (index : WalIndex) : CkptData where
  header := header
  segments := segEntries
  needles := o.values index.needles
  tombstones := o.values index.tombstones
  dead := index.deadCopies
  purged := o.entries index.purged
  allocStats := ⟨index.stats.usedBytes, index.stats.stagingBytes, index.stats.garbageBytes,
    index.stats.pinnedBytes, index.stats.activeCount, index.stats.deletedCount, index.volumeSize⟩

def intoIndex (data : CkptData) : WalIndex :=
  (WalIndex.empty.loadFrom data.needles data.tombstones data.dead data.purged).setVolumeSize
    data.allocStats.volumeSize

/-- The live, staged and dead bytes located in a segment. -/
structure SegBytes where
  live : Nat
  staging : Nat
  dead : Nat
  deriving DecidableEq

def addBytes (m : Table SegBytes) (segId : Nat) (f : SegBytes → SegBytes) : Table SegBytes :=
  m.insert segId (f ((m.lookup segId).getD ⟨0, 0, 0⟩))

def perSegBytes (o : HashOrder) (index : WalIndex) : Table SegBytes :=
  let m := (o.values index.needles).foldl (fun m n =>
    addBytes m n.segId fun b => { b with live := b.live + n.dataLen }) (∅ : Table SegBytes)
  let m := (o.values index.tombstones).foldl (fun m t =>
    addBytes m t.segId fun b => { b with staging := b.staging + t.dataLen }) m
  index.deadCopies.foldl (fun m d =>
    addBytes m d.segId fun b => { b with dead := b.dead + d.dataLen }) m

end PowerFS.Wal.Checkpoint
