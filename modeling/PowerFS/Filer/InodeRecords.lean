import PowerFS.Lib.ByteString
import PowerFS.Lib.Decimal
import PowerFS.Lib.OrderedMap

/-! # Inode records

`InodeInfo` of `powerfs-filer/src/shard_store.rs` and what the commands of a shard do to
one record: attributes, the size and chunks of a file, the migration of inline data to a
volume, reliability and compression. Whatever reads the clock takes the time as an
argument, in seconds. -/
namespace PowerFS.Filer.InodeRecords
open Lib.ByteString Lib.Decimal Lib.OrderedMap

/-- A text, by its characters. -/
abbrev Text := List Char

/-- `as_bytes()` -/
def utf8 (t : Text) : Bytes := t.flatMap String.utf8EncodeChar

/-- `String::from_utf8` -/
def fromUtf8 (b : Bytes) : Option Text := b.toByteArray.utf8Decode?.map Array.toList

theorem fromUtf8_utf8 (t : Text) : fromUtf8 (utf8 t) = some t := by
  have hencode : (utf8 t).toByteArray = t.utf8Encode := rfl
  rw [fromUtf8, hencode, List.utf8Decode?_utf8Encode, Option.map_some]

/-- A number as `format!` writes it. -/
def decimal (n : UInt64) : Text := Nat.toDigits 10 n.toNat

/-- `parse::<u64>()` -/
def parseU64 (s : Text) : Option UInt64 := (parseUnsigned 64 s).map UInt64.ofNat

theorem parseU64_decimal (n : UInt64) : parseU64 (decimal n) = some n := by
  unfold parseU64 decimal
  rw [parseUnsigned_toDigits, if_pos n.toNat_lt, Option.map_some, UInt64.ofNat_toNat]

def divCeil (a b : UInt64) : UInt64 := if a % b > 0 then a / b + 1 else a / b

inductive FileType where
  | file
  | directory
  | symlink
  deriving DecidableEq

inductive StorageMode where
  | empty
  | inline
  | flat
  | stripe
  | wideStripe
  | ec
  deriving DecidableEq

def StorageMode.isVolumeBacked : StorageMode → Bool
  | .flat | .stripe | .wideStripe | .ec => true
  | .empty | .inline => false

/-- The name that `Debug` prints. -/
def StorageMode.debug : StorageMode → String
  | .empty => "Empty"
  | .inline => "Inline"
  | .flat => "Flat"
  | .stripe => "Stripe"
  | .wideStripe => "WideStripe"
  | .ec => "Ec"

inductive Reliability where
  | singleReplica
  | replicated (count : UInt32)
  | ec (data parity : UInt32)
  deriving DecidableEq

inductive ReliabilityState where
  | pendingReplicated
  | replicated
  | pendingEC
  | ec
  | degraded
  deriving DecidableEq

inductive CompressionState where
  | none
  | pending
  | compressed
  deriving DecidableEq

inductive CompressionAlgo where
  | none
  | zstd
  deriving DecidableEq

structure StoredFileChunk where
  offset : UInt64
  size : UInt64
  needleId : UInt64
  volumeId : UInt64
  crc32 : UInt32
  mtime : UInt64
  isReference : Bool
  compression : CompressionAlgo
  deriving DecidableEq

structure MigrationState where
  epoch : UInt64
  targetMode : UInt8
  allocs : List (UInt64 × UInt64)
  stripeSize : UInt64
  deriving DecidableEq

structure InodeInfo where
  inode : UInt64
  name : Text
  parentInode : UInt64
  fileType : FileType
  size : UInt64
  mtime : UInt64
  atime : UInt64
  ctime : UInt64
  mode : UInt32
  uid : UInt32
  gid : UInt32
  blocks : UInt64
  fid : Option Text
  volumeId : Option UInt64
  etag : Option Text
  chunks : List StoredFileChunk
  inlineData : Option Bytes
  extended : Map Text Bytes
  symlinkTarget : Option Text
  nlink : UInt32
  version : UInt64
  deleteTime : UInt64
  reliability : Reliability
  reliabilityState : ReliabilityState
  compressionState : CompressionState
  compressionAlgo : CompressionAlgo
  compressionRatioX100 : UInt16
  compressionOriginalSize : UInt64
  compressionOriginalChunkFp : Option Bytes
  replicaChunks : List StoredFileChunk
  storageMode : StorageMode
  migration : Option MigrationState
  deriving DecidableEq

/-! ## New records -/

/-- What the records that the store itself makes have in common. -/
def freshInode (now inode parentInode : UInt64) (name : Text) (fileType : FileType)
    (mode nlink : UInt32) (storageMode : StorageMode) : InodeInfo where
  inode := inode
  name := name
  parentInode := parentInode
  fileType := fileType
  size := 0
  mtime := now
  atime := now
  ctime := now
  mode := mode
  uid := 0
  gid := 0
  blocks := 0
  fid := none
  volumeId := none
  etag := none
  chunks := []
  inlineData := none
  extended := ∅
  symlinkTarget := none
  nlink := nlink
  version := 0
  deleteTime := 0
  reliability := .singleReplica
  reliabilityState := .pendingReplicated
  compressionState := .none
  compressionAlgo := .none
  compressionRatioX100 := 0
  compressionOriginalSize := 0
  compressionOriginalChunkFp := none
  replicaChunks := []
  storageMode := storageMode
  migration := none

def fileInode (now inode parentInode : UInt64) (name : Text) : InodeInfo :=
  freshInode now inode parentInode name .file 0o100644 1 .empty

def objectInode (now inode parentInode : UInt64) (name : Text) (size : UInt64) (fid : Text)
    (volumeId : UInt64) (etag : Text) : InodeInfo :=
  { freshInode now inode parentInode name .file 0o100644 1 .inline with
    size := size
    blocks := divCeil size 4096
    fid := some fid
    volumeId := some volumeId
    etag := some etag }

def directoryInode (now inode parentInode : UInt64) (name : Text) : InodeInfo :=
  freshInode now inode parentInode name .directory 0o040755 2 .inline

def symlinkInode (now inode parentInode : UInt64) (name target : Text) : InodeInfo :=
  { freshInode now inode parentInode name .symlink 0o120777 1 .inline with
    size := UInt64.ofNat (utf8 target).length
    symlinkTarget := some target }

/-! ## Attributes -/

/-- The type bits of a mode stay, the permission bits are replaced. -/
def withPermissions (mode : UInt32) (m : UInt64) : UInt32 :=
  (mode &&& ~~~0o7777) ||| (m.toUInt32 &&& 0o7777)

/-- What `setattr` and `setattr_meta` have in common. -/
def setMeta (mode uid gid mtime atime : Option UInt64) (info : InodeInfo) : InodeInfo :=
  { info with
    mode := (mode.map (withPermissions info.mode)).getD info.mode
    uid := (uid.map UInt64.toUInt32).getD info.uid
    gid := (gid.map UInt64.toUInt32).getD info.gid
    mtime := mtime.getD info.mtime
    atime := atime.getD info.atime }

def setattr (now : UInt64) (size mode uid gid mtime atime : Option UInt64) (info : InodeInfo) :
    InodeInfo :=
  { setMeta mode uid gid mtime atime info with
    size := size.getD info.size
    ctime := now }

/-- An explicit truncation also cuts the inline buffer. -/
def setattrData (now : UInt64) (size : Option UInt64) (info : InodeInfo) : InodeInfo :=
  let info := match size with
    | none => info
    | some s =>
      { info with
        size := s
        blocks := divCeil s 512
        inlineData := info.inlineData.map fun (d : Bytes) =>
          if s.toNat < d.length then d.take s.toNat else d }
  { info with ctime := now, mtime := now }

def updateFile (now size mtime : UInt64) (info : InodeInfo) : InodeInfo :=
  { info with size := size, mtime := mtime, atime := now, version := info.version + 1 }

def setXattr (now : UInt64) (key : Text) (value : Bytes) (info : InodeInfo) : InodeInfo :=
  { info with extended := info.extended.insert key value, mtime := now }

def removeXattr (now : UInt64) (key : Text) (info : InodeInfo) : InodeInfo :=
  { info with extended := info.extended.erase key, mtime := now }

def withNlink (nlink : UInt32) (info : InodeInfo) : InodeInfo := { info with nlink := nlink }

def bumpVersion (info : InodeInfo) : InodeInfo := { info with version := info.version + 1 }

def touch (now : UInt64) (info : InodeInfo) : InodeInfo := { info with mtime := now, ctime := now }

def moveTo (newName : Text) (newParentInode : UInt64) (info : InodeInfo) : InodeInfo :=
  { info with name := newName, parentInode := newParentInode }

def renameInode (now : UInt64) (newName : Text) (newParentInode : UInt64) (info : InodeInfo) :
    InodeInfo :=
  touch now (moveTo newName newParentInode info)

/-- The chunk goes under the file key of the fid, `volume_id,cookie,file_key`. -/
def setChunks (now : UInt64) (fid : Text) (volumeId offset size : UInt64) (info : InodeInfo) :
    InodeInfo :=
  let needleId := (((fid.splitOn ',')[2]?).bind parseU64).getD 0
  { info with
    fid := some fid
    volumeId := some volumeId
    chunks := info.chunks ++ [⟨offset, size, needleId, volumeId, 0, now, false, .none⟩] }

/-! ## Reliability and compression -/

def updateReliability (now : UInt64) (reliability : Reliability)
    (reliabilityState : ReliabilityState) (replicaChunks : List StoredFileChunk)
    (info : InodeInfo) : InodeInfo :=
  { info with
    reliability := reliability
    reliabilityState := reliabilityState
    replicaChunks := replicaChunks
    mtime := now }

def updateToEc (now : UInt64) (reliability : Reliability) (reliabilityState : ReliabilityState)
    (ecChunks : List StoredFileChunk) (info : InodeInfo) : InodeInfo :=
  { info with
    reliability := reliability
    reliabilityState := reliabilityState
    chunks := ecChunks
    replicaChunks := []
    storageMode := .ec
    mtime := now }

def chunkFingerprint (chunks : List StoredFileChunk) : Bytes :=
  chunks.flatMap fun c =>
    toLE 8 c.volumeId.toNat ++ toLE 8 c.needleId.toNat ++ toLE 8 c.offset.toNat ++
      toLE 8 c.size.toNat

def updateToCompressed (now : UInt64) (chunks replicaChunks : List StoredFileChunk)
    (algo : CompressionAlgo) (ratioX100 : UInt16) (originalSize : UInt64) (info : InodeInfo) :
    InodeInfo :=
  { info with
    compressionOriginalChunkFp := some (chunkFingerprint info.chunks)
    chunks := chunks
    replicaChunks := replicaChunks
    compressionState := .compressed
    compressionAlgo := algo
    compressionRatioX100 := ratioX100
    compressionOriginalSize := originalSize
    mtime := now }

/-! ## Size, chunks and inline data -/

/-- The blocks of 4 KiB that the mask marks are taken from the client, the others stay;
the size only grows. Whether the buffer can be had is left to `Faults` and `InlineMerges`. -/
def mergeInlineDirtyBlocks (existing : Option Bytes) (existingSize : UInt64) (client : Bytes)
    (clientSize : UInt64) (dirtyMask : UInt32) : Bytes × UInt64 :=
  let old := existing.getD []
  let mergedLen := max (max (max old.length client.length) existingSize.toNat) clientSize.toNat
  let merged := (List.range 32).foldl (fun merged bit =>
    let start := bit * 4096
    let cend := min (min (start + 4096) mergedLen) client.length
    if start < mergedLen ∧ dirtyMask.toNat.testBit bit ∧ start < cend then
      pwrite merged start (slice client start cend)
    else merged) (old ++ zeros (mergedLen - old.length))
  (merged, max existingSize clientSize)

/-- The arguments of a size and chunks update. -/
structure Update where
  size : UInt64
  chunks : List StoredFileChunk
  inlineData : Option Bytes
  isAppend : Bool
  inlineDirtyMask : Option UInt32

/-- The new size and data of `update_inode_size_chunks_atomic`. -/
def syncData (u : Update) (info : InodeInfo) : InodeInfo :=
  let ⟨size, chunks, inlineData, isAppend, inlineDirtyMask⟩ := u
  let grown := max info.size size
  match isAppend, inlineData with
  | true, some delta =>
    let combined := info.inlineData.getD [] ++ delta
    let newSize := UInt64.ofNat combined.length
    { info with
      size := newSize, blocks := divCeil newSize 512, chunks := chunks,
      inlineData := some combined }
  | true, none =>
    { info with size := grown, blocks := divCeil grown 512, chunks := chunks }
  | false, some client =>
    -- data that has gone to a volume is not replaced by a stale inline buffer
    if info.chunks ≠ [] ∨ info.storageMode.isVolumeBacked then info
    else match inlineDirtyMask with
      | some mask =>
        let merged := mergeInlineDirtyBlocks info.inlineData info.size client size mask
        { info with
          size := merged.2, blocks := divCeil merged.2 512, chunks := chunks,
          inlineData := some merged.1 }
      | none =>
        { info with
          size := size, blocks := divCeil size 512, chunks := chunks, inlineData := some client }
  | false, none =>
    { info with
      size := grown, blocks := divCeil grown 512, chunks := chunks, inlineData := none }

/-- Inline data, chunks on several volumes or on one; without either the mode stays. -/
def modeOfData (info : InodeInfo) : StorageMode :=
  if info.inlineData.isSome then .inline
  else match info.chunks with
    | [] => info.storageMode
    | first :: rest => if rest.any fun c => c.volumeId ≠ first.volumeId then .stripe else .flat

/-- `volume_id,0,needle_id` -/
def fidOf (volumeId needleId : UInt64) : Text :=
  decimal volumeId ++ [',', '0', ','] ++ decimal needleId

/-- The location fields follow the first chunk. -/
def backfillFid (info : InodeInfo) : InodeInfo := match info.chunks with
  | [] => info
  | first :: _ =>
    { info with
      fid := some (fidOf first.volumeId first.needleId)
      volumeId := some first.volumeId }

/-- Replicas, shards and compressed chunks of data that has changed are of no use. -/
def resetDerived (info : InodeInfo) : InodeInfo :=
  let info := match info.reliabilityState with
    | .replicated | .ec =>
      { info with
        reliabilityState := .pendingReplicated
        reliability := .singleReplica
        replicaChunks := [] }
    | _ => info
  { info with
    compressionState := .none
    compressionAlgo := .none
    compressionRatioX100 := 0
    compressionOriginalSize := 0
    compressionOriginalChunkFp := none }

/-- Chunks that a reader of a compressed file sends back as they were before compression
do not count as a change. -/
def chunksChanged (info : InodeInfo) (chunks : List StoredFileChunk) : Bool :=
  decide (info.chunks ≠ chunks) && !(decide (info.compressionState = .compressed) &&
      decide (info.compressionOriginalChunkFp = some (chunkFingerprint chunks)))

def updateInodeSizeChunks (u : Update) (info : InodeInfo) : Except String InodeInfo :=
  match info.migration with
  | some window =>
    let inode := info.inode
    let epoch := window.epoch
    .error (s!"stale_epoch: inode {inode} is in Migrating window (epoch={epoch}), " ++
      "external size/chunks/inline commit rejected — re-fetch layout")
  | none =>
    let changed := chunksChanged info u.chunks
    let info := syncData u info
    let info := backfillFid { info with storageMode := modeOfData info }
    .ok (if changed then resetDerived info else info)

/-! ## Migration of inline data -/

def migrateTargetFlat : UInt8 := 1

def migrateTargetStripe : UInt8 := 2

/-- The checks on a request to migrate that come before the inode is looked at. -/
def checkMigration (inode : UInt64) (targetMode : UInt8) (allocs : List (UInt64 × UInt64)) :
    Except String Unit :=
  if allocs = [] then .error s!"begin_migration: inode {inode} empty allocs"
  else if targetMode ≠ migrateTargetFlat ∧ targetMode ≠ migrateTargetStripe then
    .error s!"begin_migration: inode {inode} invalid target_mode {targetMode}"
  else .ok ()

/-- Write the marked blocks of the initiator over the snapshot; the second number is the
end of the data. -/
def mergeBlocks (inode : UInt64) : List (UInt32 × Bytes) → Bytes → Nat →
    Except String (Bytes × Nat)
  | [], buf, maxEnd => .ok (buf, maxEnd)
  | (idx, bytes) :: rest, buf, maxEnd =>
    let len := bytes.length
    if len = 0 then mergeBlocks inode rest buf maxEnd
    else if len > 4096 then
      .error s!"begin_migration: inode {inode} block {idx} len {len} > 4096"
    else
      let start := idx.toNat * 4096
      mergeBlocks inode rest (pwrite buf start bytes) (max maxEnd (start + len))

/-- The arguments of `BeginMigration`. -/
structure Request where
  epoch : UInt64
  targetMode : UInt8
  allocs : List (UInt64 × UInt64)
  stripeSize : UInt64
  initiatorSize : UInt64
  initiatorBlocks : List (UInt32 × Bytes)

/-- Open the window. There is nothing to do when it is already open under this epoch. -/
def beginMigration (r : Request) (info : InodeInfo) : Except String (Option InodeInfo) :=
  let ⟨epoch, targetMode, allocs, stripeSize, initiatorSize, initiatorBlocks⟩ := r
  let inode := info.inode
  match info.migration with
  | some existing =>
    let other := existing.epoch
    if other = epoch then .ok none
    else .error s!"stale_epoch: inode {inode} already migrating with epoch {other} (got {epoch})"
  | none =>
    if info.storageMode.isVolumeBacked ∨ info.chunks ≠ [] then
      let mode := info.storageMode.debug
      let count := info.chunks.length
      .error s!"already_migrated: inode {inode} is {mode} with {count} chunks"
    else
      let data := info.inlineData.getD []
      match mergeBlocks inode initiatorBlocks data data.length with
      | .error e => .error e
      | .ok (buf, maxEnd) =>
        let mergedSize := max (max info.size initiatorSize) (UInt64.ofNat maxEnd)
        .ok (some { info with
          size := mergedSize
          blocks := divCeil mergedSize 512
          inlineData := some (buf ++ zeros (mergedSize.toNat - buf.length))
          version := info.version + 1
          migration := some ⟨epoch, targetMode, allocs, stripeSize⟩ })

/-- Close the window: the snapshot is on the volume, as the first chunk. -/
def commitMigration (now epoch : UInt64) (info : InodeInfo) : Except String (Option InodeInfo) :=
  let inode := info.inode
  match info.migration with
  | none =>
    if info.storageMode.isVolumeBacked ∧ info.chunks ≠ [] then .ok none
    else .error s!"commit_migration: inode {inode} has no migration in progress"
  | some state =>
    let window := state.epoch
    if window ≠ epoch then
      .error s!"stale_epoch: inode {inode} commit epoch {epoch} != window epoch {window}"
    else match state.allocs with
      | [] => .error s!"commit_migration: inode {inode} persisted allocs empty"
      | (vid, nid) :: _ =>
        let snapLen := UInt64.ofNat (info.inlineData.getD []).length
        let size := max info.size snapLen
        .ok (some { info with
          chunks := [⟨0, snapLen, nid, vid, 0, now, false, .none⟩]
          fid := some (fidOf vid nid)
          volumeId := some vid
          size := size
          blocks := divCeil size 512
          inlineData := none
          storageMode := if state.targetMode = migrateTargetStripe then .stripe else .flat
          migration := none
          version := info.version + 1 })

end PowerFS.Filer.InodeRecords
