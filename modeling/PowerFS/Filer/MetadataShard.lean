import PowerFS.Filer.InodeRecords

/-! # The metadata store of a shard

`ShardStore` of `powerfs-filer/src/shard_store.rs`: maps in memory and column families of
a key-value store that are written side by side, and `apply_command`, which carries out
the commands of the Raft log. Integers wrap, as they do in a release build. The answers
of the calls, the metadata cache that is told about them, and the counters of open files
are left out; every command reads the clock at most once.

JSON is a parameter: a type of documents and, for each record, a way to write and read
it back. -/
namespace PowerFS.Filer.MetadataShard
open Lib.ByteString Lib.OrderedMap InodeRecords

/-! ## Keys and values -/

/-- `to_be_bytes()` -/
def beBytes (n : UInt64) : Bytes := (toLE 8 n.toNat).reverse

/-- `from_be_bytes` of the first eight bytes -/
def ofBeBytes (b : Bytes) : UInt64 := UInt64.ofNat (ofLE (b.take 8).reverse)

theorem beBytes_length (n : UInt64) : (beBytes n).length = 8 := by
  rw [beBytes, List.length_reverse, toLE_length]

theorem ofBeBytes_beBytes (n : UInt64) (rest : Bytes) : ofBeBytes (beBytes n ++ rest) = n := by
  rw [ofBeBytes, List.take_left' (beBytes_length n), beBytes, List.reverse_reverse, ofLE_toLE_u64,
    UInt64.ofNat_toNat]

/-- `format!("{}:{}", parent_inode, name)` -/
def dirEntryKey (parentInode : UInt64) (name : Text) : Text := decimal parentInode ++ ':' :: name

def childSummaryKey (parentInode : UInt64) (name : Text) : Bytes := beBytes parentInode ++ utf8 name

structure ChildKey where
  parentInode : UInt64
  name : Text
  deriving DecidableEq

instance : Ord ChildKey :=
  ⟨compareLex (compareOn ChildKey.parentInode) (compareOn ChildKey.name)⟩

instance : Std.TransOrd ChildKey :=
  inferInstanceAs (Std.TransCmp
    (compareLex (compareOn ChildKey.parentInode) (compareOn ChildKey.name)))

instance : Std.LawfulEqOrd ChildKey where
  compare_self := Std.ReflCmp.compare_self
  eq_of_compare {a b} h := by
    obtain ⟨hparent, hname⟩ := compareLex_eq_eq.mp h
    obtain ⟨p, n⟩ := a
    obtain ⟨p', n'⟩ := b
    obtain rfl : p = p' := Std.LawfulEqOrd.eq_of_compare hparent
    obtain rfl : n = n' := Std.LawfulEqOrd.eq_of_compare hname
    rfl

structure DirStatSummary where
  childInode : UInt64
  modeAndType : UInt32
  uid : UInt32
  gid : UInt32
  size : UInt64
  mtime : UInt64
  ctime : UInt64
  atime : UInt64
  nlink : UInt32
  childShardId : UInt64
  versionTs : UInt64
  deriving DecidableEq

inductive RenameSide where
  | source
  | dest
  deriving DecidableEq

def RenameSide.asStr : RenameSide → Text
  | .source => ['s', 'o', 'u', 'r', 'c', 'e']
  | .dest => ['d', 'e', 's', 't']

def RenameSide.fromU8 (v : UInt8) : Option RenameSide :=
  if v = 0 then some .source else if v = 1 then some .dest else none

structure RenameIntent where
  renameId : Text
  side : RenameSide
  inode : UInt64
  parentInode : UInt64
  name : Text
  replacedInode : Option UInt64
  createdAt : UInt64
  deriving DecidableEq

def renameIntentKey (renameId : Text) (side : RenameSide) : Text := renameId ++ ':' :: side.asStr

structure FormatMarker where
  fsid : Text
  shardCount : UInt32
  createdAt : UInt64
  formatGeneration : UInt32
  deriving DecidableEq

structure ShardStats where
  inodeCount : UInt64
  fileCount : UInt64
  dirCount : UInt64
  writeQps : UInt64
  readQps : UInt64
  deriving DecidableEq

/-- Writing a record as a document and reading it back. -/
structure JsonCodec (Doc α : Type) where
  toVec : α → Doc
  fromSlice : Doc → Option α
  fromSlice_toVec : ∀ a, fromSlice (toVec a) = some a

structure Json where
  Doc : Type
  inode : JsonCodec Doc InodeInfo
  summary : JsonCodec Doc DirStatSummary
  intent : JsonCodec Doc RenameIntent
  marker : JsonCodec Doc FormatMarker
  stats : JsonCodec Doc ShardStats

/-- The column families. -/
structure Db (Doc : Type) where
  inodes : Map Bytes Doc := ∅
  dirEntries : Map Text Bytes := ∅
  stats : Option Doc := none
  formatMarker : Option Doc := none
  leases : Map Text Bytes := ∅
  childSummaries : Map Bytes Doc := ∅
  renameIntents : Map Text Doc := ∅

structure ShardStore (Doc : Type) where
  inodeRange : UInt64 × UInt64
  db : Db Doc := {}
  inodes : Map UInt64 InodeInfo := ∅
  directoryEntries : Map UInt64 (Map Text UInt64) := ∅
  childSummaries : Map ChildKey DirStatSummary := ∅
  stats : ShardStats := ⟨0, 0, 0, 0, 0⟩

/-- The stores whose documents are those of `json`. -/
abbrev Json.Store (json : Json) : Type := ShardStore json.Doc

variable {json : Json}

namespace ShardStore

variable (s : json.Store)

/-! ## Lookups -/

/-- The entries of a directory. -/
def entriesOf (parentInode : UInt64) : Map Text UInt64 :=
  (s.directoryEntries[parentInode]?).getD ∅

def getInode (inode : UInt64) : Option InodeInfo := s.inodes[inode]?

def getDirEntryInode (parentInode : UInt64) (name : Text) : Option UInt64 :=
  (s.entriesOf parentInode)[name]?

/-- Entries of records that are marked as deleted are not found. -/
def lookup (parentInode : UInt64) (name : Text) : Option InodeInfo :=
  (s.getDirEntryInode parentInode name).bind fun inode =>
    (s.getInode inode).filter fun info => info.deleteTime = 0

def listDirEntryInodes (parentInode : UInt64) : List (Text × UInt64) :=
  (s.entriesOf parentInode).toList

/-- A record is listed under the name of its entry. -/
def listDirectory (parentInode : UInt64) : List InodeInfo :=
  (s.listDirEntryInodes parentInode).filterMap fun e =>
    ((s.getInode e.2).filter fun info => info.deleteTime = 0).map fun info =>
      { info with name := e.1, parentInode := parentInode }

def getChildSummary (parentInode : UInt64) (name : Text) : Option DirStatSummary :=
  s.childSummaries[(⟨parentInode, name⟩ : ChildKey)]?

/-- The map is in the order of the names, as the source sorts them. -/
def listChildSummaries (parentInode : UInt64) : List (Text × DirStatSummary) :=
  s.childSummaries.toList.filterMap fun e =>
    if e.1.parentInode = parentInode then some (e.1.name, e.2) else none

def containsInode (inode : UInt64) : Bool :=
  decide (s.inodeRange.1 ≤ inode) && decide (inode < s.inodeRange.2)

/-! ## Writes -/

/-- A record, in the column family and in memory. -/
def putInode (inode : UInt64) (info : InodeInfo) : json.Store :=
  { s with
    db.inodes := s.db.inodes.insert (beBytes inode) (json.inode.toVec info)
    inodes := s.inodes.insert inode info }

def eraseInode (inode : UInt64) : json.Store :=
  { s with
    db.inodes := s.db.inodes.erase (beBytes inode)
    inodes := s.inodes.erase inode }

def updateInode (info : InodeInfo) : json.Store := s.putInode info.inode info

/-- Change a record that is there. -/
def modifyInode (inode : UInt64) (f : InodeInfo → InodeInfo) : json.Store :=
  match s.inodes[inode]? with
  | none => s
  | some info => s.putInode inode (f info)

/-- `get_inode`, a change, and `update_inode` -/
def updateInodeWith (inode : UInt64) (f : InodeInfo → InodeInfo) : json.Store :=
  match s.inodes[inode]? with
  | none => s
  | some info => s.updateInode (f info)

/-- An entry, in the column family and in memory. -/
def putEntry (parentInode : UInt64) (name : Text) (inode : UInt64) : json.Store :=
  { s with
    db.dirEntries := s.db.dirEntries.insert (dirEntryKey parentInode name) (beBytes inode)
    directoryEntries := s.directoryEntries.insert parentInode
      ((s.entriesOf parentInode).insert name inode) }

/-- The map of a directory stays when its last entry goes. -/
def eraseEntry (parentInode : UInt64) (name : Text) : json.Store :=
  { s with
    db.dirEntries := s.db.dirEntries.erase (dirEntryKey parentInode name)
    directoryEntries := match s.directoryEntries[parentInode]? with
      | none => s.directoryEntries
      | some dir => s.directoryEntries.insert parentInode (dir.erase name) }

/-- Delete the keys that start with the number of a directory. -/
def dropDbEntries (inode : UInt64) : json.Store :=
  { s with
    db.dirEntries := s.db.dirEntries.filter fun key _ =>
      !(decimal inode ++ [':']).isPrefixOf key }

def saveStats : json.Store :=
  { s with db.stats := some (json.stats.toVec s.stats) }

def setStats (stats : ShardStats) : json.Store := saveStats { s with stats := stats }

/-- A record of a type comes in. -/
def countCreated (fileType : FileType) : json.Store :=
  s.setStats { s.stats with
    inodeCount := s.stats.inodeCount + 1
    fileCount := if fileType = .file then s.stats.fileCount + 1 else s.stats.fileCount
    dirCount := if fileType = .directory then s.stats.dirCount + 1 else s.stats.dirCount }

def bumpDirVersion (parentInode : UInt64) : json.Store :=
  s.modifyInode parentInode bumpVersion

def addDirEntry (parentInode : UInt64) (name : Text) (inode : UInt64) : json.Store :=
  (s.putEntry parentInode name inode).bumpDirVersion parentInode

def removeDirEntry (parentInode : UInt64) (name : Text) : json.Store :=
  (s.eraseEntry parentInode name).bumpDirVersion parentInode

/-! ## Files and directories -/

/-- A record under an entry; a record or an entry that is there is replaced. -/
def createLinked (info : InodeInfo) : json.Store :=
  ((s.putInode info.inode info).putEntry info.parentInode info.name info.inode).countCreated
    info.fileType

def createFile (now parentInode : UInt64) (name : Text) (inode : UInt64) : json.Store :=
  s.createLinked (fileInode now inode parentInode name)

def putObject (now parentInode : UInt64) (name : Text) (inode size : UInt64) (fid : Text)
    (volumeId : UInt64) (etag : Text) : json.Store :=
  s.createLinked (objectInode now inode parentInode name size fid volumeId etag)

def createSymlink (now parentInode : UInt64) (name : Text) (inode : UInt64) (target : Text) :
    json.Store :=
  s.createLinked (symlinkInode now inode parentInode name target)

/-- Nothing happens when the inode is there. Otherwise the directory starts with no entries
in memory, whatever is stored for it. -/
def createDirectory (now parentInode : UInt64) (name : Text) (inode : UInt64) : json.Store :=
  if inode ∈ s.inodes then s
  else
    let s := (s.putInode inode (directoryInode now inode parentInode name)).putEntry
      parentInode name inode
    countCreated { s with directoryEntries := s.directoryEntries.insert inode ∅ } .directory

/-- The counters go down for whatever the entry named, a record or not. -/
def deleteFile (parentInode : UInt64) (name : Text) : json.Store :=
  match s.getDirEntryInode parentInode name with
  | none => s.saveStats
  | some inode =>
    let s := s.eraseEntry parentInode name
    match s.inodes[inode]? with
    | some info =>
      if info.nlink > 1 then
        let info := withNlink (info.nlink - 1) info
        saveStats (updateInode { s with inodes := s.inodes.insert inode info } info)
      else
        let s := s.eraseInode inode
        if inode = 0 then s.saveStats
        else s.setStats { s.stats with
          inodeCount := s.stats.inodeCount - 1
          fileCount := if info.fileType = .file then s.stats.fileCount - 1
            else s.stats.fileCount }
    | none =>
      let s := s.eraseInode inode
      if inode = 0 then s.saveStats
      else s.setStats { s.stats with inodeCount := s.stats.inodeCount - 1 }

/-- A child counts as live when its record is in this store and not marked as deleted. -/
def hasLive (inode : UInt64) : Bool :=
  (s.entriesOf inode).toList.any fun e => match s.inodes[e.2]? with
    | some info => decide (info.deleteTime = 0)
    | none => false

/-- The stored entries under the directory go in any case, those in memory only with its
record. -/
def deleteDirectory (parentInode : UInt64) (name : Text) : json.Store :=
  match s.getDirEntryInode parentInode name with
  | none => s.saveStats
  | some inode =>
    if s.hasLive inode then s
    else
      let s := (s.eraseEntry parentInode name).dropDbEntries inode
      match s.inodes[inode]? with
      | none => saveStats (s.eraseInode inode)
      | some info =>
        let s := s.eraseInode inode
        setStats { s with directoryEntries := s.directoryEntries.erase inode } { s.stats with
          inodeCount := s.stats.inodeCount - 1
          dirCount := if info.fileType = .directory then s.stats.dirCount - 1
            else s.stats.dirCount }

def rename (now oldParentInode : UInt64) (oldName : Text) (newParentInode : UInt64)
    (newName : Text) : json.Store :=
  match s.getDirEntryInode oldParentInode oldName with
  | none => s
  | some inode =>
    let s := (s.eraseEntry oldParentInode oldName).putEntry newParentInode newName inode
    let s := s.modifyInode inode (moveTo newName newParentInode)
    (s.modifyInode oldParentInode (touch now)).modifyInode newParentInode (touch now)

def createHardLink (inode newParentInode : UInt64) (newName : Text) : json.Store :=
  let s := s.putEntry newParentInode newName inode
  match s.inodes[inode]? with
  | none => s
  | some info =>
    let info := withNlink (info.nlink + 1) info
    updateInode { s with inodes := s.inodes.insert inode info } info

def createInode (info : InodeInfo) : json.Store :=
  (s.putInode info.inode info).countCreated info.fileType

inductive AtomicCreateOutcome where
  | created
  | existing (winnerInode : UInt64)
  | alreadyExists (winnerInode : UInt64) (typeMismatch : Bool)
  deriving DecidableEq

/-- A name that is taken is left alone. -/
def createFileResolveExisting (info : InodeInfo) (exclusive : Bool) :
    json.Store × Except Unit AtomicCreateOutcome :=
  if !s.containsInode info.inode then (s, .error ())
  else match s.getDirEntryInode info.parentInode info.name with
    | some winner =>
      let typeMismatch := match s.getInode winner with
        | some w => decide (w.fileType ≠ info.fileType)
        | none => false
      if exclusive || typeMismatch then (s, .ok (.alreadyExists winner typeMismatch))
      else (s, .ok (.existing winner))
    | none => ((s.createLinked info).bumpDirVersion info.parentInode, .ok .created)

/-- The entries under a record go from memory in any case, the stored ones only when it was
a directory. -/
def deleteInode (inode : UInt64) : json.Store :=
  let removed := s.inodes[inode]?
  let s := s.eraseInode inode
  match removed with
  | none => { s with directoryEntries := s.directoryEntries.erase inode }
  | some info =>
    let s := if info.fileType = .directory then s.dropDbEntries inode else s
    setStats { s with directoryEntries := s.directoryEntries.erase inode } { s.stats with
      inodeCount := if s.stats.inodeCount = 0 then 0 else s.stats.inodeCount - 1
      fileCount := if info.fileType = .file ∧ s.stats.fileCount ≠ 0 then s.stats.fileCount - 1
        else s.stats.fileCount
      dirCount := if info.fileType = .directory ∧ s.stats.dirCount ≠ 0 then s.stats.dirCount - 1
        else s.stats.dirCount }

/-- `saturating_add` -/
def incrementNlink (inode : UInt64) : json.Store :=
  s.updateInodeWith inode fun info =>
    withNlink (if info.nlink + 1 = 0 then info.nlink else info.nlink + 1) info

def decrementNlinkAndMaybeDelete (inode : UInt64) : json.Store :=
  match s.inodes[inode]? with
  | none => s
  | some info =>
    let nlink := if info.nlink > 0 then info.nlink - 1 else info.nlink
    if nlink = 0 then s.deleteInode inode else s.updateInode (withNlink nlink info)

/-- The root of the file system is inode 1. -/
def applyFormatPosixRoot (now : UInt64) (marker : FormatMarker) : json.Store :=
  if (s.db.formatMarker.bind json.marker.fromSlice).isSome then s
  else createDirectory { s with db.formatMarker := some (json.marker.toVec marker) } now 0 ['/'] 1

/-- Replace a record by what a fallible change makes of it; `none` is no change. -/
def tryUpdate (inode : UInt64) (f : InodeInfo → Except String (Option InodeInfo)) : json.Store :=
  match s.inodes[inode]? with
  | none => s
  | some info => match f info with
    | .ok (some info') => s.putInode inode info'
    | _ => s

/-! ## Renames across shards -/

def getRenameIntent (renameId : Text) (side : RenameSide) : Option RenameIntent :=
  (s.db.renameIntents[renameIntentKey renameId side]?).bind json.intent.fromSlice

def putRenameIntent (intent : RenameIntent) : json.Store :=
  { s with
    db.renameIntents := s.db.renameIntents.insert (renameIntentKey intent.renameId intent.side)
      (json.intent.toVec intent) }

def deleteRenameIntent (renameId : Text) (side : RenameSide) : json.Store :=
  { s with db.renameIntents := s.db.renameIntents.erase (renameIntentKey renameId side) }

def applyRenamePrepareSource (now : UInt64) (renameId : Text) (parentInode : UInt64)
    (name : Text) (inode : UInt64) : json.Store :=
  if (s.getRenameIntent renameId .source).isSome then s
  else (s.removeDirEntry parentInode name).putRenameIntent
    ⟨renameId, .source, inode, parentInode, name, none, now⟩

def applyRenamePrepareDest (now : UInt64) (renameId : Text) (parentInode : UInt64)
    (name : Text) (inode : UInt64) : json.Store :=
  if (s.getRenameIntent renameId .dest).isSome then s
  else
    let replaced := s.getDirEntryInode parentInode name
    let s := if replaced.isSome then s.removeDirEntry parentInode name else s
    (s.addDirEntry parentInode name inode).putRenameIntent
      ⟨renameId, .dest, inode, parentInode, name, replaced, now⟩

def applyRenameAbort (renameId : Text) (side : RenameSide) : json.Store :=
  match s.getRenameIntent renameId side with
  | none => s
  | some intent =>
    let s := match side with
      | .source => s.addDirEntry intent.parentInode intent.name intent.inode
      | .dest =>
        let s := s.removeDirEntry intent.parentInode intent.name
        match intent.replacedInode with
        | some replaced => s.addDirEntry intent.parentInode intent.name replaced
        | none => s
    s.deleteRenameIntent renameId side

/-- Intents from before the threshold are aborted, in this store only. -/
def gcStaleRenameIntents (nowUnixSecs ttlSecs : UInt64) : json.Store :=
  let threshold := if ttlSecs ≤ nowUnixSecs then nowUnixSecs - ttlSecs else 0
  s.db.renameIntents.toList.foldl (fun s e => match json.intent.fromSlice e.2 with
    | none => { s with db.renameIntents := s.db.renameIntents.erase e.1 }
    | some intent =>
      if threshold ≤ intent.createdAt then s
      else s.applyRenameAbort intent.renameId intent.side) s

/-! ## Summaries and leases -/

/-- A summary, in the column family and in memory. -/
def putChildSummary (parentInode : UInt64) (name : Text) (summary : DirStatSummary) : json.Store :=
  { s with
    db.childSummaries := s.db.childSummaries.insert (childSummaryKey parentInode name)
      (json.summary.toVec summary)
    childSummaries := s.childSummaries.insert ⟨parentInode, name⟩ summary }

/-- A summary that is older than the one there is left out. -/
def updateChildSummary (parentInode : UInt64) (name : Text) (summary : DirStatSummary) :
    json.Store :=
  match s.getChildSummary parentInode name with
  | some old =>
    if old.versionTs > summary.versionTs then s else s.putChildSummary parentInode name summary
  | none => s.putChildSummary parentInode name summary

def deleteChildSummary (parentInode : UInt64) (name : Text) : json.Store :=
  { s with
    db.childSummaries := s.db.childSummaries.erase (childSummaryKey parentInode name)
    childSummaries := s.childSummaries.erase ⟨parentInode, name⟩ }

def leasePut (token : Text) (value : Bytes) : json.Store :=
  { s with db.leases := s.db.leases.insert token value }

def leaseDelete (token : Text) : json.Store :=
  { s with db.leases := s.db.leases.erase token }

def leaseEpochKey : Text := ['\x00', 'e', 'p', 'o', 'c', 'h']

def leaseSaveEpoch (epoch : UInt64) : json.Store :=
  s.leasePut leaseEpochKey (toLE 8 epoch.toNat)

end ShardStore

/-! ## Commands -/

inductive ShardCommand where
  | createFile (parentInode : UInt64) (name : Text) (inode : UInt64)
  | updateFile (inode size mtime : UInt64)
  | deleteFile (parentInode : UInt64) (name : Text)
  | createDirectory (parentInode : UInt64) (name : Text) (inode : UInt64)
  | formatPosixRoot (fsid : Text) (shardCount : UInt32) (createdAt : UInt64)
  | deleteDirectory (parentInode : UInt64) (name : Text)
  | rename (oldParentInode : UInt64) (oldName : Text) (newParentInode : UInt64) (newName : Text)
  | putObject (parentInode : UInt64) (name : Text) (inode size : UInt64) (fid : Text)
      (volumeId : UInt64) (etag : Text)
  | setAttr (inode : UInt64) (size mode uid gid mtime atime : Option UInt64)
  | setAttrData (inode : UInt64) (size : Option UInt64)
  | setAttrMeta (inode : UInt64) (mode uid gid mtime atime : Option UInt64) (clientId : Text)
      (timestamp : UInt64)
  | createSymlink (parentInode : UInt64) (name : Text) (inode : UInt64) (target : Text)
  | createHardLink (inode newParentInode : UInt64) (newName : Text)
  | setChunks (inode : UInt64) (fid : Text) (volumeId : UInt64) (cookie : UInt32)
      (offset size : UInt64)
  | updateInodeSizeChunks (inode : UInt64) (update : Update)
  | setXattr (inode : UInt64) (key : Text) (value : Bytes)
  | removeXattr (inode : UInt64) (key : Text)
  | updateReliability (inode : UInt64) (reliability : Reliability)
      (reliabilityState : ReliabilityState) (replicaChunks : List StoredFileChunk)
  | updateToEC (inode : UInt64) (reliability : Reliability)
      (reliabilityState : ReliabilityState) (ecChunks : List StoredFileChunk)
  | updateCompression (inode : UInt64) (chunks replicaChunks : List StoredFileChunk)
      (algo : CompressionAlgo) (ratioX100 : UInt16) (originalSize : UInt64)
  | beginMigration (inode : UInt64) (request : Request)
  | commitMigration (inode epoch : UInt64)
  | createInode (info : InodeInfo)
  | addDirEntry (parentInode : UInt64) (name : Text) (inode : UInt64)
  | createFileAtomic (info : InodeInfo) (exclusive : Bool)
  | deleteInode (inode : UInt64)
  | removeDirEntry (parentInode : UInt64) (name : Text)
  | incrementNlink (inode : UInt64)
  | decrementNlink (inode : UInt64)
  | renameInode (inode : UInt64) (newName : Text) (newParentInode : UInt64)
  | renamePrepareSource (renameId : Text) (parentInode : UInt64) (name : Text) (inode : UInt64)
      (newParentInode : UInt64) (newName : Text)
  | renamePrepareDest (renameId : Text) (parentInode : UInt64) (name : Text) (inode : UInt64)
  | renameCommitSource (renameId : Text) (parentInode : UInt64) (name : Text)
  | renameCommitDest (renameId : Text) (parentInode : UInt64) (name : Text)
  | renameAbort (renameId : Text) (side : UInt8) (parentInode : UInt64) (name : Text)
      (inode : UInt64)
  | leasePut (token : Text) (value : Bytes)
  | leaseDelete (token : Text)
  | leaseSaveEpoch (epoch : UInt64)
  | updateChildSummary (parentInode : UInt64) (name : Text) (summary : DirStatSummary)
  | deleteChildSummary (parentInode : UInt64) (name : Text)

open ShardStore in
/-- One command, at a time of the local clock. -/
def applyCommand (now : UInt64) (s : json.Store) : ShardCommand → json.Store
  | .createFile parentInode name inode => s.createFile now parentInode name inode
  | .updateFile inode size mtime => s.modifyInode inode (updateFile now size mtime)
  | .deleteFile parentInode name => s.deleteFile parentInode name
  | .createDirectory parentInode name inode => s.createDirectory now parentInode name inode
  | .formatPosixRoot fsid shardCount createdAt =>
    s.applyFormatPosixRoot now ⟨fsid, shardCount, createdAt, 1⟩
  | .deleteDirectory parentInode name => s.deleteDirectory parentInode name
  | .rename oldParentInode oldName newParentInode newName =>
    s.rename now oldParentInode oldName newParentInode newName
  | .putObject parentInode name inode size fid volumeId etag =>
    s.putObject now parentInode name inode size fid volumeId etag
  | .setAttr inode size mode uid gid mtime atime =>
    s.updateInodeWith inode (setattr now size mode uid gid mtime atime)
  | .setAttrData inode size => s.updateInodeWith inode (setattrData now size)
  | .setAttrMeta inode mode uid gid mtime atime _ _ =>
    s.updateInodeWith inode (setMeta mode uid gid mtime atime)
  | .createSymlink parentInode name inode target =>
    s.createSymlink now parentInode name inode target
  | .createHardLink inode newParentInode newName =>
    s.createHardLink inode newParentInode newName
  | .setChunks inode fid volumeId _ offset size =>
    s.modifyInode inode (setChunks now fid volumeId offset size)
  | .updateInodeSizeChunks inode update =>
    s.tryUpdate inode fun info => (updateInodeSizeChunks update info).map some
  | .setXattr inode key value => s.modifyInode inode (setXattr now key value)
  | .removeXattr inode key => s.modifyInode inode (removeXattr now key)
  | .updateReliability inode reliability reliabilityState replicaChunks =>
    s.modifyInode inode (updateReliability now reliability reliabilityState replicaChunks)
  | .updateToEC inode reliability reliabilityState ecChunks =>
    s.modifyInode inode (updateToEc now reliability reliabilityState ecChunks)
  | .updateCompression inode chunks replicaChunks algo ratioX100 originalSize =>
    s.modifyInode inode (updateToCompressed now chunks replicaChunks algo ratioX100 originalSize)
  | .beginMigration inode request =>
    match checkMigration inode request.targetMode request.allocs with
    | .error _ => s
    | .ok () => s.tryUpdate inode (beginMigration request)
  | .commitMigration inode epoch => s.tryUpdate inode (commitMigration now epoch)
  | .createInode info => s.createInode info
  | .addDirEntry parentInode name inode => s.addDirEntry parentInode name inode
  | .createFileAtomic info exclusive => (s.createFileResolveExisting info exclusive).1
  | .deleteInode inode => s.deleteInode inode
  | .removeDirEntry parentInode name => s.removeDirEntry parentInode name
  | .incrementNlink inode => s.incrementNlink inode
  | .decrementNlink inode => s.decrementNlinkAndMaybeDelete inode
  | .renameInode inode newName newParentInode =>
    s.updateInodeWith inode (renameInode now newName newParentInode)
  | .renamePrepareSource renameId parentInode name inode _ _ =>
    s.applyRenamePrepareSource now renameId parentInode name inode
  | .renamePrepareDest renameId parentInode name inode =>
    s.applyRenamePrepareDest now renameId parentInode name inode
  | .renameCommitSource renameId _ _ => s.deleteRenameIntent renameId .source
  | .renameCommitDest renameId _ _ => s.deleteRenameIntent renameId .dest
  | .renameAbort renameId side _ _ _ => match RenameSide.fromU8 side with
    | none => s
    | some side => s.applyRenameAbort renameId side
  | .leasePut token value => s.leasePut token value
  | .leaseDelete token => s.leaseDelete token
  | .leaseSaveEpoch epoch => s.leaseSaveEpoch epoch
  | .updateChildSummary parentInode name summary => s.updateChildSummary parentInode name summary
  | .deleteChildSummary parentInode name => s.deleteChildSummary parentInode name

/-- A command of a log, with the time at which it is applied. -/
def step (s : json.Store) (e : UInt64 × ShardCommand) : json.Store :=
  applyCommand e.1 s e.2

def applyLog (s : json.Store) (log : List (UInt64 × ShardCommand)) : json.Store :=
  log.foldl step s

/-- A store over an empty database. -/
def freshStore (json : Json) (inodeRange : UInt64 × UInt64) : json.Store :=
  { inodeRange := inodeRange }

/-! ## Documents as they are -/

inductive PlainDoc where
  | inode (info : InodeInfo)
  | summary (summary : DirStatSummary)
  | intent (intent : RenameIntent)
  | marker (marker : FormatMarker)
  | stats (stats : ShardStats)

/-- The codec that keeps every record as it is. -/
def plainJson : Json where
  Doc := PlainDoc
  inode := ⟨.inode, fun | .inode a => some a | _ => none, fun _ => rfl⟩
  summary := ⟨.summary, fun | .summary a => some a | _ => none, fun _ => rfl⟩
  intent := ⟨.intent, fun | .intent a => some a | _ => none, fun _ => rfl⟩
  marker := ⟨.marker, fun | .marker a => some a | _ => none, fun _ => rfl⟩
  stats := ⟨.stats, fun | .stats a => some a | _ => none, fun _ => rfl⟩

/-- A new store with that codec. -/
abbrev plainStore : plainJson.Store := freshStore plainJson (0, 100)

end PowerFS.Filer.MetadataShard
