import PowerFS.Filer.ShardFacts

/-! # What a command does to one record

A command either changes the record of the one inode it names in place, by a function of
that record (`recordEffect`), or it works on names: then a record is made by the command,
is gone, or keeps its file and changes at most its name, parent, link count, version and
times. What a log of commands does to one file rests on these two cases. -/
namespace PowerFS.Filer.RecordSteps
open Lib.ByteString Lib.OrderedMap InodeRecords MetadataShard ShardFacts ShardStore Option

variable {json : Json} {s : json.Store} {now : UInt64}

/-! ## Lookups of records -/

theorem getInode_putInode (inode : UInt64) (info : InodeInfo) (i : UInt64) :
    (s.putInode inode info).getInode i = if inode = i then some info else s.getInode i :=
  get_insert s.inodes inode i info

theorem getInode_eraseInode (inode i : UInt64) :
    (s.eraseInode inode).getInode i = if inode = i then none else s.getInode i :=
  get_erase s.inodes inode i

theorem getInode_self {inode : UInt64} {found : Option InodeInfo} (h : s.getInode inode = found)
    (i : UInt64) : s.getInode i = if inode = i then found else s.getInode i := by
  rw [right_eq_ite_iff]
  intro heq
  exact heq ▸ h

theorem getInode_modifyInode (inode : UInt64) (f : InodeInfo → InodeInfo) (i : UInt64) :
    (s.modifyInode inode f).getInode i =
      if inode = i then (s.getInode inode).map f else s.getInode i := by
  unfold modifyInode
  cases hi : s.inodes[inode]? with
  | none =>
    have hget : s.getInode inode = none := hi
    rw [hget]
    exact getInode_self hget i
  | some info =>
    have hget : s.getInode inode = some info := hi
    rw [hget]
    exact getInode_putInode inode (f info) i

variable {inode : UInt64} {a b info info' : InodeInfo} {cmd : ShardCommand}

theorem modifyInode_of_none (h : s.getInode inode = none) (f : InodeInfo → InodeInfo) :
    s.modifyInode inode f = s := by
  unfold modifyInode
  rw [show s.inodes[inode]? = none from h]

theorem updateInodeWith_of_none (h : s.getInode inode = none) (f : InodeInfo → InodeInfo) :
    s.updateInodeWith inode f = s := by
  unfold updateInodeWith
  rw [show s.inodes[inode]? = none from h]

theorem getInode_modifyInode_isNone (inode : UInt64) (f : InodeInfo → InodeInfo) (i : UInt64) :
    (s.modifyInode inode f).getInode i = none ↔ s.getInode i = none := by
  rw [getInode_modifyInode]
  split
  case isTrue heq => rw [heq, map_eq_none_iff]
  case isFalse => rfl

theorem createLinked_record (info : InodeInfo) (k : UInt64) :
    (s.createLinked info).getInode k =
      if info.inode = k then some info else s.getInode k :=
  getInode_putInode info.inode info k

/-- A change that may fail, as a function: a failure is no change. -/
def attempt (f : InodeInfo → Except String (Option InodeInfo)) (info : InodeInfo) : InodeInfo :=
  match f info with
  | .ok (some info') => info'
  | _ => info

theorem getInode_tryUpdate (inode : UInt64) (f : InodeInfo → Except String (Option InodeInfo))
    (i : UInt64) :
    (s.tryUpdate inode f).getInode i =
      if inode = i then (s.getInode inode).map (attempt f) else s.getInode i := by
  unfold tryUpdate
  cases hi : s.inodes[inode]? with
  | none =>
    have hget : s.getInode inode = none := hi
    rw [hget]
    exact getInode_self hget i
  | some info =>
    have hget : s.getInode inode = some info := hi
    rw [hget, map_some, attempt]
    dsimp only
    cases hf : f info with
    | error e => exact getInode_self hget i
    | ok updated => cases updated with
      | none => exact getInode_self hget i
      | some info' => exact getInode_putInode inode info' i

/-! ## Commands on one record -/

/-- The inode whose record a command changes in place. -/
def target : ShardCommand → Option UInt64
  | .updateFile inode .. | .setAttr inode .. | .setAttrData inode .. | .setAttrMeta inode ..
  | .setChunks inode .. | .updateInodeSizeChunks inode .. | .setXattr inode ..
  | .removeXattr inode .. | .updateReliability inode .. | .updateToEC inode ..
  | .updateCompression inode .. | .beginMigration inode .. | .commitMigration inode ..
  | .incrementNlink inode | .renameInode inode .. => some inode
  | _ => none

/-- What the command makes of that record. -/
def recordEffect (now : UInt64) : ShardCommand → InodeInfo → InodeInfo
  | .updateFile _ size mtime => updateFile now size mtime
  | .setAttr _ size mode uid gid mtime atime => setattr now size mode uid gid mtime atime
  | .setAttrData _ size => setattrData now size
  | .setAttrMeta _ mode uid gid mtime atime _ _ => setMeta mode uid gid mtime atime
  | .setChunks _ fid volumeId _ offset size => setChunks now fid volumeId offset size
  | .updateInodeSizeChunks _ u => attempt fun info => (updateInodeSizeChunks u info).map some
  | .setXattr _ key value => setXattr now key value
  | .removeXattr _ key => removeXattr now key
  | .updateReliability _ reliability state chunks => updateReliability now reliability state chunks
  | .updateToEC _ reliability state chunks => updateToEc now reliability state chunks
  | .updateCompression _ chunks replicas algo ratio size =>
    updateToCompressed now chunks replicas algo ratio size
  | .beginMigration inode r =>
    match checkMigration inode r.targetMode r.allocs with
    | .error _ => id
    | .ok () => attempt (beginMigration r)
  | .commitMigration _ epoch => attempt (commitMigration now epoch)
  | .incrementNlink _ => fun info =>
    withNlink (if info.nlink + 1 = 0 then info.nlink else info.nlink + 1) info
  | .renameInode _ newName newParentInode => renameInode now newName newParentInode
  | _ => id

variable {epoch : UInt64} {c : InodeInfo} {f : InodeInfo → Except String (Option InodeInfo)}
  {P : json.Store → Prop}

/-- A commit that finds no window of its epoch, or no volume in it, changes nothing. -/
theorem commit_refused (now i : UInt64)
    (h : ∀ window, info.migration = some window → window.epoch = epoch → window.allocs = []) :
    recordEffect now (.commitMigration i epoch) info = info := by
  dsimp only [recordEffect, attempt]
  fun_cases commitMigration with
  | case5 window hwindow _ hepoch _ _ _ hallocs =>
    rw [h window hwindow (not_not.mp hepoch)] at hallocs
    cases hallocs
  | _ => rfl

/-! ## What stays with a record -/

/-- Two records of one inode, and of one type. -/
def SameInode (a b : InodeInfo) : Prop := a.inode = b.inode ∧ a.fileType = b.fileType

theorem SameInode.trans (hab : SameInode a b) (hbc : SameInode b c) : SameInode a c :=
  ⟨hab.1.trans hbc.1, hab.2.trans hbc.2⟩

theorem sameInode_sync {u : Update} (h : updateInodeSizeChunks u info = .ok info') :
    SameInode info' info := by
  have hsync : SameInode (syncData u info) info := by
    fun_cases syncData <;> exact ⟨rfl, rfl⟩
  have hbackfill : ∀ info, SameInode (backfillFid info) info := by
    intro info
    fun_cases backfillFid <;> exact ⟨rfl, rfl⟩
  have hreset : ∀ info, SameInode (resetDerived info) info := by
    intro info
    unfold resetDerived
    split <;> exact ⟨rfl, rfl⟩
  have hstored := (hbackfill { syncData u info with
    storageMode := modeOfData (syncData u info) }).trans hsync
  unfold updateInodeSizeChunks at h
  split at h
  · cases h
  obtain rfl := Except.ok.inj h
  split
  · exact (hreset _).trans hstored
  · exact hstored

theorem sameInode_beginMigration {r : Request} (h : beginMigration r info = .ok (some info')) :
    SameInode info' info := by
  revert h
  fun_cases beginMigration with
  | case5 =>
    rintro ⟨⟩
    exact ⟨rfl, rfl⟩
  | _ => rintro ⟨⟩

theorem sameInode_commitMigration (h : commitMigration now epoch info = .ok (some info')) :
    SameInode info' info := by
  revert h
  fun_cases commitMigration with
  | case5 =>
    rintro ⟨⟩
    exact ⟨rfl, rfl⟩
  | _ => rintro ⟨⟩

theorem sameInode_attempt (h : ∀ info', f info = .ok (some info') → SameInode info' info) :
    SameInode (attempt f info) info := by
  unfold attempt
  split
  case h_1 info' hok => exact h info' hok
  case h_2 => exact ⟨rfl, rfl⟩

/-- **A command on a record leaves whose it is, and its type.** -/
theorem recordEffect_sameInode (cmd : ShardCommand) (info : InodeInfo) :
    SameInode (recordEffect now cmd info) info := by
  cases cmd with
  | setAttrData i size => cases size <;> exact ⟨rfl, rfl⟩
  | updateInodeSizeChunks i u =>
    refine sameInode_attempt fun info' hok => ?_
    cases hsync : updateInodeSizeChunks u info with
    | error e =>
      rw [hsync] at hok
      cases hok
    | ok updated =>
      rw [hsync] at hok
      obtain rfl := some.inj (Except.ok.inj hok)
      exact sameInode_sync hsync
  | beginMigration i r =>
    dsimp only [recordEffect]
    cases checkMigration i r.targetMode r.allocs with
    | error e => exact ⟨rfl, rfl⟩
    | ok u => exact sameInode_attempt fun _ => sameInode_beginMigration
  | commitMigration i epoch => exact sameInode_attempt fun _ => sameInode_commitMigration
  | _ => exact ⟨rfl, rfl⟩

/-- The same file: its record differs at most in name, parent, link count, version and times. -/
def SameFile (a b : InodeInfo) : Prop :=
  ∃ (name : Text) (parentInode mtime ctime version : UInt64) (nlink : UInt32),
    b = { a with
      name := name, parentInode := parentInode, mtime := mtime, ctime := ctime,
      version := version, nlink := nlink }

theorem SameFile.refl (a : InodeInfo) : SameFile a a :=
  ⟨a.name, a.parentInode, a.mtime, a.ctime, a.version, a.nlink, rfl⟩

theorem SameFile.trans (hab : SameFile a b) (hbc : SameFile b c) : SameFile a c := by
  obtain ⟨_, _, _, _, _, _, rfl⟩ := hab
  obtain ⟨_, _, _, _, _, _, rfl⟩ := hbc
  exact ⟨_, _, _, _, _, _, rfl⟩

theorem SameFile.sameInode (h : SameFile a b) : SameInode b a := by
  obtain ⟨_, _, _, _, _, _, rfl⟩ := h
  exact ⟨rfl, rfl⟩

/-- The record that a command makes, if it makes one. -/
def creates (now : UInt64) : ShardCommand → Option InodeInfo
  | .createFile parentInode name inode => some (fileInode now inode parentInode name)
  | .createDirectory parentInode name inode => some (directoryInode now inode parentInode name)
  | .formatPosixRoot .. => some (directoryInode now 1 0 ['/'])
  | .putObject parentInode name inode size fid volumeId etag =>
    some (objectInode now inode parentInode name size fid volumeId etag)
  | .createSymlink parentInode name inode target =>
    some (symlinkInode now inode parentInode name target)
  | .createInode info | .createFileAtomic info _ => some info
  | _ => none

/-! ## The writes of a command

Every command is a sequence of a few kinds of writes, so what holds after it is shown by
induction on them. -/

/-- The commands that make or drop records, and count them. -/
def counts : ShardCommand → Bool
  | .createFile .. | .putObject .. | .createSymlink .. | .createInode .. | .createDirectory ..
  | .formatPosixRoot .. | .createFileAtomic .. | .deleteFile .. | .deleteDirectory ..
  | .deleteInode .. | .decrementNlink .. => true
  | _ => false

/-- The commands of the rename protocol. -/
def ofRename : ShardCommand → Bool
  | .renamePrepareSource .. | .renamePrepareDest .. | .renameCommitSource ..
  | .renameCommitDest .. | .renameAbort .. => true
  | _ => false

/-- The commands that make the map of a directory, or drop it. -/
def ofDirectories : ShardCommand → Bool
  | .createDirectory .. | .formatPosixRoot .. | .deleteDirectory .. | .deleteInode ..
  | .decrementNlink .. => true
  | _ => false

/-- The name under which a command makes an entry or an intent. -/
def written (s : json.Store) : ShardCommand → Option Text
  | .createFile _ name _ | .putObject _ name .. | .createSymlink _ name ..
  | .createDirectory _ name _ | .addDirEntry _ name _ | .createHardLink _ _ name
  | .rename _ _ _ name | .renamePrepareSource _ _ name .. | .renamePrepareDest _ _ name _ =>
    some name
  | .createFileAtomic info _ => some info.name
  | .formatPosixRoot .. => some ['/']
  | .renameAbort renameId side .. => (RenameSide.fromU8 side).bind fun side =>
      (s.getRenameIntent renameId side).map (·.name)
  | _ => none

/-- A change of a record that the command makes. -/
def Changes (now : UInt64) (cmd : ShardCommand) (i : UInt64) (a b : InodeInfo) : Prop :=
  SameFile a b ∨ target cmd = some i ∧ b = recordEffect now cmd a

/-- The records that a command may drop. -/
def Drops (s : json.Store) (i : UInt64) : ShardCommand → Prop
  | .deleteFile parentInode name => s.getDirEntryInode parentInode name = some i
  | .deleteDirectory parentInode name =>
    s.getDirEntryInode parentInode name = some i ∧ s.hasLive i = false
  | .deleteInode inode | .decrementNlink inode => inode = i
  | _ => False

/-- The directory in which a command makes an entry. -/
def writtenTo (s : json.Store) : ShardCommand → Option UInt64
  | .createFile parentInode .. | .putObject parentInode .. | .createSymlink parentInode ..
  | .createDirectory parentInode .. | .addDirEntry parentInode ..
  | .createHardLink _ parentInode _ | .rename _ _ parentInode _
  | .renamePrepareDest _ parentInode .. => some parentInode
  | .createFileAtomic info _ => some info.parentInode
  | .formatPosixRoot .. => some 0
  | .renameAbort renameId side .. => (RenameSide.fromU8 side).bind fun side =>
      (s.getRenameIntent renameId side).map (·.parentInode)
  | _ => none

/-- The stores that the writes of the command in the store `s` lead to. -/
inductive Writes (now : UInt64) (cmd : ShardCommand) (s : json.Store) :
    json.Store → Prop
  | start : Writes now cmd s s
  | make {info : InodeInfo} (h : Writes now cmd s t) (hmake : creates now cmd = some info) :
    Writes now cmd s (t.putInode info.inode info)
  | change {info info' : InodeInfo} (h : Writes now cmd s t) (hinfo : t.getInode i = some info)
    (hi : info'.inode = i) (hchange : Changes now cmd i info info') :
    Writes now cmd s (t.putInode i info')
  | eraseInode (h : Writes now cmd s t) (hdrops : Drops s i cmd) : Writes now cmd s (t.eraseInode i)
  | putEntry (h : Writes now cmd s t) (i : UInt64) (hparent : writtenTo s cmd = some p)
    (hname : written s cmd = some n) : Writes now cmd s (t.putEntry p n i)
  | eraseEntry (h : Writes now cmd s t) (p : UInt64) (n : Text) (htarget : target cmd = none) :
    Writes now cmd s (t.eraseEntry p n)
  | dirs (h : Writes now cmd s t) (d : Map Text Bytes) (hdirs : ofDirectories cmd = true)
    (hm : m = t.directoryEntries ∨ ∃ i : UInt64,
      m = t.directoryEntries.erase i ∨ m = t.directoryEntries.insert i ∅) :
    Writes now cmd s { t with db.dirEntries := d, directoryEntries := m }
  | stats (h : Writes now cmd s t) (st : ShardStats) (doc : Option json.Doc)
    (hcounts : counts cmd = true) : Writes now cmd s { t with stats := st, db.stats := doc }
  | putIntent (h : Writes now cmd s t) (hof : ofRename cmd = true)
    (hname : written s cmd = some intent.name) : Writes now cmd s (t.putRenameIntent intent)
  | deleteIntent (h : Writes now cmd s t) (id : Text) (side : RenameSide)
    (hof : ofRename cmd = true) : Writes now cmd s (t.deleteRenameIntent id side)
  | putSummary (h : Writes now cmd s t) (p : UInt64) (n : Text) (summary : DirStatSummary) :
    Writes now cmd s (t.putChildSummary p n summary)
  | deleteSummary (h : Writes now cmd s t) (p : UInt64) (n : Text) :
    Writes now cmd s (t.deleteChildSummary p n)
  | other (h : Writes now cmd s t) (marker : Option json.Doc) (leases : Map Text Bytes) :
    Writes now cmd s { t with db.formatMarker := marker, db.leases := leases }

theorem Changes.sameInode {i : UInt64} (h : Changes now cmd i info info') :
    SameInode info' info := by
  rcases h with hfile | ⟨-, rfl⟩
  · exact hfile.sameInode
  · exact recordEffect_sameInode cmd info

namespace Writes

variable {t : json.Store} (hnum : Numbered s) (h : Writes now cmd s t) {i : UInt64}
  {n : Text}
include hnum h

theorem numbered : Numbered t := by
  induction h with
  | start => exact hnum
  | make _ _ ih => exact ih.putInode rfl
  | change _ _ hi _ ih => exact ih.putInode hi
  | eraseInode _ _ ih => exact ih.eraseInode _
  | _ =>
    rename_i ih
    exact ih.congr rfl

theorem put (hinfo : t.getInode i = some info) (hchange : Changes now cmd i info info') :
    Writes now cmd s (t.putInode i info') :=
  h.change hinfo (hchange.sameInode.1.trans (h.numbered hnum i info hinfo)) hchange

/-- A record that is first changed in memory is just written. -/
theorem update (hinfo : t.getInode i = some info) (hfile : SameFile info info') :
    Writes now cmd s (updateInode { t with inodes := t.inodes.insert i info' } info') := by
  rw [updateInode_eq (hfile.sameInode.1.trans (h.numbered hnum i info hinfo)) rfl]
  exact h.put hnum hinfo (.inl hfile)

theorem modifyInode {f : InodeInfo → InodeInfo} (hf : ∀ info, Changes now cmd i info (f info)) :
    Writes now cmd s (t.modifyInode i f) := by
  unfold ShardStore.modifyInode
  cases hi : t.inodes[i]? with
  | none => exact h
  | some info => exact h.put hnum hi (hf info)

theorem updateInodeWith (htarget : target cmd = some i) :
    Writes now cmd s (t.updateInodeWith i (recordEffect now cmd)) := by
  rw [updateInodeWith_eq (h.numbered hnum) fun info => (recordEffect_sameInode cmd info).1]
  exact h.modifyInode hnum fun _ => .inr ⟨htarget, rfl⟩

theorem tryUpdate (htarget : target cmd = some i) (hf : recordEffect now cmd = attempt f) :
    Writes now cmd s (t.tryUpdate i f) := by
  fun_cases tryUpdate with
  | case2 info hi info' hok =>
    refine h.put hnum hi (.inr ⟨htarget, ?_⟩)
    rw [hf, attempt, hok]
  | _ => exact h

theorem addDirEntry {p : UInt64} (i : UInt64) (hparent : writtenTo s cmd = some p)
    (hname : written s cmd = some n) : Writes now cmd s (t.addDirEntry p n i) :=
  (h.putEntry i hparent hname).modifyInode hnum fun _ => .inl ⟨_, _, _, _, _, _, rfl⟩

theorem removeDirEntry (p : UInt64) (n : Text) (htarget : target cmd = none) :
    Writes now cmd s (t.removeDirEntry p n) :=
  (h.eraseEntry p n htarget).modifyInode hnum fun _ => .inl ⟨_, _, _, _, _, _, rfl⟩

omit hnum

theorem createLinked (hmake : creates now cmd = some info)
    (hparent : writtenTo s cmd = some info.parentInode) (hname : written s cmd = some info.name)
    (hcounts : counts cmd = true) : Writes now cmd s (t.createLinked info) :=
  ((h.make hmake).putEntry _ hparent hname).stats _ _ hcounts

theorem createDirectory {p : UInt64} (hmake : creates now cmd = some (directoryInode now i p n))
    (hparent : writtenTo s cmd = some p) (hname : written s cmd = some n)
    (hcounts : counts cmd = true) (hdirs : ofDirectories cmd = true) :
    Writes now cmd s (t.createDirectory now p n i) := by
  unfold ShardStore.createDirectory
  split
  · exact h
  · have hentry := (h.make hmake).putEntry i hparent hname
    exact (hentry.dirs _ hdirs (.inr ⟨i, .inr rfl⟩)).stats _ _ hcounts

theorem deleteInode (hdrops : Drops s i cmd) (hcounts : counts cmd = true)
    (hdirs : ofDirectories cmd = true) : Writes now cmd s (t.deleteInode i) := by
  have hgone : ∀ d, Writes now cmd s _ := fun d =>
    (h.eraseInode hdrops).dirs d hdirs (.inr ⟨i, .inl rfl⟩)
  unfold ShardStore.deleteInode
  dsimp only
  split
  · exact hgone _
  rename_i info _
  by_cases hdir : info.fileType = .directory
  · rw [if_pos hdir]
    exact (hgone _).stats _ _ hcounts
  · rw [if_neg hdir]
    exact (hgone _).stats _ _ hcounts

end Writes

open MetadataShard

/-- **A command is a sequence of its writes.** -/
theorem writes_applyCommand (hnum : Numbered s) : Writes now cmd s (applyCommand now s cmd) := by
  have hstart : Writes now cmd s s := .start
  cases cmd with
  | createFile | putObject | createSymlink => exact hstart.createLinked rfl rfl rfl rfl
  | createInode info => exact (hstart.make rfl).stats _ _ rfl
  | updateFile | setChunks | setXattr | removeXattr | updateReliability | updateToEC
  | updateCompression => exact hstart.modifyInode hnum fun _ => .inr ⟨rfl, rfl⟩
  | setAttr | setAttrData | setAttrMeta | incrementNlink | renameInode =>
    exact hstart.updateInodeWith hnum rfl
  | updateInodeSizeChunks | commitMigration => exact hstart.tryUpdate hnum rfl rfl
  | beginMigration i r =>
    dsimp only [applyCommand]
    split
    · exact hstart
    rename_i hcheck
    refine hstart.tryUpdate hnum rfl ?_
    dsimp only [recordEffect]
    rw [hcheck]
  | deleteFile p n =>
    have herased := hstart.eraseEntry p n rfl
    dsimp only [applyCommand]
    fun_cases deleteFile with
    | case1 => exact hstart.stats s.stats _ rfl
    | case2 inode _ _ info hinfo =>
      exact (herased.update hnum hinfo ⟨_, _, _, _, _, _, rfl⟩).stats s.stats _ rfl
    | case3 | case4 | case5 | case6 => exact (herased.eraseInode ‹_›).stats _ _ rfl
  | createDirectory p n i => exact hstart.createDirectory rfl rfl rfl rfl rfl
  | formatPosixRoot fsid shardCount createdAt =>
    dsimp only [applyCommand, applyFormatPosixRoot]
    split
    · exact hstart
    have hmarked := hstart.other (some (json.marker.toVec ⟨fsid, shardCount, createdAt, 1⟩))
      s.db.leases
    exact hmarked.createDirectory rfl rfl rfl rfl rfl
  | deleteDirectory p n =>
    have hgone : ∀ i, Drops s i (.deleteDirectory p n) →
        Writes now _ s (((s.eraseEntry p n).dropDbEntries i).eraseInode i) := fun i hdrops =>
      ((hstart.eraseEntry p n rfl).dirs _ rfl (.inl rfl)).eraseInode hdrops
    dsimp only [applyCommand]
    fun_cases deleteDirectory with
    | case1 => exact hstart.stats s.stats _ rfl
    | case2 => exact hstart
    | case3 i hentry hlive =>
      have hdropped := hgone i ⟨hentry, Bool.eq_false_iff.mpr hlive⟩
      exact hdropped.stats s.stats _ rfl
    | case4 i hentry hlive =>
      have hdropped := hgone i ⟨hentry, Bool.eq_false_iff.mpr hlive⟩
      exact (hdropped.dirs _ rfl (.inr ⟨i, .inl rfl⟩)).stats _ _ rfl
  | rename p n q m =>
    dsimp only [applyCommand, rename]
    split
    · exact hstart
    rename_i inode _
    have hmoved := (hstart.eraseEntry p n rfl).putEntry inode rfl rfl
    have hnamed := hmoved.modifyInode hnum (i := inode) (f := moveTo m q)
      fun _ => .inl ⟨_, _, _, _, _, _, rfl⟩
    have htouched := hnamed.modifyInode hnum (i := p) (f := touch now)
      fun _ => .inl ⟨_, _, _, _, _, _, rfl⟩
    exact htouched.modifyInode hnum fun _ => .inl ⟨_, _, _, _, _, _, rfl⟩
  | createHardLink i p n =>
    have hput := hstart.putEntry i rfl rfl
    dsimp only [applyCommand, createHardLink]
    split
    · exact hput
    · rename_i info hinfo
      exact hput.update hnum hinfo ⟨_, _, _, _, _, _, rfl⟩
  | addDirEntry p n i => exact hstart.addDirEntry hnum i rfl rfl
  | createFileAtomic info exclusive =>
    dsimp only [applyCommand]
    rw [createFileResolveExisting_eq]
    split
    · have hmade : Writes now _ s (s.createLinked info) := hstart.createLinked rfl rfl rfl rfl
      exact hmade.modifyInode hnum fun _ => .inl ⟨_, _, _, _, _, _, rfl⟩
    · exact hstart
  | deleteInode i => exact hstart.deleteInode rfl rfl rfl
  | removeDirEntry p n => exact hstart.removeDirEntry hnum p n rfl
  | decrementNlink i =>
    dsimp only [applyCommand, decrementNlinkAndMaybeDelete]
    cases hi : s.inodes[i]? with
    | none => exact hstart
    | some info =>
      dsimp only
      generalize (if info.nlink > 0 then info.nlink - 1 else info.nlink) = nlink
      split
      · exact hstart.deleteInode rfl rfl rfl
      obtain rfl : info.inode = i := hnum i info hi
      exact hstart.put hnum hi (.inl ⟨_, _, _, _, _, _, rfl⟩)
  | renamePrepareSource id p n i q m =>
    dsimp only [applyCommand, applyRenamePrepareSource]
    split
    · exact hstart
    · exact (hstart.removeDirEntry hnum p n rfl).putIntent rfl rfl
  | renamePrepareDest id p n i =>
    dsimp only [applyCommand, applyRenamePrepareDest]
    split
    · exact hstart
    split
    · have hremoved := hstart.removeDirEntry hnum p n rfl
      exact (hremoved.addDirEntry hnum i rfl rfl).putIntent rfl rfl
    · exact (hstart.addDirEntry hnum i rfl rfl).putIntent rfl rfl
  | renameCommitSource | renameCommitDest => exact hstart.deleteIntent _ _ rfl
  | renameAbort id side p n i =>
    dsimp only [applyCommand]
    split
    · exact hstart
    rename_i side' hside
    unfold applyRenameAbort
    split
    · exact hstart
    rename_i intent hintent
    have hname : written s (.renameAbort id side p n i) = some intent.name ∧
        writtenTo s (.renameAbort id side p n i) = some intent.parentInode := by
      simp only [written, writtenTo, hside, bind_some, hintent, map_some, and_self]
    cases side' with
    | source => exact (hstart.addDirEntry hnum intent.inode hname.2 hname.1).deleteIntent id _ rfl
    | dest =>
      have hremoved := hstart.removeDirEntry hnum intent.parentInode intent.name rfl
      dsimp only
      split
      · rename_i replaced _
        exact (hremoved.addDirEntry hnum replaced hname.2 hname.1).deleteIntent id _ rfl
      · exact hremoved.deleteIntent id _ rfl
  | leasePut | leaseDelete | leaseSaveEpoch => exact hstart.other _ _
  | updateChildSummary p n summary =>
    rcases updateChildSummary_cases p n summary with heq | heq
    · rw [heq]
      exact hstart
    · rw [heq]
      exact hstart.putSummary p n summary
  | deleteChildSummary p n => exact hstart.deleteSummary p n

/-! ## What follows for every command -/

theorem applyCommand_numbered (h : Numbered s) (now : UInt64) (cmd : ShardCommand) :
    Numbered (applyCommand now s cmd) :=
  (writes_applyCommand h).numbered h

theorem applyLog_numbered (h : Numbered s) (log : List (UInt64 × ShardCommand)) :
    Numbered (applyLog s log) := by
  induction log generalizing s with
  | nil => exact h
  | cons e log ih => exact ih (applyCommand_numbered h e.1 e.2)

/-- Commands that count nothing leave the counters. -/
theorem stats_frame (hnum : Numbered s) (h : counts cmd = false) :
    (applyCommand now s cmd).stats = s.stats := by
  have hwrites : Writes now cmd s (applyCommand now s cmd) := writes_applyCommand hnum
  generalize applyCommand now s cmd = t at hwrites ⊢
  induction hwrites with
  | start => rfl
  | stats _ _ _ hcounts =>
    rw [h] at hcounts
    cases hcounts
  | _ => assumption

/-- Commands on a record touch neither entries nor counters. -/
theorem record_frame (hnum : Numbered s) (htarget : target cmd = some inode) :
    (applyCommand now s cmd).directoryEntries = s.directoryEntries ∧
      (applyCommand now s cmd).stats = s.stats := by
  have hquiet : counts cmd = false ∧ ofDirectories cmd = false ∧ written s cmd = none := by
    cases cmd with
    | updateFile | setChunks | setXattr | removeXattr | updateReliability | updateToEC
    | updateCompression | setAttr | setAttrData | setAttrMeta | incrementNlink | renameInode
    | updateInodeSizeChunks | commitMigration | beginMigration => exact ⟨rfl, rfl, rfl⟩
    | _ => cases htarget
  obtain ⟨hcounts, hdirs, hwritten⟩ := hquiet
  have hwrites : Writes now cmd s (applyCommand now s cmd) := writes_applyCommand hnum
  generalize applyCommand now s cmd = t at hwrites ⊢
  induction hwrites with
  | start => exact ⟨rfl, rfl⟩
  | putEntry | eraseEntry | dirs | stats => simp_all
  | _ => assumption

/-- **A command on a record changes that record and no other.** -/
theorem getInode_record (h : Numbered s) (htarget : target cmd = some inode) (i : UInt64) :
    (applyCommand now s cmd).getInode i =
      if inode = i then (s.getInode inode).map (recordEffect now cmd) else s.getInode i := by
  have hupdate : ∀ t : json.Store, t = s.updateInodeWith inode (recordEffect now cmd) →
      t.getInode i =
        if inode = i then (s.getInode inode).map (recordEffect now cmd) else s.getInode i := by
    rintro t rfl
    rw [updateInodeWith_eq h fun info => (recordEffect_sameInode cmd info).1]
    exact getInode_modifyInode _ _ i
  cases cmd with
  | updateFile | setChunks | setXattr | removeXattr | updateReliability | updateToEC
  | updateCompression =>
    obtain rfl := some.inj htarget
    exact getInode_modifyInode _ _ i
  | setAttr | setAttrData | setAttrMeta | renameInode | incrementNlink =>
    obtain rfl := some.inj htarget
    exact hupdate _ rfl
  | updateInodeSizeChunks | commitMigration =>
    obtain rfl := some.inj htarget
    exact getInode_tryUpdate _ _ i
  | beginMigration j r =>
    obtain rfl := some.inj htarget
    dsimp only [applyCommand, recordEffect]
    cases checkMigration j r.targetMode r.allocs with
    | ok u => exact getInode_tryUpdate _ _ i
    | error e =>
      rw [right_eq_ite_iff]
      intro heq
      rw [heq, map_id_fun, id]
  | _ => cases htarget

/-! ## Commands on names -/

/-- A record that is there afterwards is that of the same file. -/
def Kept (before after : Option InodeInfo) : Prop :=
  ∀ b, after = some b → ∃ a, before = some a ∧ SameFile a b

theorem Kept.refl (r : Option InodeInfo) : Kept r r := fun b hb => ⟨b, hb, SameFile.refl b⟩

theorem Kept.trans {r₁ r₂ r₃ : Option InodeInfo} (h₁ : Kept r₁ r₂) (h₂ : Kept r₂ r₃) :
    Kept r₁ r₃ := by
  intro c hc
  obtain ⟨b, hb, hbc⟩ := h₂ c hc
  obtain ⟨a, ha, hab⟩ := h₁ b hb
  exact ⟨a, ha, hab.trans hbc⟩

theorem Kept.gone (r : Option InodeInfo) : Kept r none := by
  intro b hb
  cases hb

/-- A record as it was, or as a command made it. -/
def KeptOrMade (s : json.Store) (made : Option InodeInfo) (i : UInt64)
    (after : Option InodeInfo) : Prop :=
  Kept (s.getInode i) after ∨ ∃ info, made = some info ∧ info.inode = i ∧ Kept (some info) after

/-- **A command on names makes a record, drops it or keeps its file.** -/
theorem getInode_names (h : Numbered s) (now : UInt64) (htarget : target cmd = none) (i : UInt64) :
    KeptOrMade s (creates now cmd) i ((applyCommand now s cmd).getInode i) := by
  have hwrites : Writes now cmd s (applyCommand now s cmd) := writes_applyCommand h
  generalize applyCommand now s cmd = t at hwrites ⊢
  induction hwrites with
  | start => exact .inl (Kept.refl _)
  | @make t info _ hmake ht =>
    rw [getInode_putInode]
    split
    case isTrue heq => exact .inr ⟨info, hmake, heq, Kept.refl _⟩
    case isFalse => exact ht
  | @change t j info info' _ hinfo _ hchange ht =>
    rcases hchange with hfile | ⟨hself, -⟩
    · have hkept : Kept (t.getInode i) ((t.putInode j info').getInode i) := by
        rw [getInode_putInode]
        split
        case isTrue heq =>
          subst heq
          rintro b ⟨⟩
          exact ⟨info, hinfo, hfile⟩
        case isFalse => exact Kept.refl _
      rcases ht with hold | ⟨made, hmade, hnum, hold⟩
      · exact .inl (hold.trans hkept)
      · exact .inr ⟨made, hmade, hnum, hold.trans hkept⟩
    · rw [htarget] at hself
      cases hself
  | eraseInode _ _ ht =>
    rw [getInode_eraseInode]
    split
    · exact .inl (Kept.gone _)
    · exact ht
  | _ => assumption

end PowerFS.Filer.RecordSteps
