import PowerFS.Filer.Intents
import PowerFS.Filer.InlineMerges

/-! # Applying commands again

A suffix of the log of a shard is applied a second time, as after a restart. `Settled` says
of a command that it finds its work done: what it puts is there, what it takes away is gone,
and it counts nothing. Replaying settled commands leaves records, entries and counters as
they are, but for the times of records. -/
namespace PowerFS.Filer.Replay
open Lib.ByteString Lib.OrderedMap Lib.Positions Lib.StepRuns InodeRecords MetadataShard
  ShardFacts RecordSteps InlineCommits InlineMerges ShardStore

variable {json : Json} {s : json.Store} {now : UInt64} {info : InodeInfo}

/-- A record without its times. -/
def timeless (info : InodeInfo) : InodeInfo := { info with mtime := 0, atime := 0, ctime := 0 }

/-- The same records, times aside, the same entries and the same counters. -/
structure Same (s t : json.Store) : Prop where
  records : ∀ i, (t.getInode i).map timeless = (s.getInode i).map timeless
  entries : ∀ p n, t.getDirEntryInode p n = s.getDirEntryInode p n
  stats : t.stats = s.stats

theorem Same.refl (s : json.Store) : Same s s :=
  ⟨fun _ => rfl, fun _ _ => rfl, rfl⟩

variable {t : json.Store} {u : Update}
  {chunks : List StoredFileChunk} {isAppend : Bool} {blocks : List (UInt32 × Bytes)}

theorem Same.trans {r : json.Store} (h₁ : Same r s) (h₂ : Same s t) : Same r t where
  records i := (h₂.records i).trans (h₁.records i)
  entries p n := (h₂.entries p n).trans (h₁.entries p n)
  stats := h₂.stats.trans h₁.stats

/-- Whatever else a write changes, nothing that counts is in it. -/
theorem same_of_eq (hinodes : t.inodes = s.inodes)
    (hentries : ∀ p n, t.getDirEntryInode p n = s.getDirEntryInode p n)
    (hstats : t.stats = s.stats) : Same s t where
  records i := by
    unfold getInode
    rw [hinodes]
  entries := hentries
  stats := hstats

/-! ## Commands on one record -/

/-- A value that is given is already there. -/
def Given {α : Type} (new : Option α) (old : α) : Prop := new.getD old = old

/-- Mode and location are those of the data. -/
def Located (info : InodeInfo) : Prop :=
  info.storageMode = modeOfData info ∧ ∀ first rest, info.chunks = first :: rest →
    info.fid = some (fidOf first.volumeId first.needleId) ∧ info.volumeId = some first.volumeId

/-- The data of a commit is already there. -/
def HasData (info : InodeInfo) : Update → Prop
  | ⟨_, _, some delta, true, _⟩ => delta = [] ∧ ∃ data, info.inlineData = some data ∧
      info.size = UInt64.ofNat data.length
  | ⟨size, _, none, true, _⟩ => size ≤ info.size
  | ⟨size, _, none, false, _⟩ => info.inlineData = none ∧ size ≤ info.size
  | ⟨size, _, some client, false, none⟩ => info.inlineData = some client ∧ info.size = size
  | ⟨size, _, some client, false, some mask⟩ => size ≤ info.size ∧ ∃ data,
      info.inlineData = some data ∧ info.size.toNat ≤ data.length ∧ client.length ≤ data.length ∧
      ∀ pos < client.length, mask.toNat.testBit (pos / 4096) = true →
        byteAt client pos = byteAt data pos

/-- A commit that finds a window or its own result, or that is dropped. -/
def Synced (info : InodeInfo) (u : Update) : Prop :=
  info.migration ≠ none ∨ Located info ∧
    (Dropped info u.inlineData u.isAppend ∧ (info.chunks = u.chunks ∨ resetDerived info = info) ∨
      info.chunks = u.chunks ∧ info.blocks = divCeil info.size 512 ∧ HasData info u)

/-- What the command would make of the record is already there. -/
def InPlace (info : InodeInfo) : ShardCommand → Prop
  | .updateFile .. | .setChunks .. => False
  | .setAttr _ size mode uid gid _ _ => Given size info.size ∧
      Given (mode.map (withPermissions info.mode)) info.mode ∧
      Given (uid.map UInt64.toUInt32) info.uid ∧ Given (gid.map UInt64.toUInt32) info.gid
  | .setAttrMeta _ mode uid gid _ _ _ _ =>
      Given (mode.map (withPermissions info.mode)) info.mode ∧
      Given (uid.map UInt64.toUInt32) info.uid ∧ Given (gid.map UInt64.toUInt32) info.gid
  | .setAttrData _ size => ∀ x, size = some x → info.size = x ∧ info.blocks = divCeil x 512 ∧
      (buffer info).length ≤ x.toNat
  | .updateInodeSizeChunks _ u => Synced info u
  | .setXattr _ key value => info.extended[key]? = some value
  | .removeXattr _ key => info.extended[key]? = none
  | .updateReliability _ reliability state chunks => info.reliability = reliability ∧
      info.reliabilityState = state ∧ info.replicaChunks = chunks
  | .updateToEC _ reliability state chunks => info.reliability = reliability ∧
      info.reliabilityState = state ∧ info.chunks = chunks ∧ info.replicaChunks = [] ∧
      info.storageMode = .ec
  | .updateCompression _ chunks replicas algo ratio size =>
      info.compressionOriginalChunkFp = some (chunkFingerprint info.chunks) ∧
      info.chunks = chunks ∧ info.replicaChunks = replicas ∧
      info.compressionState = .compressed ∧ info.compressionAlgo = algo ∧
      info.compressionRatioX100 = ratio ∧ info.compressionOriginalSize = size
  | .beginMigration _ ⟨_, targetMode, allocs, _, _, blocks⟩ => allocs = [] ∨
      (targetMode ≠ migrateTargetFlat ∧ targetMode ≠ migrateTargetStripe) ∨
      info.migration ≠ none ∨ info.storageMode.isVolumeBacked = true ∨ info.chunks ≠ [] ∨
      ∃ block ∈ blocks, 4096 < block.2.length
  | .commitMigration _ epoch => ∀ window, info.migration = some window →
      window.epoch = epoch → window.allocs = []
  | .incrementNlink _ => info.nlink + 1 = 0
  | .renameInode _ name parent => info.name = name ∧ info.parentInode = parent
  | _ => True

theorem max_eq_of_le {a b : UInt64} (h : b ≤ a) : max a b = a := by
  show (if a ≤ b then b else a) = a
  rw [ite_eq_right_iff]
  intro hab
  exact UInt64.le_antisymm h hab

variable {size i p : UInt64} {cmd : ShardCommand} {n : Text}

theorem mergeInlineDirtyBlocks_present {data client : Bytes} {clientSize : UInt64} {mask : UInt32}
    (hgrown : clientSize ≤ size) (hsize : size.toNat ≤ data.length)
    (hclient : client.length ≤ data.length)
    (h : ∀ pos < client.length, mask.toNat.testBit (pos / 4096) = true →
      byteAt client pos = byteAt data pos) :
    mergeInlineDirtyBlocks (some data) size client clientSize mask = (data, size) := by
  have hle := UInt64.le_iff_toNat_le.mp hgrown
  refine Prod.ext (ext_byteAt ?_ fun p => ?_) (max_eq_of_le hgrown)
  · rw [merge_length, mergedLen, Option.getD_some]
    dsimp only
    omega
  · rw [byteAt_merge, Option.getD_some, ite_eq_right_iff]
    exact fun hin => h p hin.2.2 hin.2.1

theorem backfillFid_located (h : Located info) :
    backfillFid { info with storageMode := modeOfData info } = info := by
  obtain ⟨hmode, hfirst⟩ := h
  rw [← hmode]
  unfold backfillFid
  split
  · rfl
  rename_i first rest hchunks
  obtain ⟨hfid, hvolume⟩ := hfirst first rest hchunks
  rw [← hfid, ← hvolume]

theorem syncData_present (hchunks : info.chunks = u.chunks)
    (hblocks : info.blocks = divCeil info.size 512) (h : HasData info u) :
    syncData u info = info := by
  match u, hchunks, h with
  | ⟨_, _, some _, true, _⟩, rfl, ⟨rfl, data, hdata, hsize⟩ =>
    have hcombined : info.inlineData.getD [] ++ [] = data := by
      rw [hdata]
      exact List.append_nil data
    dsimp only [syncData]
    rw [hcombined, ← hsize, ← hblocks, ← hdata]
  | ⟨_, _, none, true, _⟩, rfl, hsize =>
    dsimp only [syncData]
    rw [max_eq_of_le hsize, ← hblocks]
  | ⟨_, _, none, false, _⟩, rfl, ⟨hdata, hsize⟩ =>
    dsimp only [syncData]
    rw [max_eq_of_le hsize, ← hblocks, ← hdata]
  | ⟨_, _, some _, false, none⟩, rfl, ⟨hdata, hsize⟩ =>
    dsimp only [syncData]
    split
    · rfl
    · rw [← hsize, ← hblocks, ← hdata]
  | ⟨_, _, some _, false, some _⟩, rfl, ⟨hle, data, hdata, hsize, hclient, hbytes⟩ =>
    dsimp only [syncData]
    split
    · rfl
    · rw [hdata, mergeInlineDirtyBlocks_present hle hsize hclient hbytes, ← hblocks, ← hdata]

/-- A commit that is synced changes nothing. -/
theorem sync_synced (h : Synced info u) : sync u info = info := by
  cases hwindow : info.migration with
  | some window => exact sync_in_window u hwindow
  | none =>
    obtain ⟨hlocated, hdone⟩ := h.resolve_left (not_not_intro hwindow)
    have hstored : stored u info = info := by
      have hdata : syncData u info = info := by
        rcases hdone with ⟨hdropped, -⟩ | ⟨hchunks, hblocks, hdata⟩
        · exact syncData_dropped hdropped
        · exact syncData_present hchunks hblocks hdata
      unfold stored
      rw [hdata]
      exact backfillFid_located hlocated
    rw [sync_outside u hwindow, hstored, ite_eq_right_iff]
    intro hchanged
    have hreset : info.chunks = u.chunks ∨ resetDerived info = info :=
      hdone.elim And.right fun hpresent => Or.inl hpresent.1
    refine hreset.resolve_left ?_
    intro hchunks
    rw [chunksChanged, Bool.and_eq_true, decide_eq_true_eq] at hchanged
    exact hchanged.1 hchunks

/-- A block that is too long, and the request is refused. -/
theorem mergeBlocks_long (inode : UInt64) (h : ∃ block ∈ blocks, 4096 < block.2.length)
    (buf : Bytes) (maxEnd : Nat) :
    ∃ e, mergeBlocks inode blocks buf maxEnd = .error e := by
  fun_induction mergeBlocks with
  | case1 =>
    obtain ⟨block, hin, -⟩ := h
    cases hin
  | case2 _ _ _ _ _ _ hempty ih =>
    refine ih (((List.exists_mem_cons_iff _ _ _).mp h).resolve_left ?_)
    dsimp only
    omega
  | case3 => exact ⟨_, rfl⟩
  | case4 _ _ _ _ _ _ _ htoo _ ih =>
    exact ih (((List.exists_mem_cons_iff _ _ _).mp h).resolve_left htoo)

/-- A request that finds no work opens no window. -/
theorem begin_inPlace {r : Request} (h : InPlace info (.beginMigration i r)) :
    recordEffect now (.beginMigration i r) info = info := by
  dsimp only [recordEffect]
  cases hcheck : checkMigration i r.targetMode r.allocs with
  | error e => rfl
  | ok u =>
    unfold checkMigration at hcheck
    split at hcheck
    · cases hcheck
    rename_i hallocs
    split at hcheck
    · cases hcheck
    rename_i hmode
    have hrest := (h.resolve_left hallocs).resolve_left hmode
    dsimp only [attempt]
    fun_cases beginMigration with
    | case5 _ _ _ _ _ _ _ hwindow hbacked data _ _ hmerged =>
      obtain ⟨hvolume, hchunks⟩ := not_or.mp hbacked
      have hlong := ((hrest.resolve_left (not_not_intro hwindow)).resolve_left
        hvolume).resolve_left hchunks
      obtain ⟨e, he⟩ := mergeBlocks_long info.inode hlong data data.length
      rw [he] at hmerged
      cases hmerged
    | _ => rfl

/-- **A command that is in place changes at most the times of the record.** -/
theorem timeless_recordEffect (h : InPlace info cmd) :
    timeless (recordEffect now cmd info) = timeless info := by
  cases cmd with
  | updateFile | setChunks => exact h.elim
  | setAttr i size mode uid gid mtime atime =>
    obtain ⟨hsize, hmode, huid, hgid⟩ := h
    dsimp only [timeless, recordEffect, setattr, setMeta]
    rw [show size.getD info.size = info.size from hsize,
      show (mode.map (withPermissions info.mode)).getD info.mode = info.mode from hmode,
      show (uid.map UInt64.toUInt32).getD info.uid = info.uid from huid,
      show (gid.map UInt64.toUInt32).getD info.gid = info.gid from hgid]
  | setAttrMeta i mode uid gid mtime atime clientId timestamp =>
    obtain ⟨hmode, huid, hgid⟩ := h
    dsimp only [timeless, recordEffect, setMeta]
    rw [show (mode.map (withPermissions info.mode)).getD info.mode = info.mode from hmode,
      show (uid.map UInt64.toUInt32).getD info.uid = info.uid from huid,
      show (gid.map UInt64.toUInt32).getD info.gid = info.gid from hgid]
  | setAttrData i size =>
    cases size with
    | none => rfl
    | some x =>
      obtain ⟨hsize, hblocks, hlen⟩ := h x rfl
      have hdata : (info.inlineData.map fun (d : Bytes) =>
          if x.toNat < d.length then d.take x.toNat else d) = info.inlineData := by
        unfold buffer at hlen
        cases hinline : info.inlineData with
        | none => rfl
        | some d =>
          rw [hinline, Option.getD_some] at hlen
          rw [Option.map_some, if_neg (Nat.not_lt.mpr hlen)]
      dsimp only [timeless, recordEffect, setattrData]
      rw [hdata, ← hblocks, ← hsize]
  | updateInodeSizeChunks i u =>
    have hsync : recordEffect now (.updateInodeSizeChunks i u) info = info := sync_synced h
    rw [hsync]
  | setXattr i key value =>
    have hkey : info.extended[key]? = some value := h
    have hinsert : info.extended.insert key value = info.extended := by
      refine Std.ExtTreeMap.ext_getElem? fun k => ?_
      rw [get_insert, ite_eq_right_iff]
      intro heq
      rw [← heq, hkey]
    dsimp only [timeless, recordEffect, setXattr]
    rw [hinsert]
  | removeXattr i key =>
    have hkey : info.extended[key]? = none := h
    have herase : info.extended.erase key = info.extended := by
      refine Std.ExtTreeMap.ext_getElem? fun k => ?_
      rw [get_erase, ite_eq_right_iff]
      intro heq
      rw [← heq, hkey]
    dsimp only [timeless, recordEffect, removeXattr]
    rw [herase]
  | updateReliability i reliability state chunks =>
    obtain ⟨rfl, rfl, rfl⟩ := h
    rfl
  | updateToEC i reliability state chunks =>
    obtain ⟨rfl, rfl, rfl, hreplicas, hmode⟩ := h
    dsimp only [timeless, recordEffect, updateToEc]
    rw [← hreplicas, ← hmode]
  | updateCompression i chunks replicas algo ratio size =>
    obtain ⟨hfp, rfl, rfl, hstate, rfl, rfl, rfl⟩ := h
    dsimp only [timeless, recordEffect, updateToCompressed]
    rw [← hfp, ← hstate]
  | beginMigration => rw [begin_inPlace h]
  | commitMigration i epoch => rw [commit_refused now i h]
  | incrementNlink i =>
    have hfull : info.nlink + 1 = 0 := h
    dsimp only [timeless, recordEffect, withNlink]
    rw [if_pos hfull]
  | renameInode i name parent =>
    obtain ⟨rfl, rfl⟩ := h
    rfl
  | _ => rfl

/-! ## Commands on names -/

/-- The command finds its work done, or refuses it. -/
def NamesInPlace (s : json.Store) : ShardCommand → Prop
  | .createFile .. | .putObject .. | .createSymlink .. | .createInode .. => False
  | .createDirectory _ _ inode => inode ∈ s.inodes
  | .formatPosixRoot .. => (s.db.formatMarker.bind json.marker.fromSlice).isSome ∨ 1 ∈ s.inodes
  | .deleteFile parent name => s.getDirEntryInode parent name = none
  | .deleteDirectory parent name => ∀ inode, s.getDirEntryInode parent name = some inode →
      s.hasLive inode = true
  | .rename parent name newParent newName => ∀ inode, s.getDirEntryInode parent name = some inode →
      parent = newParent ∧ name = newName ∧ ∀ info, s.getInode inode = some info →
        info.name = newName ∧ info.parentInode = newParent
  | .createHardLink inode parent name => s.getInode inode = none ∧
      s.getDirEntryInode parent name = some inode
  | .addDirEntry parent name inode => s.getInode parent = none ∧
      s.getDirEntryInode parent name = some inode
  | .removeDirEntry parent name => s.getInode parent = none ∧
      s.getDirEntryInode parent name = none
  | .createFileAtomic info _ => s.containsInode info.inode = false ∨
      s.getDirEntryInode info.parentInode info.name ≠ none
  | .deleteInode inode => s.getInode inode = none ∧ Childless s inode
  | .decrementNlink inode => s.getInode inode = none
  | .renamePrepareSource renameId parent name .. =>
      (s.getRenameIntent renameId .source).isSome ∨
        s.getInode parent = none ∧ s.getDirEntryInode parent name = none
  | .renamePrepareDest renameId parent name inode =>
      (s.getRenameIntent renameId .dest).isSome ∨
        s.getInode parent = none ∧ s.getDirEntryInode parent name = some inode
  | .renameAbort renameId side .. => ∀ side' intent, RenameSide.fromU8 side = some side' →
      s.getRenameIntent renameId side' = some intent → s.getInode intent.parentInode = none ∧
        s.getDirEntryInode intent.parentInode intent.name = match side' with
          | .source => some intent.inode
          | .dest => intent.replacedInode
  | _ => True

/-- The command finds its work done. What a later command of the same suffix overwrites, such
as the first of two values of one attribute, is not in place when the suffix starts again,
even where the second pass would end alike. -/
def Settled (s : json.Store) (cmd : ShardCommand) : Prop := match target cmd with
  | some inode => ∀ info, s.getInode inode = some info → InPlace info cmd
  | none => NamesInPlace s cmd

theorem same_putEntry (h : s.getDirEntryInode p n = some i) : Same s (s.putEntry p n i) := by
  refine same_of_eq rfl ?_ rfl
  intro q m
  rw [getDirEntryInode_putEntry, ite_eq_right_iff]
  intro heq
  obtain ⟨rfl, rfl⟩ := Prod.mk.inj heq
  exact h.symm

theorem same_eraseEntry (h : s.getDirEntryInode p n = none) : Same s (s.eraseEntry p n) := by
  refine same_of_eq rfl ?_ rfl
  intro q m
  rw [getDirEntryInode_eraseEntry, ite_eq_right_iff]
  intro heq
  obtain ⟨rfl, rfl⟩ := Prod.mk.inj heq
  exact h.symm

section

variable (hp : s.getInode p = none)
include hp

/-- A parent whose record is elsewhere has no version to bump. -/
theorem addDirEntry_of_none (n : Text) (i : UInt64) : s.addDirEntry p n i = s.putEntry p n i :=
  modifyInode_of_none (s := s.putEntry p n i) hp bumpVersion

theorem removeDirEntry_of_none (n : Text) : s.removeDirEntry p n = s.eraseEntry p n :=
  modifyInode_of_none (s := s.eraseEntry p n) hp bumpVersion

theorem same_addDirEntry (h : s.getDirEntryInode p n = some i) : Same s (s.addDirEntry p n i) := by
  rw [addDirEntry_of_none hp]
  exact same_putEntry h

theorem same_removeDirEntry (h : s.getDirEntryInode p n = none) :
    Same s (s.removeDirEntry p n) := by
  rw [removeDirEntry_of_none hp]
  exact same_eraseEntry h

omit hp in
/-- Taking an entry away and putting it back. -/
theorem same_replaceEntry (h : s.getDirEntryInode p n = some i) :
    Same s ((s.eraseEntry p n).putEntry p n i) := by
  refine same_of_eq rfl ?_ rfl
  intro q m
  rw [getDirEntryInode_putEntry, getDirEntryInode_eraseEntry]
  split
  case isTrue heq =>
    obtain ⟨rfl, rfl⟩ := Prod.mk.inj heq
    exact h.symm
  case isFalse => rfl

theorem same_replaceDirEntry (h : s.getDirEntryInode p n = some i) :
    Same s ((s.removeDirEntry p n).addDirEntry p n i) := by
  have herased : (s.eraseEntry p n).getInode p = none := hp
  rw [removeDirEntry_of_none hp, addDirEntry_of_none herased]
  exact same_replaceEntry h

end

theorem same_modifyInode {f : InodeInfo → InodeInfo}
    (h : ∀ info, s.getInode i = some info → timeless (f info) = timeless info) :
    Same s (s.modifyInode i f) := by
  refine ⟨?_, ?_, ?_⟩
  · intro j
    rw [getInode_modifyInode]
    split
    case isTrue heq =>
      subst heq
      cases hinfo : s.getInode i with
      | none => rfl
      | some info => exact congrArg some (h info hinfo)
    case isFalse => rfl
  · intro p n
    refine getDirEntryInode_congr ?_ p n
    unfold modifyInode
    split <;> rfl
  · unfold modifyInode
    split <;> rfl

theorem same_deleteInode (hi : s.getInode i = none) (h : Childless s i) :
    Same s (s.deleteInode i) := by
  have hdeleted : s.deleteInode i =
      { s.eraseInode i with directoryEntries := s.directoryEntries.erase i } := by
    unfold deleteInode
    rw [show s.inodes[i]? = none from hi]
    rfl
  rw [hdeleted]
  refine ⟨?_, ?_, rfl⟩
  · intro j
    have hget : ({ s.eraseInode i with directoryEntries := s.directoryEntries.erase i } :
        json.Store).getInode j = if i = j then none else s.getInode j :=
      getInode_eraseInode i j
    rw [hget]
    split
    case isTrue heq => rw [← heq, hi]
    case isFalse => rfl
  · intro p n
    rw [getDirEntryInode_eraseDir (s := s) rfl, ← getDirEntryInode_childless h]

open Same

theorem same_renameAbort {id : Text} {side : RenameSide}
    (h : ∀ intent, s.getRenameIntent id side = some intent →
      s.getInode intent.parentInode = none ∧
        s.getDirEntryInode intent.parentInode intent.name = match side with
          | .source => some intent.inode
          | .dest => intent.replacedInode) : Same s (s.applyRenameAbort id side) := by
  have hdropped : ∀ t : json.Store, Same s t → Same s (t.deleteRenameIntent id side) :=
    fun t ht => ht.trans (same_of_eq rfl (fun _ _ => rfl) rfl)
  unfold applyRenameAbort
  split
  · exact refl s
  rename_i intent hintent
  obtain ⟨hparent, hentry⟩ := h intent hintent
  cases side with
  | source => exact hdropped _ (same_addDirEntry hparent hentry)
  | dest =>
    dsimp only
    split
    · rename_i replaced hreplaced
      exact hdropped _ (same_replaceDirEntry hparent (hentry.trans hreplaced))
    · rename_i hreplaced
      exact hdropped _ (same_removeDirEntry hparent (hentry.trans hreplaced))

/-- **A settled command on names leaves everything as it is.** -/
theorem same_names (htarget : target cmd = none) (h : NamesInPlace s cmd) :
    Same s (applyCommand now s cmd) := by
  cases cmd with
  | createFile | putObject | createSymlink | createInode => exact h.elim
  | createDirectory p n i =>
    have hin : i ∈ s.inodes := h
    dsimp only [applyCommand, createDirectory]
    rw [if_pos hin]
    exact refl s
  | formatPosixRoot fsid shardCount createdAt =>
    dsimp only [applyCommand, applyFormatPosixRoot]
    split
    · exact refl s
    rename_i hmarked
    have hin : 1 ∈ s.inodes := h.resolve_left hmarked
    dsimp only [createDirectory]
    rw [if_pos hin]
    exact same_of_eq rfl (fun _ _ => rfl) rfl
  | deleteFile p n =>
    have hnone : s.getDirEntryInode p n = none := h
    dsimp only [applyCommand, deleteFile]
    rw [hnone]
    exact same_of_eq rfl (fun _ _ => rfl) rfl
  | deleteDirectory p n =>
    dsimp only [applyCommand, deleteDirectory]
    cases hentry : s.getDirEntryInode p n with
    | none => exact same_of_eq rfl (fun _ _ => rfl) rfl
    | some inode =>
      dsimp only
      rw [if_pos (h inode hentry)]
      exact refl s
  | rename p n q m =>
    dsimp only [applyCommand, rename]
    cases hentry : s.getDirEntryInode p n with
    | none => exact refl s
    | some inode =>
      obtain ⟨rfl, rfl, hplace⟩ := h inode hentry
      have htouch : ∀ (t : json.Store) (i : UInt64), Same t (t.modifyInode i (touch now)) :=
        fun t i => same_modifyInode fun _ _ => rfl
      refine (same_replaceEntry hentry).trans
        (trans (same_modifyInode ?_) ((htouch _ p).trans (htouch _ p)))
      intro info hinfo
      obtain ⟨hname, hparent⟩ := hplace info hinfo
      dsimp only [timeless, moveTo]
      rw [← hname, ← hparent]
  | createHardLink i p n =>
    obtain ⟨hnone, hentry⟩ := h
    dsimp only [applyCommand, createHardLink]
    have habsent : (s.putEntry p n i).inodes[i]? = none := hnone
    rw [habsent]
    exact same_putEntry hentry
  | addDirEntry p n i => exact same_addDirEntry h.1 h.2
  | removeDirEntry p n => exact same_removeDirEntry h.1 h.2
  | createFileAtomic info exclusive =>
    dsimp only [applyCommand]
    rw [createFileResolveExisting_eq]
    split
    case isFalse => exact refl s
    case isTrue hfree =>
      rcases h with hrefused | htaken
      · cases hrefused.symm.trans hfree.1
      · exact absurd hfree.2 htaken
  | deleteInode i => exact same_deleteInode h.1 h.2
  | decrementNlink i =>
    have habsent : s.inodes[i]? = none := h
    dsimp only [applyCommand, decrementNlinkAndMaybeDelete]
    rw [habsent]
    exact refl s
  | renamePrepareSource id p n i q m =>
    dsimp only [applyCommand, applyRenamePrepareSource]
    split
    · exact refl s
    rename_i hnone
    obtain ⟨hparent, hentry⟩ := h.resolve_left hnone
    exact (same_removeDirEntry hparent hentry).trans (same_of_eq rfl (fun _ _ => rfl) rfl)
  | renamePrepareDest id p n i =>
    dsimp only [applyCommand, applyRenamePrepareDest]
    split
    · exact refl s
    rename_i hnone
    obtain ⟨hparent, hentry⟩ := h.resolve_left hnone
    rw [hentry, Option.isSome_some, if_pos rfl]
    exact (same_replaceDirEntry hparent hentry).trans (same_of_eq rfl (fun _ _ => rfl) rfl)
  | renameCommitSource | renameCommitDest | leasePut | leaseDelete | leaseSaveEpoch
  | deleteChildSummary => exact same_of_eq rfl (fun _ _ => rfl) rfl
  | renameAbort id side p n i =>
    dsimp only [applyCommand]
    split
    · exact refl s
    · rename_i side' hside
      exact same_renameAbort fun intent hintent => h side' intent hside hintent
  | updateChildSummary p n summary =>
    have hcases : applyCommand now s (.updateChildSummary p n summary) = s ∨
        applyCommand now s (.updateChildSummary p n summary) =
          s.putChildSummary p n summary := updateChildSummary_cases p n summary
    rcases hcases with heq | heq
    · rw [heq]
      exact refl s
    · rw [heq]
      exact same_of_eq rfl (fun _ _ => rfl) rfl
  | _ => cases htarget

/-! ## Runs -/

/-- A settled command leaves everything but times as it is. -/
theorem same_of_settled (hnum : Numbered s) (h : Settled s cmd) :
    Same s (applyCommand now s cmd) := by
  unfold Settled at h
  cases htarget : target cmd with
  | none =>
    rw [htarget] at h
    exact same_names htarget h
  | some inode =>
    rw [htarget] at h
    refine ⟨?_, getDirEntryInode_congr (record_frame hnum htarget).1, (record_frame hnum htarget).2⟩
    intro i
    rw [getInode_record hnum htarget]
    split
    case isTrue heq =>
      subst heq
      cases hinfo : s.getInode inode with
      | none => rfl
      | some info => exact congrArg some (timeless_recordEffect (h info hinfo))
    case isFalse => rfl

/-- A command of the log, with the time at which it is applied first and the time at which
it is applied again. -/
structure Entry where
  first : UInt64
  again : UInt64
  cmd : ShardCommand

/-- **A replay of settled commands is harmless.** -/
theorem replay_harmless (range : UInt64 × UInt64) (before : List (UInt64 × ShardCommand))
    (suffix : List Entry) (hsettled : Along step (fun s e => Settled s e.2)
      (applyLog (freshStore json range) (before ++ suffix.map fun e => (e.first, e.cmd)))
      (suffix.map fun e => (e.again, e.cmd))) :
    let s := applyLog (freshStore json range) (before ++ suffix.map fun e => (e.first, e.cmd))
    Same s (applyLog s (suffix.map fun e => (e.again, e.cmd))) := by
  intro s
  have hnum : Numbered s := applyLog_numbered (numbered_fresh range) _
  have hrun := hsettled.invariant (I := fun t => Numbered t ∧ Same s t)
    (fun t e ht hs => ⟨applyCommand_numbered ht.1 e.1 e.2, ht.2.trans (same_of_settled ht.1 hs)⟩)
    ⟨hnum, refl s⟩
  exact hrun.2

/-- A directory is made and a file goes; both are so when the commands come again. -/
def settledSuffix : List Entry :=
  [⟨2, 12, .createDirectory 1 ['d'] 3⟩, ⟨3, 13, .deleteFile 1 ['a']⟩]

theorem settledSuffix_harmless :
    let s := applyLog plainStore
      ([(1, .createFile 1 ['a'] 2)] ++ settledSuffix.map fun e => (e.first, e.cmd))
    Same s (applyLog s (settledSuffix.map fun e => (e.again, e.cmd))) :=
  replay_harmless (0, 100) [(1, .createFile 1 ['a'] 2)] settledSuffix
    ⟨show (3 : UInt64) ∈ inodes _ by decide +kernel,
      show getDirEntryInode _ 1 ['a'] = none by decide +kernel, trivial⟩

/-- Links, appended bytes and counters are counted twice. -/
theorem replay_counts_twice :
    let log := [(1, .createFile 1 ['a'] 2), (2, .incrementNlink 2),
      (3, .updateInodeSizeChunks 2 ⟨1, [], some [7], true, none⟩)]
    let s := applyLog plainStore log
    let links := applyLog s (log.drop 1)
    let all := applyLog s log
    ((s.getInode 2).map fun info => (info.nlink, info.inlineData)) = some (2, some [7]) ∧
      ((links.getInode 2).map fun info => (info.nlink, info.inlineData)) = some (3, some [7, 7]) ∧
      s.stats.fileCount = 1 ∧ all.stats.fileCount = 2 := by
  decide +kernel

end PowerFS.Filer.Replay
