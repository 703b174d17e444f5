import PowerFS.Filer.RecordSteps

/-! # Closing a shard and opening it again

The maps in memory are gone when a store is closed and are read back from the column
families, by parsing the keys. `Mirrored` says that the column families hold what the maps
hold; every command keeps it that keeps names without a colon and does not leave entries
behind under an inode that goes. The scan takes a key with more than one colon for none. -/
namespace PowerFS.Filer.Reopen
open Lib.ByteString Lib.Decimal Lib.OrderedMap Lib.StepRuns InodeRecords MetadataShard ShardFacts
  RecordSteps List Std.ExtTreeMap ShardStore Option

variable {json : Json} {s : json.Store} {now : UInt64}

/-! ## Reading the column families -/

/-- `split(':')` must give two parts. -/
def parseDirEntryKey (key : Text) : Option (UInt64 × Text) := match key.splitOn ':' with
  | [parent, name] => (parseU64 parent).map fun p => (p, name)
  | _ => none

def parseChildSummaryKey (key : Bytes) : Option ChildKey :=
  if 8 ≤ key.length then
    (fromUtf8 (key.drop 8)).map fun name => ⟨ofBeBytes key, name⟩
  else none

def loadInodes (json : Json) (db : Db json.Doc) : Map UInt64 InodeInfo :=
  rebuild (fun key => some (ofBeBytes key)) json.inode.fromSlice
    (fun (m : Map UInt64 InodeInfo) inode info => m.insert inode info) ∅ db.inodes

/-- An entry goes into the map of its directory. -/
def putDirEntry (m : Map UInt64 (Map Text UInt64)) (e : UInt64 × Text) (inode : UInt64) :
    Map UInt64 (Map Text UInt64) :=
  m.insert e.1 (((m[e.1]?).getD ∅).insert e.2 inode)

def loadDirEntries (json : Json) (db : Db json.Doc) : Map UInt64 (Map Text UInt64) :=
  rebuild parseDirEntryKey (fun value => some (ofBeBytes value)) putDirEntry ∅ db.dirEntries

def loadChildSummaries (json : Json) (db : Db json.Doc) : Map ChildKey DirStatSummary :=
  rebuild parseChildSummaryKey json.summary.fromSlice
    (fun (m : Map ChildKey DirStatSummary) key summary => m.insert key summary) ∅
    db.childSummaries

def loadStats (json : Json) (db : Db json.Doc) : ShardStats :=
  (db.stats.bind json.stats.fromSlice).getD ⟨0, 0, 0, 0, 0⟩

/-- The store over the same database. -/
def reopen (s : json.Store) : json.Store where
  inodeRange := s.inodeRange
  db := s.db
  inodes := loadInodes json s.db
  directoryEntries := loadDirEntries json s.db
  childSummaries := loadChildSummaries json s.db
  stats := loadStats json s.db

/-! ## Keys -/

theorem colon_notMem_decimal (n : UInt64) : ':' ∉ decimal n := notMem_toDigits (by decide) n.toNat

theorem splitOn_dirEntryKey (p : UInt64) (n : Text) :
    (dirEntryKey p n).splitOn ':' = decimal p :: n.splitOn ':' :=
  splitOn_append_cons_self_of_not_mem (colon_notMem_decimal p) n

theorem decimal_injective : Function.Injective decimal := by
  intro a b h
  have hparse := parseU64_decimal a
  rw [h, parseU64_decimal b] at hparse
  exact (some.inj hparse).symm

theorem dirEntryKey_injective :
    Function.Injective fun e : UInt64 × Text => dirEntryKey e.1 e.2 := by
  rintro ⟨p, n⟩ ⟨q, m⟩ h
  have hkey : dirEntryKey p n = dirEntryKey q m := h
  have hsplit := congrArg (splitOn ':') hkey
  rw [splitOn_dirEntryKey, splitOn_dirEntryKey] at hsplit
  obtain rfl := decimal_injective (cons.inj hsplit).1
  have hname := append_cancel_left hkey
  rw [(cons.inj hname).2]

variable {n : Text} {t : json.Store}

theorem parseDirEntryKey_dirEntryKey (hn : ':' ∉ n) (p : UInt64) :
    parseDirEntryKey (dirEntryKey p n) = some (p, n) := by
  have hone : n.splitOn ':' = [n] := splitOn_eq_singleton hn
  rw [parseDirEntryKey, splitOn_dirEntryKey, hone]
  dsimp only
  rw [parseU64_decimal]
  rfl

/-- The keys of a directory are those that start with its number. -/
theorem isPrefixOf_dirEntryKey (i p : UInt64) (n : Text) :
    (decimal i ++ [':']).isPrefixOf (dirEntryKey p n) = decide (p = i) := by
  rw [Bool.eq_iff_iff, isPrefixOf_iff_prefix, decide_eq_true_eq]
  constructor
  · rintro ⟨rest, hrest⟩
    have hkey : dirEntryKey i rest = dirEntryKey p n := by
      rw [← hrest, dirEntryKey, append_assoc]
      rfl
    have hpair : (i, rest) = (p, n) := dirEntryKey_injective hkey
    exact (Prod.mk.inj hpair).1.symm
  · rintro rfl
    exact ⟨n, by rw [dirEntryKey, append_assoc]; rfl⟩

theorem ofBeBytes_self (i : UInt64) : ofBeBytes (beBytes i) = i := by
  have hread := ofBeBytes_beBytes i []
  rwa [append_nil] at hread

theorem beBytes_injective : Function.Injective beBytes :=
  Function.LeftInverse.injective ofBeBytes_self

theorem parseChildSummaryKey_childSummaryKey (key : ChildKey) :
    parseChildSummaryKey (childSummaryKey key.parentInode key.name) = some key := by
  have hlen : 8 ≤ (childSummaryKey key.parentInode key.name).length := by
    rw [childSummaryKey, length_append, beBytes_length]
    omega
  have hdrop : (childSummaryKey key.parentInode key.name).drop 8 = utf8 key.name :=
    drop_left' (beBytes_length _)
  rw [parseChildSummaryKey, if_pos hlen, hdrop, fromUtf8_utf8, childSummaryKey, ofBeBytes_beBytes]
  rfl

theorem childSummaryKey_injective :
    Function.Injective fun k : ChildKey => childSummaryKey k.parentInode k.name := by
  intro a b h
  have hkey : childSummaryKey a.parentInode a.name = childSummaryKey b.parentInode b.name := h
  have hparse := parseChildSummaryKey_childSummaryKey a
  rw [hkey, parseChildSummaryKey_childSummaryKey b] at hparse
  exact (some.inj hparse).symm

/-! ## What is on disk -/

/-- The column families hold the maps, under keys that can be read back. -/
structure Mirrored (s : json.Store) : Prop where
  inodes : Mirrors beBytes json.inode.toVec (fun i => s.getInode i) s.db.inodes
  entries : Mirrors (fun e : UInt64 × Text => dirEntryKey e.1 e.2) beBytes
    (fun e => s.getDirEntryInode e.1 e.2) s.db.dirEntries
  summaries : Mirrors (fun k : ChildKey => childSummaryKey k.parentInode k.name)
    json.summary.toVec (fun k => s.getChildSummary k.parentInode k.name) s.db.childSummaries
  numbered : Numbered s
  names : ∀ p n i, s.getDirEntryInode p n = some i → ':' ∉ n
  intents : ∀ id side intent, s.getRenameIntent id side = some intent → ':' ∉ intent.name

theorem mirrored_fresh (range : UInt64 × UInt64) : Mirrored (freshStore json range) := by
  have hentry : ∀ p n, (freshStore json range).getDirEntryInode p n = none := by
    intro p n
    unfold getDirEntryInode entriesOf freshStore
    rw [getElem?_empty, getD_none, getElem?_empty]
  refine ⟨mirrors_empty.congr ?_, mirrors_empty.congr ?_, mirrors_empty.congr ?_,
    numbered_fresh range, ?_, ?_⟩
  · intro i
    exact getElem?_empty
  · intro e
    exact hentry e.1 e.2
  · intro k
    exact getElem?_empty
  · intro p n i h
    rw [hentry] at h
    cases h
  · intro id side intent h
    unfold getRenameIntent freshStore at h
    rw [getElem?_empty] at h
    cases h

section

variable (h : Mirrored s)
include h

/-- **The scans rebuild what is mirrored.** An empty directory has no key, so its map is not
rebuilt. -/
theorem Mirrored.reopen :
    (∀ i, (reopen s).getInode i = s.getInode i) ∧
      (∀ p n, (Reopen.reopen s).getDirEntryInode p n = s.getDirEntryInode p n) ∧
      (∀ k : ChildKey, (Reopen.reopen s).childSummaries[k]? = s.childSummaries[k]?) ∧
      ∀ (p : UInt64) (dir : Map Text UInt64),
        (Reopen.reopen s).directoryEntries[p]? = some dir → dir ≠ ∅ := by
  refine ⟨?_, ?_, ?_, ?_⟩
  · intro i
    refine get_rebuild (fun (m : Map UInt64 InodeInfo) k => m[k]?) ?_ ?_ h.inodes ?_
      json.inode.fromSlice_toVec i
    · intro m k v k'
      exact get_insert m k k' v
    · intro k
      exact getElem?_empty
    · intro k v _
      rw [ofBeBytes_self]
  · intro p n
    refine get_rebuild (fun (m : Map UInt64 (Map Text UInt64)) e => ((m[e.1]?).getD ∅)[e.2]?)
      ?_ ?_ h.entries ?_ ?_ (p, n)
    · rintro m ⟨q, k⟩ v ⟨q', k'⟩
      dsimp only [putDirEntry]
      rw [get_insert]
      by_cases hq : q = q'
      · subst hq
        rw [if_pos rfl, getD_some, get_insert]
        simp only [Prod.mk.injEq, true_and]
      · rw [if_neg hq, if_neg fun heq => hq (Prod.mk.inj heq).1]
    · intro e
      rw [getElem?_empty, getD_none, getElem?_empty]
    · rintro ⟨q, k⟩ v hv
      exact parseDirEntryKey_dirEntryKey (h.names q k v hv) q
    · intro v
      rw [ofBeBytes_self]
  · intro k
    refine get_rebuild (fun (m : Map ChildKey DirStatSummary) k => m[k]?) ?_ ?_ h.summaries
      ?_ json.summary.fromSlice_toVec k
    · intro m k v k'
      exact get_insert m k k' v
    · intro k
      exact getElem?_empty
    · intro k v _
      exact parseChildSummaryKey_childSummaryKey k
  · refine rebuild_invariant
      (I := fun m : Map UInt64 (Map Text UInt64) => ∀ p dir, m[p]? = some dir → dir ≠ ∅)
      h.entries ?_ (fun v => ?_) ?_ ?_
    · rintro ⟨q, k⟩ v hv
      exact parseDirEntryKey_dirEntryKey (h.names q k v hv) q
    · rw [ofBeBytes_self]
    · intro p dir hp
      rw [getElem?_empty] at hp
      cases hp
    · rintro m ⟨q, k⟩ v - hm p dir hp
      dsimp only [putDirEntry] at hp
      rw [get_insert] at hp
      split at hp
      · have hget := get_insert ((m[q]?).getD ∅) k k v
        rw [if_pos rfl, some.inj hp] at hget
        exact ne_empty_of_get hget
      · exact hm p dir hp

/-! ## Writes keep the mirror -/

theorem Mirrored.putInode {inode : UInt64} {info : InodeInfo}
    (hnum : info.inode = inode) : Mirrored (s.putInode inode info) :=
  { h with
    inodes := (h.inodes.insert beBytes_injective inode info).congr fun k =>
      get_insert s.inodes inode k info
    numbered := h.numbered.putInode hnum }

theorem Mirrored.eraseInode (inode : UInt64) : Mirrored (s.eraseInode inode) :=
  { h with
    inodes := (h.inodes.erase beBytes_injective inode).congr fun k => get_erase s.inodes inode k
    numbered := h.numbered.eraseInode inode }

theorem Mirrored.putEntry (p : UInt64) (hn : ':' ∉ n) (i : UInt64) : Mirrored (s.putEntry p n i) :=
  { h with
    entries := (h.entries.insert dirEntryKey_injective (p, n) i).congr fun e =>
      getDirEntryInode_putEntry p n i e.1 e.2
    names := fun q m j hentry => by
      rw [getDirEntryInode_putEntry] at hentry
      split at hentry
      case isTrue heq => exact (Prod.mk.inj heq).2 ▸ hn
      case isFalse => exact h.names q m j hentry }

theorem Mirrored.eraseEntry (p : UInt64) (n : Text) : Mirrored (s.eraseEntry p n) :=
  { h with
    entries := (h.entries.erase dirEntryKey_injective (p, n)).congr fun e =>
      getDirEntryInode_eraseEntry p n e.1 e.2
    names := fun q m j hentry => by
      rw [getDirEntryInode_eraseEntry] at hentry
      split at hentry
      · cases hentry
      · exact h.names q m j hentry }

/-- The entries of a directory go from the store and from memory. -/
theorem Mirrored.dropEntries (inode : UInt64)
    (hdb : t.db.dirEntries = (s.dropDbEntries inode).db.dirEntries)
    (hmem : ∀ q m, t.getDirEntryInode q m = if q = inode then none else s.getDirEntryInode q m) :
    Mirrors (fun e : UInt64 × Text => dirEntryKey e.1 e.2) beBytes
        (fun e => t.getDirEntryInode e.1 e.2) t.db.dirEntries ∧
      ∀ p n i, t.getDirEntryInode p n = some i → ':' ∉ n := by
  constructor
  · rw [hdb]
    refine (h.entries.filter fun key => !(decimal inode ++ [':']).isPrefixOf key).congr ?_
    intro e
    rw [isPrefixOf_dirEntryKey, hmem]
    by_cases he : e.1 = inode
    · rw [if_pos he, decide_eq_true he, Bool.not_true, if_neg Bool.false_ne_true]
    · rw [if_neg he, decide_eq_false he, Bool.not_false, if_pos rfl]
  · intro q m i hentry
    rw [hmem] at hentry
    split at hentry
    · cases hentry
    · exact h.names q m i hentry

/-- Of the entries in memory only what is found under them matters, and counters do not. -/
theorem Mirrored.alike {m : Map UInt64 (Map Text UInt64)} {st : ShardStats} {doc : Option json.Doc}
    (hentries : ∀ q k, getDirEntryInode { s with directoryEntries := m } q k =
      s.getDirEntryInode q k) :
    Mirrored { s with directoryEntries := m, stats := st, db.stats := doc } :=
  { h with
    entries := h.entries.congr fun e => hentries e.1 e.2
    names := fun q k j hentry => h.names q k j ((hentries q k).symm.trans hentry) }

/-! ## Commands that keep the mirror -/

/-- The condition on a command: names that it writes have no colon, a directory that it makes
has no entries yet and is not its own parent, and what goes without being known as a
directory has no entries. -/
def Tidy (s : json.Store) : ShardCommand → Prop
  | .createFile _ name _ | .putObject _ name .. | .createSymlink _ name .. | .addDirEntry _ name _
  | .createHardLink _ _ name | .renamePrepareSource _ _ name .. | .renamePrepareDest _ _ name _
  | .rename _ _ _ name => ':' ∉ name
  | .createFileAtomic info _ => ':' ∉ info.name
  | .createDirectory parent name inode =>
    ':' ∉ name ∧ (s.getInode inode = none → parent ≠ inode ∧ Childless s inode)
  | .formatPosixRoot .. => s.getInode 1 = none → Childless s 1
  | .deleteDirectory parent name => ∀ inode, s.getDirEntryInode parent name = some inode →
    s.getInode inode = none → Childless (s.eraseEntry parent name) inode
  | .deleteInode inode =>
    (∀ info, s.getInode inode = some info → info.fileType ≠ .directory) → Childless s inode
  | .decrementNlink inode => ∀ info, s.getInode inode = some info → info.nlink ≤ 1 →
    info.fileType ≠ .directory → Childless s inode
  | _ => True

theorem Mirrored.createDirectory (now p : UInt64) (hn : ':' ∉ n) (i : UInt64)
    (htidy : s.getInode i = none → p ≠ i ∧ Childless s i) :
    Mirrored (s.createDirectory now p n i) := by
  unfold ShardStore.createDirectory
  split
  case isTrue => exact h
  case isFalse hnew =>
    have hnone : s.getInode i = none := getElem?_eq_none hnew
    obtain ⟨hp, hchildless⟩ := htidy hnone
    have hdir : Mirrored (s.putInode i (directoryInode now i p n)) := h.putInode rfl
    refine (hdir.putEntry p hn i).alike ?_
    -- the fresh map of the directory is the empty one that it had
    intro q m
    rw [getDirEntryInode_putEntry, ShardStore.getDirEntryInode, entriesOf_insert rfl]
    by_cases hq : i = q
    · subst hq
      rw [if_pos rfl, getElem?_empty, if_neg fun heq => hp (Prod.mk.inj heq).1]
      exact ((childless_iff i).mp hchildless m).symm
    · rw [if_neg hq]
      exact getDirEntryInode_putEntry p n i q m

theorem Mirrored.deleteDirectory (p : UInt64) (n : Text)
    (htidy : ∀ i, s.getDirEntryInode p n = some i → s.getInode i = none →
      Childless (s.eraseEntry p n) i) : Mirrored (s.deleteDirectory p n) := by
  have herased := h.eraseEntry p n
  unfold ShardStore.deleteDirectory
  split
  · exact { h with }
  rename_i inode hentry
  split
  · exact h
  have hgone := herased.eraseInode inode
  dsimp only
  split
  · rename_i hnone
    obtain ⟨hentries, hnames⟩ := herased.dropEntries inode
      (t := (((s.eraseEntry p n).dropDbEntries inode).eraseInode inode).saveStats) rfl
      (getDirEntryInode_childless (htidy inode hentry hnone))
    exact { hgone with entries := hentries, names := hnames }
  · refine { hgone with
      entries := (herased.dropEntries inode ?_ ?_).1, names := (herased.dropEntries inode ?_ ?_).2 }
    · rfl
    · exact getDirEntryInode_eraseDir rfl
    · rfl
    · exact getDirEntryInode_eraseDir rfl

theorem Mirrored.deleteInode (inode : UInt64)
    (htidy : (∀ info, s.getInode inode = some info → info.fileType ≠ .directory) →
      Childless s inode) : Mirrored (s.deleteInode inode) := by
  have hgone := h.eraseInode inode
  have hmem : ∀ t : json.Store, t.directoryEntries = s.directoryEntries.erase inode →
      Childless s inode → ∀ q m, t.getDirEntryInode q m = s.getDirEntryInode q m := by
    intro t ht hchildless q m
    rw [getDirEntryInode_eraseDir ht, ← getDirEntryInode_childless hchildless]
  unfold ShardStore.deleteInode
  dsimp only
  split
  · rename_i hnone
    refine hgone.alike (hmem _ rfl (htidy ?_))
    intro info hinfo
    exact absurd (hinfo.symm.trans hnone) (some_ne_none info)
  · rename_i info hinfo
    by_cases hdir : info.fileType = .directory
    · rw [if_pos hdir]
      refine { hgone with
        entries := (h.dropEntries inode ?_ ?_).1, names := (h.dropEntries inode ?_ ?_).2 }
      · rfl
      · exact getDirEntryInode_eraseDir rfl
      · rfl
      · exact getDirEntryInode_eraseDir rfl
    · rw [if_neg hdir]
      refine hgone.alike (hmem _ rfl (htidy ?_))
      intro info' hinfo'
      obtain rfl := some.inj (hinfo.symm.trans hinfo')
      exact hdir

theorem Mirrored.decrementNlink (inode : UInt64)
    (htidy : ∀ info, s.getInode inode = some info → info.nlink ≤ 1 →
      info.fileType ≠ .directory → Childless s inode) :
    Mirrored (s.decrementNlinkAndMaybeDelete inode) := by
  unfold decrementNlinkAndMaybeDelete
  cases hi : s.inodes[inode]? with
  | none => exact h
  | some info =>
    dsimp only
    generalize hnlink : (if info.nlink > 0 then info.nlink - 1 else info.nlink) = nlink
    by_cases hzero : nlink = 0
    · rw [if_pos hzero]
      refine h.deleteInode inode fun hfile => htidy info hi ?_ (hfile info hi)
      rw [hzero] at hnlink
      split at hnlink
      · rw [UInt32.sub_eq_iff_eq_add.mp hnlink]
        exact UInt32.le_refl _
      · rw [hnlink]
        exact UInt32.le_iff_toNat_le.mpr (Nat.zero_le _)
    · rw [if_neg hzero]
      have hnum : (withNlink nlink info).inode = inode := h.numbered inode info hi
      unfold updateInode
      rw [hnum]
      exact h.putInode hnum

theorem Mirrored.formatPosixRoot (now : UInt64) (marker : FormatMarker)
    (htidy : s.getInode 1 = none → Childless s 1) :
    Mirrored (s.applyFormatPosixRoot now marker) := by
  unfold applyFormatPosixRoot
  split
  · exact h
  have hmarked : Mirrored { s with db.formatMarker := some (json.marker.toVec marker) } :=
    { h with }
  exact hmarked.createDirectory now 0 (by decide) 1 fun hnone => ⟨by decide, htidy hnone⟩

/-! ### Intents -/

theorem Mirrored.putRenameIntent {intent : RenameIntent}
    (hn : ':' ∉ intent.name) : Mirrored (s.putRenameIntent intent) := by
  refine { h with intents := ?_ }
  intro id side other hother
  unfold ShardStore.getRenameIntent ShardStore.putRenameIntent at hother
  rw [get_insert] at hother
  split at hother
  · rw [bind_some, json.intent.fromSlice_toVec] at hother
    exact some.inj hother ▸ hn
  · exact h.intents id side other hother

theorem Mirrored.deleteRenameIntent (id : Text) (side : RenameSide) :
    Mirrored (s.deleteRenameIntent id side) := by
  refine { h with intents := ?_ }
  intro id' side' other hother
  unfold ShardStore.getRenameIntent ShardStore.deleteRenameIntent at hother
  rw [get_erase] at hother
  split at hother
  · cases hother
  · exact h.intents id' side' other hother

/-! ### Summaries -/

theorem Mirrored.putChildSummary (p : UInt64) (n : Text)
    (summary : DirStatSummary) : Mirrored (s.putChildSummary p n summary) :=
  { h with summaries := (h.summaries.insert childSummaryKey_injective ⟨p, n⟩ summary).congr fun k =>
      get_insert s.childSummaries ⟨p, n⟩ k summary }

theorem Mirrored.deleteChildSummary (p : UInt64) (n : Text) : Mirrored (s.deleteChildSummary p n) :=
  { h with summaries := (h.summaries.erase childSummaryKey_injective ⟨p, n⟩).congr fun k =>
      get_erase s.childSummaries ⟨p, n⟩ k }

/-! ## Runs -/

/-- The names that a tidy command writes have no colon. -/
theorem Mirrored.written {cmd : ShardCommand} (htidy : Tidy s cmd)
    (hn : written s cmd = some n) : ':' ∉ n := by
  cases cmd with
  | createFile | putObject | createSymlink | addDirEntry | createHardLink | rename
  | renamePrepareSource | renamePrepareDest | createFileAtomic =>
    obtain rfl := some.inj hn
    exact htidy
  | createDirectory =>
    obtain rfl := some.inj hn
    exact htidy.1
  | formatPosixRoot =>
    obtain rfl := some.inj hn
    decide
  | renameAbort id side =>
    obtain ⟨side', -, hside⟩ := bind_eq_some_iff.mp hn
    obtain ⟨intent, hintent, rfl⟩ := map_eq_some_iff.mp hside
    exact h.intents id side' intent hintent
  | _ => cases hn

/-- A tidy command keeps the mirror. -/
theorem Mirrored.applyCommand (now : UInt64) {cmd : ShardCommand}
    (htidy : Tidy s cmd) : Mirrored (applyCommand now s cmd) := by
  -- the writes keep it one by one, but for the maps of directories
  have hwrites : ofDirectories cmd = false →
      Mirrored (MetadataShard.applyCommand now s cmd) := by
    intro hof
    have hwrites : Writes now cmd s (MetadataShard.applyCommand now s cmd) :=
      writes_applyCommand h.numbered
    generalize MetadataShard.applyCommand now s cmd = t at hwrites ⊢
    induction hwrites with
    | start => exact h
    | make _ _ ht => exact ht.putInode rfl
    | change _ _ hi _ ht => exact ht.putInode hi
    | eraseInode _ _ ht => exact ht.eraseInode _
    | putEntry _ i _ hn ht => exact ht.putEntry _ (h.written htidy hn) i
    | eraseEntry _ p n _ ht => exact ht.eraseEntry p n
    | dirs _ _ hdirs =>
      rw [hof] at hdirs
      cases hdirs
    | stats _ _ _ _ ht | other _ _ _ ht => exact { ht with }
    | putIntent _ _ hn ht => exact ht.putRenameIntent (h.written htidy hn)
    | deleteIntent _ id side _ ht => exact ht.deleteRenameIntent id side
    | putSummary _ p n summary ht => exact ht.putChildSummary p n summary
    | deleteSummary _ p n ht => exact ht.deleteChildSummary p n
  cases cmd with
  | createDirectory p n i => exact h.createDirectory now p htidy.1 i htidy.2
  | formatPosixRoot fsid shardCount createdAt => exact h.formatPosixRoot now _ htidy
  | deleteDirectory p n => exact h.deleteDirectory p n htidy
  | deleteInode i => exact h.deleteInode i htidy
  | decrementNlink i => exact h.decrementNlink i htidy
  | _ => exact hwrites rfl

/-- In the tables of a mirrored store, a restart drops the maps of the empty directories and
changes nothing else. -/
theorem Mirrored.reopen_tables :
    (Reopen.reopen s).inodes = s.inodes ∧ (Reopen.reopen s).childSummaries = s.childSummaries ∧
      (Reopen.reopen s).directoryEntries = s.directoryEntries.filter fun _ dir => !dir.isEmpty := by
  obtain ⟨hinode, hentry, hsummary, hnonempty⟩ := h.reopen
  refine ⟨Std.ExtTreeMap.ext_getElem? hinode, Std.ExtTreeMap.ext_getElem? hsummary, ?_⟩
  have hentries : ∀ p, (Reopen.reopen s).entriesOf p = s.entriesOf p :=
    fun p => Std.ExtTreeMap.ext_getElem? fun n => hentry p n
  refine Std.ExtTreeMap.ext_getElem? ?_
  intro p
  rw [Std.ExtTreeMap.getElem?_filter']
  have hsame := hentries p
  unfold entriesOf at hsame
  cases hreopened : (Reopen.reopen s).directoryEntries[p]? with
  | none =>
    cases hold : s.directoryEntries[p]? with
    | none => rfl
    | some dir =>
      rw [hreopened, hold] at hsame
      obtain rfl : (∅ : Map Text UInt64) = dir := hsame
      rfl
  | some dir =>
    have hne := hnonempty p dir hreopened
    cases hold : s.directoryEntries[p]? with
    | none =>
      rw [hreopened, hold] at hsame
      exact absurd hsame hne
    | some old =>
      rw [hreopened, hold] at hsame
      obtain rfl : dir = old := hsame
      rw [filter_some, if_pos]
      rw [Bool.not_eq_true', Bool.eq_false_iff, ne_eq, Std.ExtTreeMap.isEmpty_iff]
      exact hne

end

/-- **A restart is transparent after tidy commands.** Inodes and summaries are the same maps,
and so are the entries but for the maps of empty directories, which no lookup and no listing
sees. -/
theorem reopen_transparent (range : UInt64 × UInt64) (log : List (UInt64 × ShardCommand))
    (htidy : Along step (fun s e => Tidy s e.2) (freshStore json range) log) :
    let s := applyLog (freshStore json range) log
    (reopen s).inodes = s.inodes ∧ (reopen s).childSummaries = s.childSummaries ∧
      (reopen s).directoryEntries = (s.directoryEntries.filter fun _ dir => !dir.isEmpty) ∧
      (∀ p n, (reopen s).lookup p n = s.lookup p n) ∧
      (∀ p, (reopen s).listDirectory p = s.listDirectory p) ∧
      ∀ p, (reopen s).listChildSummaries p = s.listChildSummaries p := by
  intro s
  have hmirrored : Mirrored s :=
    htidy.invariant (I := Mirrored) (fun s e h ht => h.applyCommand e.1 ht) (mirrored_fresh range)
  obtain ⟨hinode, hentry, -, -⟩ := hmirrored.reopen
  obtain ⟨hinodes, hsummaries, hdirs⟩ := hmirrored.reopen_tables
  refine ⟨hinodes, hsummaries, hdirs, ?_, ?_, ?_⟩
  · intro p n
    unfold ShardStore.lookup
    rw [hentry]
    congr 1
    funext i
    rw [hinode]
  · intro p
    have hentries : (reopen s).entriesOf p = s.entriesOf p :=
      ext_getElem? fun n => hentry p n
    unfold ShardStore.listDirectory ShardStore.listDirEntryInodes
    rw [hentries]
    congr 1
    funext e
    rw [hinode]
  · intro p
    unfold ShardStore.listChildSummaries
    rw [hsummaries]

/-- A directory and a file in it, and the file goes again. -/
def tidyLog : List (UInt64 × ShardCommand) :=
  [(1, .createDirectory 1 ['d'] 2), (2, .createFile 2 ['a'] 3), (3, .incrementNlink 3),
    (4, .deleteFile 2 ['a'])]

theorem tidyLog_reopen :
    let s := applyLog plainStore tidyLog
    (reopen s).inodes = s.inodes ∧ (reopen s).childSummaries = s.childSummaries ∧
      (reopen s).directoryEntries = (s.directoryEntries.filter fun _ dir => !dir.isEmpty) ∧
      (∀ p n, (reopen s).lookup p n = s.lookup p n) ∧
      (∀ p, (reopen s).listDirectory p = s.listDirectory p) ∧
      ∀ p, (reopen s).listChildSummaries p = s.listChildSummaries p :=
  reopen_transparent (0, 100) tidyLog
    ⟨⟨by decide, fun _ => ⟨by decide, isEmpty_iff.mp (by decide +kernel)⟩⟩,
      by simp [Tidy], trivial, trivial, trivial⟩

/-- A name with a colon is lost on reopening; the entries under a number that was deleted
without a record come back. -/
theorem reopen_not_transparent :
    let colon := applyLog plainStore [(1, .createFile 1 ['a', ':'] 2)]
    let deleted := applyLog plainStore [(1, .addDirEntry 5 ['a'] 6), (2, .deleteInode 5)]
    (colon.getDirEntryInode 1 ['a', ':'] = some 2 ∧
      (reopen colon).getDirEntryInode 1 ['a', ':'] = none ∧
      (colon.listDirectory 1).length = 1 ∧ (reopen colon).listDirectory 1 = []) ∧
    deleted.getDirEntryInode 5 ['a'] = none ∧
      (reopen deleted).getDirEntryInode 5 ['a'] = some 6 := by
  decide +kernel

end PowerFS.Filer.Reopen
