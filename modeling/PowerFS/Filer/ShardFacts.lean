import PowerFS.Lib.StepRuns
import PowerFS.Filer.MetadataShard

/-! # What the writes of a shard do

Lookups after each of the primitive writes of `MetadataShard`, and the first invariant of
every log: a record is filed under its own inode number. -/
namespace PowerFS.Filer.ShardFacts
open Lib.OrderedMap InodeRecords MetadataShard Std.ExtTreeMap ShardStore

variable {json : Json} {s : json.Store} {now : UInt64}

/-! ## Entries -/

variable {s' : json.Store}

theorem entriesOf_congr (h : s'.directoryEntries = s.directoryEntries) (p : UInt64) :
    s'.entriesOf p = s.entriesOf p := by
  unfold entriesOf
  rw [h]

theorem getDirEntryInode_congr (h : s'.directoryEntries = s.directoryEntries) (p : UInt64)
    (n : Text) : s'.getDirEntryInode p n = s.getDirEntryInode p n := by
  unfold getDirEntryInode
  rw [entriesOf_congr h]

/-- The map of one directory is replaced. -/
theorem entriesOf_insert {p : UInt64} {dir : Map Text UInt64}
    (h : s'.directoryEntries = s.directoryEntries.insert p dir) (q : UInt64) :
    s'.entriesOf q = if p = q then dir else s.entriesOf q := by
  unfold entriesOf
  rw [h, get_insert]
  split <;> rfl

theorem entriesOf_erase {p : UInt64} (h : s'.directoryEntries = s.directoryEntries.erase p)
    (q : UInt64) : s'.entriesOf q = if p = q then ∅ else s.entriesOf q := by
  unfold entriesOf
  rw [h, get_erase]
  split <;> rfl

section

variable (p : UInt64) (n : Text)

theorem entriesOf_putEntry (i q : UInt64) :
    (s.putEntry p n i).entriesOf q =
      if p = q then (s.entriesOf p).insert n i else s.entriesOf q :=
  entriesOf_insert rfl q

theorem entriesOf_eraseEntry (q : UInt64) :
    (s.eraseEntry p n).entriesOf q =
      if p = q then (s.entriesOf p).erase n else s.entriesOf q := by
  cases hdir : s.directoryEntries[p]? with
  | none =>
    have hsame : (s.eraseEntry p n).directoryEntries = s.directoryEntries := by
      simp only [eraseEntry, hdir]
    have hnone : (s.entriesOf p).erase n = s.entriesOf p := by
      refine ext_getElem? fun k => ?_
      rw [entriesOf, hdir, Option.getD_none, get_erase, getElem?_empty, ite_self]
    rw [entriesOf_congr hsame, hnone, right_eq_ite_iff]
    intro hq
    rw [hq]
  | some dir =>
    have hnew : (s.eraseEntry p n).directoryEntries =
        s.directoryEntries.insert p (dir.erase n) := by
      simp only [eraseEntry, hdir]
    have hsome : s.entriesOf p = dir := by
      rw [entriesOf, hdir, Option.getD_some]
    rw [entriesOf_insert hnew, hsome]

theorem getDirEntryInode_putEntry (i q : UInt64) (m : Text) :
    (s.putEntry p n i).getDirEntryInode q m =
      if (p, n) = (q, m) then some i else s.getDirEntryInode q m := by
  unfold getDirEntryInode
  rw [entriesOf_putEntry]
  by_cases hp : p = q
  · subst hp
    rw [if_pos rfl, get_insert]
    simp only [Prod.mk.injEq, true_and]
  · rw [if_neg hp, if_neg fun h => hp (Prod.mk.inj h).1]

theorem getDirEntryInode_eraseEntry (q : UInt64) (m : Text) :
    (s.eraseEntry p n).getDirEntryInode q m =
      if (p, n) = (q, m) then none else s.getDirEntryInode q m := by
  unfold getDirEntryInode
  rw [entriesOf_eraseEntry]
  by_cases hp : p = q
  · subst hp
    rw [if_pos rfl, get_erase]
    simp only [Prod.mk.injEq, true_and]
  · rw [if_neg hp, if_neg fun h => hp (Prod.mk.inj h).1]

end

theorem modifyInode_entries (i : UInt64) (f : InodeInfo → InodeInfo) (q : UInt64) (m : Text) :
    (s.modifyInode i f).getDirEntryInode q m = s.getDirEntryInode q m := by
  refine getDirEntryInode_congr ?_ q m
  unfold modifyInode
  split <;> rfl

theorem createLinked_entries (info : InodeInfo) (q : UInt64) (m : Text) :
    (s.createLinked info).getDirEntryInode q m =
      if (info.parentInode, info.name) = (q, m) then some info.inode
      else s.getDirEntryInode q m :=
  getDirEntryInode_putEntry (s := s.putInode info.inode info) info.parentInode info.name
    info.inode q m

theorem createHardLink_entries (i p : UInt64) (n : Text) (q : UInt64) (m : Text) :
    (s.createHardLink i p n).getDirEntryInode q m =
      if (p, n) = (q, m) then some i else s.getDirEntryInode q m := by
  rw [← getDirEntryInode_putEntry]
  unfold createHardLink
  dsimp only
  split <;> exact getDirEntryInode_congr rfl q m

theorem deleteFile_entries (p : UInt64) (n : Text) (q : UInt64) (m : Text) :
    (s.deleteFile p n).getDirEntryInode q m =
      if (p, n) = (q, m) then none else s.getDirEntryInode q m := by
  fun_cases deleteFile with
  | case1 hnone =>
    show s.getDirEntryInode q m = _
    rw [right_eq_ite_iff]
    intro heq
    rw [← (Prod.mk.inj heq).1, ← (Prod.mk.inj heq).2, hnone]
  | _ =>
    rw [← getDirEntryInode_eraseEntry]
    exact getDirEntryInode_congr rfl q m

/-- A file is created at a free name, for an inode of the shard. -/
theorem createFileResolveExisting_eq (info : InodeInfo) (exclusive : Bool) :
    (s.createFileResolveExisting info exclusive).1 =
      if s.containsInode info.inode ∧ s.getDirEntryInode info.parentInode info.name = none then
        (s.createLinked info).bumpDirVersion info.parentInode
      else s := by
  unfold createFileResolveExisting
  cases s.containsInode info.inode with
  | false => rfl
  | true =>
    cases s.getDirEntryInode info.parentInode info.name with
    | none => rfl
    | some winner =>
      dsimp only [Bool.not_true]
      generalize (exclusive || _) = rejected
      cases rejected <;> rfl

/-! ### Directories without entries -/

/-- No entries under the inode. -/
def Childless (s : json.Store) (i : UInt64) : Prop := s.entriesOf i = ∅

theorem childless_iff (i : UInt64) : Childless s i ↔ ∀ n, s.getDirEntryInode i n = none := by
  constructor
  · intro h n
    rw [getDirEntryInode, h, getElem?_empty]
  · intro h
    refine ext_getElem? ?_
    intro n
    rw [getElem?_empty]
    exact h n

variable {i inode : UInt64} {info : InodeInfo}

/-- The map of a directory goes from memory. -/
theorem getDirEntryInode_eraseDir {t : json.Store}
    (h : t.directoryEntries = s.directoryEntries.erase i) (q : UInt64) (m : Text) :
    t.getDirEntryInode q m = if q = i then none else s.getDirEntryInode q m := by
  unfold getDirEntryInode
  rw [entriesOf_erase h]
  by_cases hq : q = i
  · rw [if_pos hq, if_pos hq.symm, getElem?_empty]
  · rw [if_neg hq, if_neg fun heq => hq heq.symm]

/-- Dropping the entries of an inode that has none changes nothing. -/
theorem getDirEntryInode_childless (h : Childless s i) (q : UInt64) (m : Text) :
    s.getDirEntryInode q m = if q = i then none else s.getDirEntryInode q m := by
  rw [right_eq_ite_iff]
  intro hq
  exact hq ▸ (childless_iff i).mp h m

theorem updateChildSummary_cases (p : UInt64) (n : Text) (summary : DirStatSummary) :
    applyCommand now s (.updateChildSummary p n summary) = s ∨
      applyCommand now s (.updateChildSummary p n summary) =
        s.putChildSummary p n summary := by
  dsimp only [applyCommand, updateChildSummary]
  split
  · split
    · exact .inl rfl
    · exact .inr rfl
  · exact .inr rfl

/-! ## Records under their own number -/

/-- Every record is filed under its inode number. -/
def Numbered (s : json.Store) : Prop :=
  ∀ (n : UInt64) (info : InodeInfo), s.inodes[n]? = some info → info.inode = n

theorem numbered_fresh (range : UInt64 × UInt64) : Numbered (freshStore json range) := by
  intro n info h
  rw [freshStore, getElem?_empty] at h
  cases h

theorem Numbered.congr (h : Numbered s) (heq : s'.inodes = s.inodes) : Numbered s' := by
  unfold Numbered
  rwa [heq]

theorem Numbered.putInode (h : Numbered s) (hnum : info.inode = inode) :
    Numbered (s.putInode inode info) := by
  intro n info' hn
  simp only [ShardStore.putInode, get_insert] at hn
  split at hn
  case isTrue heq => rw [← Option.some.inj hn, hnum, heq]
  case isFalse => exact h n info' hn

theorem Numbered.eraseInode (h : Numbered s) (inode : UInt64) : Numbered (s.eraseInode inode) := by
  intro n info hn
  simp only [ShardStore.eraseInode, get_erase] at hn
  split at hn
  · cases hn
  · exact h n info hn

/-- A changed record that is first put in memory and then written is just written. -/
theorem updateInode_eq (hnum : info.inode = inode)
    (hs' : s' = { s with inodes := s.inodes.insert inode info }) :
    s'.updateInode info = s.putInode inode info := by
  subst hs'
  have htwice : (s.inodes.insert inode info).insert inode info = s.inodes.insert inode info := by
    refine ext_getElem? fun k => ?_
    rw [get_insert, get_insert]
    split <;> rfl
  unfold updateInode putInode
  rw [hnum]
  simp only [htwice]

theorem updateInodeWith_eq (h : Numbered s) {f : InodeInfo → InodeInfo}
    (hf : ∀ info, (f info).inode = info.inode) (inode : UInt64) :
    s.updateInodeWith inode f = s.modifyInode inode f := by
  unfold updateInodeWith modifyInode
  cases hi : s.inodes[inode]? with
  | none => rfl
  | some info =>
    show s.putInode (f info).inode (f info) = _
    rw [hf, h inode info hi]

end PowerFS.Filer.ShardFacts
