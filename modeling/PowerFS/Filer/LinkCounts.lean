import PowerFS.Filer.RecordSteps

/-! # Link counts and entries

The commands on files write records and entries apart from each other. A link count is
right when it is the number of entries that name the record; it stays right under every
command that finds the name it writes free, and under no other: a create, a link or a
rename over a taken name leaves the file behind it without an entry. -/
namespace PowerFS.Filer.LinkCounts
open Lib.StepRuns InodeRecords MetadataShard ShardFacts RecordSteps Std.ExtTreeMap ShardStore Option
  Finset

variable {json : Json} {s : json.Store}

/-! ## Counting entries -/

/-- The places where an inode is named. -/
def entriesNaming (s : json.Store) (i : UInt64) : Finset (UInt64 × Text) :=
  (s.directoryEntries.toList.flatMap fun e =>
    (e.2.toList.filter fun f => f.2 = i).map fun f => (e.1, f.1)).toFinset

variable {i p : UInt64} {n : Text} {t : json.Store} {info : InodeInfo}

theorem mem_entriesNaming : (p, n) ∈ entriesNaming s i ↔ s.getDirEntryInode p n = some i := by
  simp only [entriesNaming, List.mem_toFinset, List.mem_flatMap, List.mem_map, List.mem_filter,
    decide_eq_true_eq, Prod.mk.injEq, Prod.exists,
    mem_toList_iff_getElem?_eq_some]
  unfold getDirEntryInode entriesOf
  constructor
  · rintro ⟨q, dir, hdir, m, j, ⟨hentry, rfl⟩, rfl, rfl⟩
    rw [hdir, getD_some, hentry]
  · intro hentry
    cases hdir : s.directoryEntries[p]? with
    | none =>
      rw [hdir, getD_none, getElem?_empty] at hentry
      cases hentry
    | some dir =>
      rw [hdir, getD_some] at hentry
      exact ⟨p, dir, hdir, n, i, ⟨hentry, rfl⟩, rfl, rfl⟩

/-- How many entries name the inode. -/
def links (s : json.Store) (i : UInt64) : Nat := (entriesNaming s i).card

theorem links_pos (h : s.getDirEntryInode p n = some i) : 0 < links s i :=
  card_pos.mpr ⟨(p, n), mem_entriesNaming.mpr h⟩

theorem entry_of_links (h : links s i ≠ 0) : ∃ p n, s.getDirEntryInode p n = some i := by
  obtain ⟨⟨p, n⟩, hmem⟩ := card_pos.mp (Nat.pos_of_ne_zero h)
  exact ⟨p, n, mem_entriesNaming.mp hmem⟩

section Entries

variable {t : json.Store} {p : UInt64} {n : Text}

theorem links_congr (h : ∀ q m, t.getDirEntryInode q m = s.getDirEntryInode q m) (i : UInt64) :
    links t i = links s i := by
  unfold links
  congr 1
  ext ⟨q, m⟩
  rw [mem_entriesNaming, mem_entriesNaming, h]

theorem entriesNaming_erase
    (h : ∀ q m, t.getDirEntryInode q m = if (p, n) = (q, m) then none else s.getDirEntryInode q m)
    (i : UInt64) : entriesNaming t i = (entriesNaming s i).erase (p, n) := by
  ext ⟨q, m⟩
  rw [mem_entriesNaming, h, Finset.mem_erase, mem_entriesNaming]
  split
  case isTrue heq => simp [heq]
  case isFalse hne => simp [Ne.symm hne]

variable {j : UInt64}

section

variable (h : ∀ q m, t.getDirEntryInode q m =
  if (p, n) = (q, m) then some j else s.getDirEntryInode q m)
include h

theorem entriesNaming_insert (i : UInt64) :
    entriesNaming t i =
      if i = j then insert (p, n) (entriesNaming s i) else (entriesNaming s i).erase (p, n) := by
  ext ⟨q, m⟩
  rw [mem_entriesNaming, h]
  by_cases hij : i = j
  · subst hij
    rw [if_pos rfl, Finset.mem_insert, mem_entriesNaming]
    split
    case isTrue heq => simp [heq]
    case isFalse hne => simp [Ne.symm hne]
  · rw [if_neg hij, Finset.mem_erase, mem_entriesNaming]
    split
    case isTrue heq => simp [heq, Ne.symm hij]
    case isFalse hne => simp [Ne.symm hne]

omit h in
/-- An entry goes: its inode loses one link. -/
theorem links_erase
    (h : ∀ q m, t.getDirEntryInode q m = if (p, n) = (q, m) then none else s.getDirEntryInode q m)
    (i : UInt64) :
    links t i = if s.getDirEntryInode p n = some i then links s i - 1 else links s i := by
  unfold links
  rw [entriesNaming_erase h, card_erase_eq_ite]
  simp only [mem_entriesNaming]

/-- An entry comes to a free place. -/
theorem links_insert_free (hfree : s.getDirEntryInode p n = none) (i : UInt64) :
    links t i = if i = j then links s i + 1 else links s i := by
  have hnot : ∀ k, (p, n) ∉ entriesNaming s k := by
    intro k hk
    rw [mem_entriesNaming, hfree] at hk
    cases hk
  unfold links
  rw [entriesNaming_insert h]
  split
  · exact card_insert_of_notMem (hnot i)
  · rw [erase_eq_of_notMem (hnot i)]

/-- An entry comes to a taken place: who was there loses a link, and nobody new gains one if
it was the same inode. -/
theorem links_insert_taken {k : UInt64} (htaken : s.getDirEntryInode p n = some k) :
    links t k = if k = j then links s k else links s k - 1 := by
  have hmem : (p, n) ∈ entriesNaming s k := mem_entriesNaming.mpr htaken
  unfold links
  rw [entriesNaming_insert h]
  split
  · rw [insert_eq_of_mem hmem]
  · exact card_erase_of_mem hmem

end

end Entries

/-! ## Commands on files -/

inductive FileCommand where
  | createFile (parentInode : UInt64) (name : Text) (inode : UInt64)
  | createFileAtomic (info : InodeInfo) (exclusive : Bool)
  | createHardLink (inode newParentInode : UInt64) (newName : Text)
  | deleteFile (parentInode : UInt64) (name : Text)
  | rename (oldParentInode : UInt64) (oldName : Text) (newParentInode : UInt64) (newName : Text)

def FileCommand.command : FileCommand → ShardCommand
  | .createFile p n i => .createFile p n i
  | .createFileAtomic info exclusive => .createFileAtomic info exclusive
  | .createHardLink i p n => .createHardLink i p n
  | .deleteFile p n => .deleteFile p n
  | .rename p n q m => .rename p n q m

def step (s : json.Store) (e : UInt64 × FileCommand) : json.Store :=
  applyCommand e.1 s e.2.command

/-- No record and no entry uses the number. -/
def Fresh (s : json.Store) (i : UInt64) : Prop := s.getInode i = none ∧ links s i = 0

/-- Files only, under fresh numbers. -/
def InDomain (s : json.Store) (e : UInt64 × FileCommand) : Prop := match e.2 with
  | .createFile _ _ i => Fresh s i
  | .createFileAtomic info _ => Fresh s info.inode ∧ info.fileType = .file
  | _ => True

/-- Link counts are right, and nothing live is unreachable. -/
structure LinksRight (s : json.Store) : Prop where
  counted : ∀ i info, s.getInode i = some info → info.fileType = .file →
    info.nlink.toNat = links s i
  reachable : ∀ i info, s.getInode i = some info → info.fileType = .file → links s i ≠ 0
  named : ∀ p n i, s.getDirEntryInode p n = some i → s.getInode i ≠ none

/-- The same for one number. -/
structure RightAt (s : json.Store) (i : UInt64) : Prop where
  file : ∀ info, s.getInode i = some info → info.fileType = .file →
    info.nlink.toNat = links s i ∧ links s i ≠ 0
  named : links s i ≠ 0 → s.getInode i ≠ none

theorem linksRight_iff : LinksRight s ↔ ∀ i, RightAt s i := by
  constructor
  · intro h i
    refine ⟨fun info hi hfile => ⟨h.counted i info hi hfile, h.reachable i info hi hfile⟩, ?_⟩
    intro hlinks
    obtain ⟨p, n, hentry⟩ := entry_of_links hlinks
    exact h.named p n i hentry
  · intro h
    exact ⟨fun i info hi hfile => ((h i).file info hi hfile).1,
      fun i info hi hfile => ((h i).file info hi hfile).2,
      fun p n i hentry => (h i).named (links_pos hentry).ne'⟩

theorem RightAt.congr (h : RightAt s i) (hrecord : t.getInode i = s.getInode i)
    (hlinks : links t i = links s i) : RightAt t i := by
  constructor
  · rw [hrecord, hlinks]
    exact h.file
  · rw [hrecord, hlinks]
    exact h.named

theorem rightAt_some (hrecord : s.getInode i = some info) (hcount : info.nlink.toNat = links s i)
    (hpos : links s i ≠ 0) : RightAt s i := by
  constructor
  · intro r hr _
    obtain rfl := some.inj (hrecord.symm.trans hr)
    exact ⟨hcount, hpos⟩
  · intro _
    rw [hrecord]
    exact some_ne_none info

/-- The names that a command writes are free. -/
def Orderly (s : json.Store) (e : UInt64 × FileCommand) : Prop := match e.2 with
  | .createFile p n _ => s.getDirEntryInode p n = none
  | .createFileAtomic info _ =>
    s.containsInode info.inode = true → s.getDirEntryInode info.parentInode info.name = none →
      info.nlink = 1
  | .createHardLink i p n =>
    s.getDirEntryInode p n = none ∧ ∃ info, s.getInode i = some info ∧ info.nlink ≠ 2 ^ 32 - 1
  | .deleteFile _ _ => True
  | .rename p n q m => s.getDirEntryInode p n = none ∨ (p, n) = (q, m) ∨
    s.getDirEntryInode q m = none

/-! ## What they do -/

/-- Everything but the link counts, the entries and the set of records is beside the point. -/
def SameLinks (s t : json.Store) : Prop :=
  (∀ q m, t.getDirEntryInode q m = s.getDirEntryInode q m) ∧
    ∀ i, (t.getInode i).map (fun info => (info.fileType, info.nlink)) =
      (s.getInode i).map fun info => (info.fileType, info.nlink)

theorem SameLinks.trans {r : json.Store} (h₁ : SameLinks r s) (h₂ : SameLinks s t) :
    SameLinks r t :=
  ⟨fun q m => (h₂.1 q m).trans (h₁.1 q m), fun i => (h₂.2 i).trans (h₁.2 i)⟩

theorem sameLinks_modifyInode (i : UInt64) {f : InodeInfo → InodeInfo}
    (hf : ∀ info, (f info).fileType = info.fileType ∧ (f info).nlink = info.nlink) :
    SameLinks s (s.modifyInode i f) := by
  refine ⟨modifyInode_entries i f, ?_⟩
  intro k
  rw [getInode_modifyInode]
  split
  case isTrue heq =>
    subst heq
    rw [Option.map_map]
    congr 1
    funext info
    exact Prod.ext (hf info).1 (hf info).2
  case isFalse => rfl

theorem LinksRight.congr (h : LinksRight s) (hsame : SameLinks s t) : LinksRight t := by
  refine linksRight_iff.mpr fun i => ?_
  have hright := linksRight_iff.mp h i
  have hrecord := hsame.2 i
  constructor
  · intro info hinfo hfile
    rw [hinfo, map_some, eq_comm, map_eq_some_iff] at hrecord
    obtain ⟨old, hold, heq⟩ := hrecord
    rw [links_congr hsame.1, ← (Prod.mk.inj heq).2]
    exact hright.file old hold ((Prod.mk.inj heq).1.trans hfile)
  · intro hlinks hnone
    rw [links_congr hsame.1] at hlinks
    rw [hnone, map_none, eq_comm, map_eq_none_iff] at hrecord
    exact hright.named hlinks hrecord

theorem SameLinks.symm (h : SameLinks s t) : SameLinks t s :=
  ⟨fun q m => (h.1 q m).symm, fun i => (h.2 i).symm⟩

theorem linksRight_congr (h : SameLinks s t) : LinksRight t ↔ LinksRight s :=
  ⟨fun ht => ht.congr h.symm, fun hs => hs.congr h⟩

/-! ## The invariant of a run -/

structure Linked (s : json.Store) : Prop extends LinksRight s where
  numbered : Numbered s
  files : ∀ i info, s.getInode i = some info → info.fileType = .file

theorem Linked.nlink (h : Linked s) (hinfo : s.getInode i = some info) :
    info.nlink.toNat = links s i ∧ 0 < links s i :=
  ⟨h.counted i info hinfo (h.files i info hinfo),
    Nat.pos_of_ne_zero (h.reachable i info hinfo (h.files i info hinfo))⟩

theorem Linked.right (h : Linked s) (i : UInt64) : RightAt s i :=
  linksRight_iff.mp h.toLinksRight i

/-- The record behind an entry. -/
theorem Linked.behind (h : Linked s) (hentry : s.getDirEntryInode p n = some i) :
    ∃ info, s.getInode i = some info :=
  ne_none_iff_exists'.mp (h.named p n i hentry)

theorem linked_fresh (range : UInt64 × UInt64) : Linked (freshStore json range) := by
  have hnone : ∀ i info, ¬ (freshStore json range).getInode i = some info := by
    intro i info hinfo
    have hget : (freshStore json range).getInode i = none := getElem?_empty
    exact absurd (hget.symm.trans hinfo) (some_ne_none info).symm
  refine ⟨⟨fun i info h => absurd h (hnone i info), fun i info h => absurd h (hnone i info), ?_⟩,
    numbered_fresh range, fun i info h => absurd h (hnone i info)⟩
  intro p n i hentry
  have hempty : (freshStore json range).entriesOf p = ∅ := by
    unfold entriesOf freshStore
    rw [getElem?_empty, getD_none]
  rw [getDirEntryInode, hempty, getElem?_empty] at hentry
  cases hentry

/-- A file that keeps its count while an entry of it goes is counted wrong. -/
theorem not_linksRight_of_lost (h : Linked s) {k : UInt64} {info' : InodeInfo}
    (hold : s.getInode k = some info) (hnew : t.getInode k = some info')
    (hfile : info'.fileType = .file) (hnlink : info'.nlink = info.nlink)
    (hlost : links t k = links s k - 1) : ¬ LinksRight t := by
  intro ht
  have hcount := ht.counted k info' hnew hfile
  obtain ⟨heq, hpos⟩ := h.nlink hold
  rw [hnlink] at hcount
  omega

/-! ### A new record under an entry -/

theorem linksRight_createLinked (h : Linked s) (info : InodeInfo) (hfresh : Fresh s info.inode)
    (hfile : info.fileType = .file) :
    LinksRight (s.createLinked info) ↔
      s.getDirEntryInode info.parentInode info.name = none ∧ info.nlink = 1 := by
  have hself : (s.createLinked info).getInode info.inode = some info := by
    rw [createLinked_record, if_pos rfl]
  have hother : ∀ {k}, info.inode ≠ k → (s.createLinked info).getInode k = s.getInode k := by
    intro k hk
    rw [createLinked_record, if_neg hk]
  constructor
  · intro ht
    have hfree : s.getDirEntryInode info.parentInode info.name = none := by
      by_contra htaken
      obtain ⟨k, hk⟩ := ne_none_iff_exists'.mp htaken
      have hne : info.inode ≠ k := by
        intro heq
        have hpos := links_pos hk
        rw [← heq, hfresh.2] at hpos
        omega
      obtain ⟨old, hold⟩ := h.behind hk
      have hlost := links_insert_taken (createLinked_entries info) hk
      rw [if_neg hne.symm] at hlost
      exact not_linksRight_of_lost h hold ((hother hne).trans hold) (h.files k old hold) rfl
        hlost ht
    refine ⟨hfree, ?_⟩
    have hcount := ht.counted info.inode info hself hfile
    rw [links_insert_free (createLinked_entries info) hfree, if_pos rfl, hfresh.2] at hcount
    exact UInt32.toNat_inj.mp hcount
  · rintro ⟨hfree, hone⟩
    refine linksRight_iff.mpr fun k => ?_
    have hlinks := links_insert_free (createLinked_entries info) hfree k
    by_cases hk : k = info.inode
    · subst hk
      rw [if_pos rfl, hfresh.2] at hlinks
      refine rightAt_some hself ?_ (by omega)
      rw [hlinks, hone]
      rfl
    · rw [if_neg hk] at hlinks
      exact (h.right k).congr (hother (Ne.symm hk)) hlinks

/-! ### Hard links -/

theorem createHardLink_record (hs : Numbered s) (i p : UInt64) (n : Text) (k : UInt64) :
    (s.createHardLink i p n).getInode k =
      if i = k then (s.getInode i).map (fun info => withNlink (info.nlink + 1) info)
      else s.getInode k := by
  have hput : Numbered (s.putEntry p n i) := hs.congr rfl
  unfold createHardLink
  dsimp only
  cases hinfo : (s.putEntry p n i).inodes[i]? with
  | none =>
    have hnone : s.getInode i = none := hinfo
    show s.getInode k = _
    rw [hnone, right_eq_ite_iff]
    intro heq
    exact heq ▸ hnone
  | some info =>
    have hsome : s.getInode i = some info := hinfo
    have hnum : (withNlink (info.nlink + 1) info).inode = i := hput i info hinfo
    dsimp only
    rw [updateInode_eq hnum rfl, getInode_putInode, hsome]
    rfl

theorem nlink_succ (nlink : UInt32) :
    (nlink ≠ 2 ^ 32 - 1 → (nlink + 1).toNat = nlink.toNat + 1) ∧
      (nlink + 1).toNat ≠ nlink.toNat ∧ (nlink = 2 ^ 32 - 1 → (nlink + 1).toNat = 0) := by
  have hlt := nlink.toNat_lt
  have hmax : nlink = 2 ^ 32 - 1 ↔ nlink.toNat = 2 ^ 32 - 1 := UInt32.toNat_inj.symm
  rw [ne_eq, hmax, UInt32.toNat_add]
  show (_ → (nlink.toNat + 1) % 2 ^ 32 = _) ∧ (nlink.toNat + 1) % 2 ^ 32 ≠ _ ∧
    (_ → (nlink.toNat + 1) % 2 ^ 32 = 0)
  omega

theorem linksRight_createHardLink (h : Linked s) (i p : UInt64) (n : Text) :
    LinksRight (s.createHardLink i p n) ↔ s.getDirEntryInode p n = none ∧
      ∃ info, s.getInode i = some info ∧ info.nlink ≠ 2 ^ 32 - 1 := by
  have hentries := createHardLink_entries (s := s) i p n
  have hrecord := createHardLink_record h.numbered i p n
  constructor
  · intro ht
    -- the new entry names a record
    have hhere : (s.createHardLink i p n).getDirEntryInode p n = some i := by
      rw [hentries, if_pos rfl]
    have hexists : ∃ info, s.getInode i = some info := by
      have hnamed := ht.named p n i hhere
      rw [hrecord, if_pos rfl, ne_eq, map_eq_none_iff] at hnamed
      exact ne_none_iff_exists'.mp hnamed
    obtain ⟨info, hinfo⟩ := hexists
    have hself : (s.createHardLink i p n).getInode i =
        some (withNlink (info.nlink + 1) info) := by
      rw [hrecord, if_pos rfl, hinfo]
      rfl
    obtain ⟨hsucc, hne, hwrap⟩ := nlink_succ info.nlink
    obtain ⟨hnlink, hpos⟩ := h.nlink hinfo
    have hcount : (info.nlink + 1).toNat = links (s.createHardLink i p n) i :=
      ht.counted i _ hself (h.files i info hinfo)
    have hfree : s.getDirEntryInode p n = none := by
      by_contra htaken
      obtain ⟨k, hk⟩ := ne_none_iff_exists'.mp htaken
      have hlost := links_insert_taken hentries hk
      by_cases hki : k = i
      · subst hki
        rw [if_pos rfl] at hlost
        omega
      rw [if_neg hki] at hlost
      obtain ⟨old, hold⟩ := h.behind hk
      have hnew : (s.createHardLink i p n).getInode k = some old := by
        rw [hrecord, if_neg fun heq => hki heq.symm, hold]
      exact not_linksRight_of_lost h hold hnew (h.files k old hold) rfl hlost ht
    refine ⟨hfree, info, hinfo, ?_⟩
    intro hmax
    rw [hwrap hmax, links_insert_free hentries hfree, if_pos rfl] at hcount
    omega
  · rintro ⟨hfree, info, hinfo, hmax⟩
    refine linksRight_iff.mpr fun k => ?_
    have hlinks := links_insert_free hentries hfree k
    have hk := hrecord k
    by_cases hki : k = i
    · subst hki
      rw [if_pos rfl] at hlinks
      rw [if_pos rfl, hinfo, map_some] at hk
      refine rightAt_some hk ?_ (by omega)
      rw [hlinks, ← (h.nlink hinfo).1]
      exact (nlink_succ info.nlink).1 hmax
    · rw [if_neg hki] at hlinks
      rw [if_neg (Ne.symm hki)] at hk
      exact (h.right k).congr hk hlinks

/-! ### Unlinking -/

theorem deleteFile_record (hs : Numbered s) {j : UInt64} (hentry : s.getDirEntryInode p n = some j)
    (hinfo : s.getInode j = some info) (k : UInt64) :
    (s.deleteFile p n).getInode k =
      if j = k then
        if info.nlink > 1 then some (withNlink (info.nlink - 1) info) else none
      else s.getInode k := by
  have herased : Numbered (s.eraseEntry p n) := hs.congr rfl
  have hinfo' : (s.eraseEntry p n).inodes[j]? = some info := hinfo
  unfold deleteFile
  rw [hentry]
  dsimp only
  rw [hinfo']
  dsimp only
  by_cases hmany : info.nlink > 1
  · have hnum : (withNlink (info.nlink - 1) info).inode = j := herased j info hinfo'
    rw [if_pos hmany, updateInode_eq hnum rfl, if_pos hmany]
    exact getInode_putInode (s := s.eraseEntry p n) j _ k
  · rw [if_neg hmany, if_neg hmany]
    split <;> exact getInode_eraseInode (s := s.eraseEntry p n) j k

theorem linksRight_deleteFile (h : Linked s) (p : UInt64) (n : Text) :
    LinksRight (s.deleteFile p n) := by
  have hentries := deleteFile_entries (s := s) p n
  have hlinks := links_erase hentries
  cases hentry : s.getDirEntryInode p n with
  | none =>
    refine h.toLinksRight.congr ⟨?_, ?_⟩
    · intro q m
      rw [hentries, ite_eq_right_iff]
      intro heq
      rw [← (Prod.mk.inj heq).1, ← (Prod.mk.inj heq).2, hentry]
    · intro i
      unfold deleteFile
      rw [hentry]
      rfl
  | some j =>
    obtain ⟨info, hinfo⟩ := h.behind hentry
    obtain ⟨hnlink, hpos⟩ := h.nlink hinfo
    have hrecord := deleteFile_record h.numbered hentry hinfo
    simp only [hentry, some.injEq] at hlinks
    have hmany : info.nlink > 1 ↔ 1 < info.nlink.toNat := UInt32.lt_iff_toNat_lt
    refine linksRight_iff.mpr fun k => ?_
    have hk := hrecord k
    have hleft := hlinks k
    by_cases hjk : j = k
    · subst hjk
      rw [if_pos rfl] at hk hleft
      split at hk
      case isFalse hlast =>
        rw [hmany] at hlast
        refine ⟨fun r hr => ?_, fun hpos => absurd hleft (by omega)⟩
        cases hk.symm.trans hr
      case isTrue hgt =>
        have hlt := hmany.mp hgt
        refine rightAt_some hk ?_ (by omega)
        rw [hleft, ← hnlink]
        exact UInt32.toNat_sub_of_le _ _ (UInt32.le_iff_toNat_le.mpr hlt.le)
    · rw [if_neg hjk] at hk hleft
      exact (h.right k).congr hk hleft

/-! ### Renames -/

/-- The entry of `j` moves from one place to another. -/
theorem linksRight_move (h : Linked s) {q j : UInt64} {m : Text}
    (hentry : s.getDirEntryInode p n = some j) :
    LinksRight ((s.eraseEntry p n).putEntry q m j) ↔
      (p, n) = (q, m) ∨ s.getDirEntryInode q m = none := by
  have herase := getDirEntryInode_eraseEntry (s := s) p n
  have hput := getDirEntryInode_putEntry (s := s.eraseEntry p n) q m j
  have hlinks := links_erase herase
  by_cases hsame : (p, n) = (q, m)
  · obtain ⟨rfl, rfl⟩ := Prod.mk.inj hsame
    refine iff_of_true (h.toLinksRight.congr ⟨?_, fun i => rfl⟩) (Or.inl rfl)
    intro q' m'
    rw [hput, herase]
    split
    case isTrue heq => rw [← (Prod.mk.inj heq).1, ← (Prod.mk.inj heq).2, hentry]
    case isFalse => rfl
  · have hthere : (s.eraseEntry p n).getDirEntryInode q m = s.getDirEntryInode q m := by
      rw [herase, if_neg hsame]
    constructor
    · intro ht
      right
      by_contra htaken
      obtain ⟨k, hk⟩ := ne_none_iff_exists'.mp htaken
      obtain ⟨old, hold⟩ := h.behind hk
      have hlost := links_insert_taken hput (hthere.trans hk)
      rw [hlinks, hentry] at hlost
      have hnew : ((s.eraseEntry p n).putEntry q m j).getInode k = some old := hold
      refine not_linksRight_of_lost h hold hnew (h.files k old hold) rfl ?_ ht
      rw [hlost]
      by_cases hkj : k = j
      · rw [if_pos hkj, if_pos (congrArg some hkj.symm)]
      · rw [if_neg hkj, if_neg fun heq => hkj (some.inj heq).symm]
    · rintro (hsame' | hfree)
      · exact absurd hsame' hsame
      · have hmoved : ∀ k, links ((s.eraseEntry p n).putEntry q m j) k = links s k := by
          intro k
          rw [links_insert_free hput (hthere.trans hfree), hlinks, hentry]
          by_cases hkj : k = j
          · have hpos := links_pos hentry
            subst hkj
            rw [if_pos rfl, if_pos rfl]
            omega
          · rw [if_neg hkj, if_neg fun heq => hkj (some.inj heq).symm]
        exact linksRight_iff.mpr fun k => (h.right k).congr rfl (hmoved k)

theorem linksRight_rename (h : Linked s) (now p : UInt64) (n : Text) (q : UInt64) (m : Text) :
    LinksRight (s.rename now p n q m) ↔
      s.getDirEntryInode p n = none ∨ (p, n) = (q, m) ∨ s.getDirEntryInode q m = none := by
  unfold rename
  cases hentry : s.getDirEntryInode p n with
  | none => exact iff_of_true h.toLinksRight (Or.inl rfl)
  | some j =>
    have hsame : ∀ {u : json.Store} (i : UInt64), SameLinks u (u.modifyInode i (touch now)) :=
      fun i => sameLinks_modifyInode i fun info => ⟨rfl, rfl⟩
    have hmoved : SameLinks ((s.eraseEntry p n).putEntry q m j)
        (((s.eraseEntry p n).putEntry q m j).modifyInode j (moveTo m q)) :=
      sameLinks_modifyInode j fun info => ⟨rfl, rfl⟩
    rw [linksRight_congr ((hmoved.trans (hsame p)).trans (hsame q)), linksRight_move h hentry]
    simp only [reduceCtorEq, false_or]

/-! ## Runs -/

theorem linksRight_step_iff (h : Linked s) (e : UInt64 × FileCommand) (hdomain : InDomain s e) :
    LinksRight (step s e) ↔ Orderly s e := by
  obtain ⟨now, cmd⟩ := e
  cases cmd with
  | createFile p n i =>
    have hiff := linksRight_createLinked h (fileInode now i p n) hdomain rfl
    exact hiff.trans (and_iff_left rfl)
  | createFileAtomic info exclusive =>
    obtain ⟨hfresh, hfile⟩ := hdomain
    show LinksRight (s.createFileResolveExisting info exclusive).1 ↔ (_ → _ → _)
    rw [createFileResolveExisting_eq]
    split
    case isFalse htaken =>
      exact iff_of_true h.toLinksRight fun hin hnone => absurd ⟨hin, hnone⟩ htaken
    case isTrue hfree =>
      have hsame : SameLinks (s.createLinked info)
          ((s.createLinked info).bumpDirVersion info.parentInode) :=
        sameLinks_modifyInode info.parentInode fun r => ⟨rfl, rfl⟩
      rw [linksRight_congr hsame, linksRight_createLinked h info hfresh hfile, hfree.2]
      simp only [hfree.1, true_and, forall_const]
  | createHardLink i p n => exact linksRight_createHardLink h i p n
  | deleteFile p n => exact iff_of_true (linksRight_deleteFile h p n) trivial
  | rename p n q m => exact linksRight_rename h now p n q m

theorem Linked.step (h : Linked s) (e : UInt64 × FileCommand) (hdomain : InDomain s e)
    (hright : LinksRight (LinkCounts.step s e)) : Linked (LinkCounts.step s e) := by
  refine ⟨hright, applyCommand_numbered h.numbered e.1 _, ?_⟩
  intro i info hinfo
  have htarget : target e.2.command = none := by cases e.2 <;> rfl
  rcases getInode_names h.numbered e.1 htarget i with hkept | ⟨made, hmade, -, hkept⟩
  · obtain ⟨old, hold, _, _, _, _, _, _, rfl⟩ := hkept info hinfo
    exact h.files i old hold
  obtain ⟨old, hold, _, _, _, _, _, _, rfl⟩ := hkept info hinfo
  obtain rfl := some.inj hold
  obtain ⟨now, cmd⟩ := e
  cases cmd with
  | createFile p n j =>
    obtain rfl := some.inj hmade
    rfl
  | createFileAtomic info exclusive =>
    obtain rfl := some.inj hmade
    exact hdomain.2
  | createHardLink | deleteFile | rename => cases hmade

/-- **Link counts are right after every command exactly when each command finds the names it
writes free.** -/
theorem link_counts_right_iff (range : UInt64 × UInt64) (cmds : List (UInt64 × FileCommand))
    (hdomain : Along step InDomain (freshStore json range) cmds) :
    Along step (fun s e => LinksRight (step s e)) (freshStore json range) cmds ↔
      Along step Orderly (freshStore json range) cmds := by
  have hboth : Along step (fun s e => InDomain s e ∧ LinksRight (step s e))
      (freshStore json range) cmds ↔
      Along step (fun s e => InDomain s e ∧ Orderly s e) (freshStore json range) cmds := by
    refine along_iff (I := Linked) (fun s e h hok => h.step e hok.1 hok.2) ?_ cmds
      (linked_fresh range)
    intro s e h
    exact and_congr_right fun hin => linksRight_step_iff h e hin
  rw [along_and, along_and] at hboth
  exact ⟨fun h => (hboth.mp ⟨hdomain, h⟩).2, fun h => (hboth.mpr ⟨hdomain, h⟩).2⟩

/-- A file gets a second name, the first one changes, and the second goes. -/
def tidyCommands : List (UInt64 × FileCommand) :=
  [(1, .createFile 1 ['a'] 2), (2, .createHardLink 2 1 ['b']), (3, .rename 1 ['a'] 1 ['c']),
    (4, .deleteFile 1 ['b'])]

theorem tidy_links_right_iff :
    Along step (fun s e => LinksRight (step s e)) plainStore tidyCommands ↔
      Along step Orderly plainStore tidyCommands :=
  link_counts_right_iff (0, 100) tidyCommands
    ⟨⟨by decide +kernel, by decide +kernel⟩, trivial, trivial, trivial, trivial⟩

/-- A file that is created, or renamed, over another leaves the other with a link count of
one and no entry. -/
theorem replaced_files_unreachable :
    let created := [(1, .createFile 1 ['a'] 2), (2, .createFile 1 ['a'] 3)].foldl step plainStore
    let renamed := [(1, .createFile 1 ['a'] 2), (2, .createFile 1 ['b'] 3),
      (3, .rename 1 ['a'] 1 ['b'])].foldl step plainStore
    (created.getInode 2).map InodeInfo.nlink = some 1 ∧ links created 2 = 0 ∧
      (renamed.getInode 3).map InodeInfo.nlink = some 1 ∧ links renamed 3 = 0 := by
  decide +kernel

end PowerFS.Filer.LinkCounts
