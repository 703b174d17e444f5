import PowerFS.Filer.RecordSteps

/-! # The counters of a shard

A shard counts its records as they come and go: all of them, those of files and those of
directories. A command keeps the types of the records or sets that of one inode; `Change`
says which, with what it does to the counters. A create counts its record whether the inode
had one or not, and a delete of a file counts whatever its entry named. So the counters agree
with a recount as long as creates find their inode free, and deletes a record of their kind. -/
namespace PowerFS.Filer.Counters
open Lib.StepRuns InodeRecords MetadataShard ShardFacts RecordSteps List ShardStore

variable {json : Json} {s t : json.Store} {now : UInt64} {cmd : ShardCommand}
  {kind : FileType → Bool} {i j : UInt64}

/-! ## Records -/

/-- The inodes whose record is of a kind. -/
def records (s : json.Store) (kind : FileType → Bool) : Finset UInt64 :=
  ((s.inodes.toList.filter fun e => kind e.2.fileType).map Prod.fst).toFinset

/-- The type of the record of an inode. -/
def typeAt (s : json.Store) (i : UInt64) : Option FileType :=
  (s.getInode i).map InodeInfo.fileType

theorem mem_records : i ∈ records s kind ↔ (typeAt s i).any kind = true := by
  simp only [records, mem_toFinset, mem_map, mem_filter, Prod.exists,
    Std.ExtTreeMap.mem_toList_iff_getElem?_eq_some, typeAt, getInode]
  cases hinfo : s.inodes[i]? with
  | none => simp [hinfo]
  | some info => simp [hinfo]

theorem records_congr (h : ∀ i, typeAt t i = typeAt s i) : records t kind = records s kind := by
  ext i
  rw [mem_records, mem_records, h]

/-- The type at one inode is set, and no other. -/
def Sets (s t : json.Store) (j : UInt64) (type : Option FileType) : Prop :=
  ∀ i, typeAt t i = if j = i then type else typeAt s i

theorem Sets.records {type : Option FileType} (h : Sets s t j type) :
    records t kind =
      if type.any kind then insert j (records s kind) else (records s kind).erase j := by
  ext i
  rw [mem_records, h]
  by_cases hji : j = i
  · rw [if_pos hji, ← hji]
    cases type.any kind <;> simp
  · cases type.any kind <;> simp [mem_records, hji, Ne.symm hji]

theorem sets_putInode (info : InodeInfo) : Sets s (s.putInode j info) j (some info.fileType) := by
  intro i
  unfold typeAt
  rw [getInode_putInode]
  split <;> rfl

theorem sets_eraseInode : Sets s (s.eraseInode j) j none := by
  intro i
  unfold typeAt
  rw [getInode_eraseInode]
  split <;> rfl

theorem Sets.absent (h : Sets s t j none) (hnone : s.getInode j = none) (i : UInt64) :
    typeAt t i = typeAt s i := by
  rw [h i]
  split
  case isTrue heq =>
    rw [← heq, typeAt, hnone]
    rfl
  case isFalse => rfl

variable {info : InodeInfo} {counted tidy : Prop} {c : UInt64}

/-- A record that is written over one of its type. -/
theorem typeAt_putInode {info' : InodeInfo} (hinfo : s.getInode j = some info)
    (htype : info'.fileType = info.fileType) (i : UInt64) :
    typeAt (s.putInode j info') i = typeAt s i := by
  rw [sets_putInode info' i]
  split
  case isTrue heq =>
    rw [← heq, htype, typeAt, hinfo]
    rfl
  case isFalse => rfl

theorem typeAt_modifyInode (f : InodeInfo → InodeInfo)
    (hf : ∀ info, (f info).fileType = info.fileType) (j i : UInt64) :
    typeAt (s.modifyInode j f) i = typeAt s i := by
  unfold modifyInode
  split
  · rfl
  · exact typeAt_putInode ‹_› (hf _) i

/-- A link count that is first changed in memory. -/
theorem typeAt_relink (h : Numbered s) (hinfo : s.getInode j = some info) (nlink : UInt32)
    (i : UInt64) :
    typeAt (updateInode { s with inodes := s.inodes.insert j (withNlink nlink info) }
      (withNlink nlink info)) i = typeAt s i := by
  have hnum : (withNlink nlink info).inode = j := h j info hinfo
  rw [updateInode_eq hnum rfl]
  exact typeAt_putInode hinfo (by rfl) i

/-- A command that counts nothing keeps the types of the records. -/
theorem typeAt_frame (h : Numbered s) (hcounts : counts cmd = false) (i : UInt64) :
    typeAt (applyCommand now s cmd) i = typeAt s i := by
  have hwrites : ∀ t, Writes now cmd s t → typeAt t i = typeAt s i := by
    intro t hw
    induction hw with
    | start => rfl
    | make _ hmake => cases cmd <;> first | exact Bool.noConfusion hcounts | cases hmake
    | change _ hinfo _ hchange ih => exact (typeAt_putInode hinfo hchange.sameInode.2 i).trans ih
    | eraseInode _ hdrops =>
      cases cmd <;> first | exact Bool.noConfusion hcounts | exact hdrops.elim
    | _ =>
      rename_i ih
      exact ih
  exact hwrites _ (writes_applyCommand h)

/-! ## What commands do -/

/-- A create finds no record of its inode, and a delete finds one of its own kind. -/
def Tidy (s : json.Store) : ShardCommand → Prop
  | .createFile _ _ inode | .putObject _ _ inode .. | .createSymlink _ _ inode _ =>
    typeAt s inode = none
  | .createInode info => typeAt s info.inode = none
  | .createFileAtomic info _ => s.containsInode info.inode →
      s.getDirEntryInode info.parentInode info.name = none → typeAt s info.inode = none
  | .deleteFile parentInode name => ∀ inode, s.getDirEntryInode parentInode name = some inode →
      (s.getInode inode = none → inode = 0) ∧ ∀ info, s.getInode inode = some info →
        info.nlink > 1 ∨ inode ≠ 0 ∧ info.fileType ≠ .directory
  | .deleteDirectory parentInode name => ∀ inode info,
      s.getDirEntryInode parentInode name = some inode → s.hasLive inode = false →
        s.getInode inode = some info → info.fileType ≠ .file
  | _ => True

/-- A counter goes down by one for a record that it counts, or stays; with a tidy command it
goes down. -/
def Uncounts (counted tidy : Prop) (c c' : UInt64) : Prop :=
  (c' = c ∨ counted ∧ c' = c - 1) ∧ (tidy → counted → c ≠ 0 → c' = c - 1)

theorem uncounts_if [Decidable counted] :
    Uncounts counted tidy c (if counted then c - 1 else c) := by
  unfold Uncounts
  split <;> simp_all

theorem uncounts_saturating [Decidable counted] :
    Uncounts counted tidy c (if counted ∧ c ≠ 0 then c - 1 else c) := by
  unfold Uncounts
  split <;> simp_all

theorem uncounts_same (h : tidy → ¬ counted) : Uncounts counted tidy c c :=
  ⟨.inl rfl, fun htidy hcounted => absurd hcounted (h htidy)⟩

/-- What a command does to the types of the records, and to the counters. -/
inductive Change (s : json.Store) (cmd : ShardCommand) (t : json.Store) : Prop
  | keep (htypes : ∀ i, typeAt t i = typeAt s i) (hstats : t.stats = s.stats)
  | create (made : UInt64) (type : FileType) (hfree : Tidy s cmd → typeAt s made = none)
    (hsets : Sets s t made (some type)) (hstats : t.stats = (s.countCreated type).stats)
  | remove (gone : UInt64) (type : FileType) (hin : typeAt s gone = some type)
    (hsets : Sets s t gone none)
    (hinodes : s.stats.inodeCount ≠ 0 → t.stats.inodeCount = s.stats.inodeCount - 1)
    (hfiles : Uncounts (type = .file) (Tidy s cmd) s.stats.fileCount t.stats.fileCount)
    (hdirs : Uncounts (type = .directory) (Tidy s cmd) s.stats.dirCount t.stats.dirCount)
  | lose (huntidy : ¬ Tidy s cmd) (hsets : Sets s t 0 none) (hstats : t.stats = s.stats)
  | stray (parentInode : UInt64) (name : Text) (inode : UInt64)
    (hcmd : cmd = .deleteFile parentInode name)
    (hentry : s.getDirEntryInode parentInode name = some inode) (hne : inode ≠ 0)
    (hnone : s.getInode inode = none)

theorem typeAt_some (h : s.getInode i = some info) : typeAt s i = some info.fileType := by
  rw [typeAt, h]
  rfl

theorem change_deleteFile (h : Numbered s) (p : UInt64) (n : Text) :
    Change s (.deleteFile p n) (s.deleteFile p n) := by
  fun_cases deleteFile with
  | case1 => exact .keep (fun _ => rfl) rfl
  | case2 inode hentry _ info hinfo hlinked =>
    exact .keep (typeAt_relink (s := s.eraseEntry p n) (h.congr rfl) hinfo _) rfl
  | case3 _ info hlast hentry hinfo =>
    refine .lose (fun htidy => ?_) sets_eraseInode rfl
    exact (((htidy 0 hentry).2 info hinfo).resolve_left hlast).1 rfl
  | case4 inode hentry _ info hinfo hlast _ hne =>
    refine .remove inode info.fileType (typeAt_some hinfo) sets_eraseInode (fun _ => rfl)
      uncounts_if (uncounts_same fun htidy => ?_)
    exact (((htidy inode hentry).2 info hinfo).resolve_left hlast).2
  | case5 _ _ hnone => exact .keep (sets_eraseInode.absent hnone) rfl
  | case6 inode hentry _ hnone _ hne => exact .stray p n inode rfl hentry hne hnone

theorem change_deleteDirectory (p : UInt64) (n : Text) :
    Change s (.deleteDirectory p n) (s.deleteDirectory p n) := by
  fun_cases deleteDirectory with
  | case1 | case2 => exact .keep (fun _ => rfl) rfl
  | case3 inode _ _ _ hnone => exact .keep (sets_eraseInode.absent hnone) rfl
  | case4 inode hentry hlive _ info hinfo =>
    refine .remove inode info.fileType (typeAt_some hinfo) sets_eraseInode (fun _ => rfl)
      (uncounts_same fun htidy => ?_) uncounts_if
    exact htidy inode info hentry (Bool.eq_false_iff.mpr hlive) hinfo

/-- The counters of `delete_inode` do not go below zero. -/
theorem change_deleteInode (i : UInt64) : Change s cmd (s.deleteInode i) := by
  unfold deleteInode
  dsimp only
  split
  case h_1 hnone => exact .keep (sets_eraseInode.absent hnone) rfl
  case h_2 info hinfo =>
    -- the stored entries of a directory go too, which is beside the point here
    split <;> exact .remove i info.fileType (typeAt_some hinfo) sets_eraseInode
      (fun hne => if_neg hne) uncounts_saturating uncounts_saturating

theorem change_createDirectory (marker : Option json.Doc) (p : UInt64) (n : Text) (i : UInt64) :
    Change s cmd (createDirectory { s with db.formatMarker := marker } now p n i) := by
  unfold createDirectory
  split
  case isTrue => exact .keep (fun _ => rfl) rfl
  case isFalse habsent =>
    refine .create i .directory (fun _ => ?_) (sets_putInode _) rfl
    have hnone : s.inodes[i]? = none := Std.ExtTreeMap.getElem?_eq_none habsent
    exact congrArg (Option.map _) hnone

/-- **A command keeps the types of the records, or sets that of one inode.** -/
theorem change (h : Numbered s) (cmd : ShardCommand) : Change s cmd (applyCommand now s cmd) := by
  cases hcounts : counts cmd with
  | false => exact .keep (typeAt_frame h hcounts) (stats_frame h hcounts)
  | true =>
    cases cmd with
    | createFile p n i => exact .create i .file id (sets_putInode _) rfl
    | putObject p n i size fid volumeId etag => exact .create i .file id (sets_putInode _) rfl
    | createSymlink p n i target => exact .create i .symlink id (sets_putInode _) rfl
    | createInode info => exact .create info.inode info.fileType id (sets_putInode info) rfl
    | createDirectory p n i => exact change_createDirectory s.db.formatMarker p n i
    | formatPosixRoot fsid shardCount createdAt =>
      dsimp only [applyCommand]
      unfold applyFormatPosixRoot
      split
      · exact .keep (fun _ => rfl) rfl
      · exact change_createDirectory _ 0 ['/'] 1
    | createFileAtomic info exclusive =>
      dsimp only [applyCommand]
      rw [createFileResolveExisting_eq]
      split
      case isFalse => exact .keep (fun _ => rfl) rfl
      case isTrue hfree =>
        refine .create info.inode info.fileType (fun htidy => htidy hfree.1 hfree.2) ?_ ?_
        · intro i
          exact (typeAt_modifyInode bumpVersion (fun _ => rfl) _ i).trans (sets_putInode info i)
        · unfold bumpDirVersion modifyInode
          split <;> rfl
    | deleteFile p n => exact change_deleteFile h p n
    | deleteDirectory p n => exact change_deleteDirectory p n
    | deleteInode i => exact change_deleteInode i
    | decrementNlink i =>
      dsimp only [applyCommand]
      fun_cases decrementNlinkAndMaybeDelete with
      | case1 => exact .keep (fun _ => rfl) rfl
      | case2 => exact change_deleteInode i
      | case3 info hinfo nlink =>
        have hnum : (withNlink nlink info).inode = i := h i info hinfo
        refine .keep (fun k => ?_) rfl
        rw [updateInode, hnum]
        exact typeAt_putInode hinfo (by rfl) k
    | _ => cases hcounts

/-! ## Recounts -/

/-- A counter is the number of the records of its kind. -/
def Matches (s : json.Store) (kind : FileType → Bool) (counter : UInt64) : Prop :=
  counter.toNat = (records s kind).card

structure Recounted (s : json.Store) : Prop where
  inodes : Matches s (fun _ => true) s.stats.inodeCount
  files : Matches s (· = .file) s.stats.fileCount
  dirs : Matches s (· = .directory) s.stats.dirCount

section

variable {counter counter' : UInt64} {type : FileType} (h : Matches s kind counter)
include h

theorem Matches.created (hroom : (records s kind).card + 1 < 2 ^ 64) (hfree : typeAt s j = none)
    (hsets : Sets s t j (some type)) :
    Matches t kind (if kind type then counter + 1 else counter) := by
  have hnew : j ∉ records s kind := by
    rw [mem_records, hfree]
    exact Bool.false_ne_true
  unfold Matches at h ⊢
  rw [hsets.records, Option.any_some]
  split
  · rw [Finset.card_insert_of_notMem hnew, UInt64.toNat_add, h]
    exact Nat.mod_eq_of_lt hroom
  · rw [Finset.erase_eq_of_notMem hnew, h]

theorem Matches.removed (hin : typeAt s j = some type) (hsets : Sets s t j none)
    (hgone : kind type = true → counter ≠ 0 → counter' = counter - 1)
    (hother : kind type = false → counter' = counter) : Matches t kind counter' := by
  have hmem : j ∈ records s kind ↔ kind type = true := by
    rw [mem_records, hin, Option.any_some]
  unfold Matches at h ⊢
  rw [hsets.records, Option.any_none, if_neg Bool.false_ne_true]
  cases hkind : kind type with
  | false => rw [hother hkind, Finset.erase_eq_of_notMem (by simp [hmem, hkind]), h]
  | true =>
    have hthere := hmem.mpr hkind
    have hpos := Finset.card_pos.mpr ⟨j, hthere⟩
    have hone : 1 ≤ counter := UInt64.le_iff_toNat_le.mpr (by rw [h]; exact hpos)
    rw [Finset.card_erase_of_mem hthere, hgone hkind (by rintro rfl; cases hone), ← h]
    exact UInt64.toNat_sub_of_le _ _ hone

end

theorem Matches.uncounted {counter counter' : UInt64} {type ty : FileType}
    (h : Matches s (· = ty) counter) (hin : typeAt s j = some type) (hsets : Sets s t j none)
    (htidy : tidy) (hcounts : Uncounts (type = ty) tidy counter counter') :
    Matches t (· = ty) counter' := by
  refine h.removed hin hsets (fun hkind => hcounts.2 htidy (of_decide_eq_true hkind)) ?_
  intro hkind
  exact hcounts.1.resolve_right fun hless => of_decide_eq_false hkind hless.1

/-- **A tidy command keeps the counters right.** -/
theorem Recounted.change (h : Recounted s) (hroom : (records s fun _ => true).card + 1 < 2 ^ 64)
    (htidy : Tidy s cmd) (hchange : Change s cmd t) : Recounted t := by
  cases hchange with
  | keep htypes hstats =>
    have hkeep : ∀ {kind counter}, Matches s kind counter → Matches t kind counter := by
      intro kind counter hmatch
      rwa [Matches, records_congr htypes]
    exact ⟨hstats ▸ hkeep h.inodes, hstats ▸ hkeep h.files, hstats ▸ hkeep h.dirs⟩
  | create made type hfree hsets hstats =>
    have hroom' : ∀ kind, (records s kind).card + 1 < 2 ^ 64 := by
      intro kind
      refine (Nat.succ_le_succ (Finset.card_le_card fun i hi => ?_)).trans_lt hroom
      rw [mem_records] at hi ⊢
      cases hi' : typeAt s i <;> simp_all
    refine ⟨?_, ?_, ?_⟩ <;> rw [hstats]
    · exact h.inodes.created (hroom' _) (hfree htidy) hsets
    · simpa [countCreated, setStats, saveStats] using h.files.created (hroom' _) (hfree htidy) hsets
    · simpa [countCreated, setStats, saveStats] using h.dirs.created (hroom' _) (hfree htidy) hsets
  | remove gone type hin hsets hinodes hfiles hdirs =>
    exact ⟨h.inodes.removed hin hsets (fun _ => hinodes) (by simp),
      h.files.uncounted hin hsets htidy hfiles, h.dirs.uncounted hin hsets htidy hdirs⟩
  | lose huntidy => exact absurd htidy huntidy
  | stray p n inode hcmd hentry hne hnone =>
    subst hcmd
    exact absurd ((htidy inode hentry).1 hnone) hne

theorem Change.card_le (htidy : Tidy s cmd) (hchange : Change s cmd t) :
    (records t kind).card ≤ (records s kind).card + 1 := by
  have hset : ∀ {j type}, Sets s t j type →
      (records t kind).card ≤ (records s kind).card + 1 := by
    intro j type hsets
    rw [hsets.records]
    split
    · exact Finset.card_insert_le _ _
    · exact (Finset.card_le_card (Finset.erase_subset _ _)).trans (Nat.le_succ _)
  cases hchange with
  | keep htypes hstats => exact (records_congr htypes ▸ Nat.le_succ _)
  | create made type hfree hsets hstats => exact hset hsets
  | remove gone type hin hsets => exact hset hsets
  | lose huntidy hsets => exact hset hsets
  | stray p n inode hcmd hentry hne hnone =>
    subst hcmd
    exact absurd ((htidy inode hentry).1 hnone) hne

/-! ## Runs -/

theorem Recounted.run (log : List (UInt64 × ShardCommand)) (hnum : Numbered s) (h : Recounted s)
    (hroom : (records s fun _ => true).card + log.length < 2 ^ 64)
    (htidy : Along step (fun s e => Tidy s e.2) s log) :
    Along step (fun s e => Recounted (step s e)) s log := by
  induction log generalizing s with
  | nil => trivial
  | cons e log ih =>
    have hchange : Change s e.2 (step s e) := Counters.change hnum e.2
    have hcard : (records (step s e) fun _ => true).card ≤
        (records s fun _ => true).card + 1 := hchange.card_le htidy.1
    rw [length_cons] at hroom
    have hnext := h.change (by omega) htidy.1 hchange
    exact ⟨hnext, ih (applyCommand_numbered hnum e.1 e.2) hnext (by omega) htidy.2⟩

theorem records_fresh (range : UInt64 × UInt64) : records (freshStore json range) kind = ∅ := by
  ext i
  rw [mem_records, typeAt, getInode]
  simp [freshStore]

/-- **After every command of a tidy run the counters are those of a recount.** -/
theorem counters_match_recount (range : UInt64 × UInt64) (log : List (UInt64 × ShardCommand))
    (hlen : log.length < 2 ^ 64)
    (htidy : Along step (fun s e => Tidy s e.2) (freshStore json range) log) :
    Along step (fun s e => Recounted (step s e)) (freshStore json range) log := by
  have hfresh : ∀ kind, Matches (freshStore json range) kind 0 := fun kind => by
    rw [Matches, records_fresh]
    rfl
  refine Recounted.run log (numbered_fresh range) ⟨hfresh _, hfresh _, hfresh _⟩ ?_ htidy
  rwa [records_fresh, Finset.card_empty, Nat.zero_add]

/-- A file is created, and its last link goes. -/
def tidyLog : List (UInt64 × ShardCommand) :=
  [(1, .createFile 1 ['a'] 2), (2, .decrementNlink 2)]

theorem tidyLog_recounted :
    Along step (fun s e => Recounted (step s e)) plainStore tidyLog :=
  counters_match_recount (0, 100) tidyLog (by decide) ⟨rfl, trivial, trivial⟩

instance (s : json.Store) : Decidable (Recounted s) :=
  decidable_of_iff (s.stats.inodeCount.toNat = (records s fun _ => true).card ∧
      s.stats.fileCount.toNat = (records s (· = .file)).card ∧
      s.stats.dirCount.toNat = (records s (· = .directory)).card)
    ⟨fun h => ⟨h.1, h.2.1, h.2.2⟩, fun h => ⟨h.1, h.2, h.3⟩⟩

/-- One inode is created under two names, an entry goes whose record is elsewhere, and a
file is deleted as a directory. -/
theorem untidy_logs_miscounted :
    List.Forall (fun log => ¬ Recounted (applyLog plainStore log))
      [[(1, .createFile 1 ['a'] 2), (2, .createFile 1 ['b'] 2)],
      [(1, .addDirEntry 1 ['a'] 2), (2, .deleteFile 1 ['a'])],
      [(1, .createFile 1 ['a'] 2), (2, .deleteDirectory 1 ['a'])]] := by
  decide +kernel

end PowerFS.Filer.Counters
