import PowerFS.Filer.InlineCommits
import PowerFS.Filer.Counters

/-! # Operations that can fail

The apply path of a shard has arithmetic that can overflow, slices with bounds and buffers
that it sizes itself. `operations` lists them for a command in a state, with their operands.
The slices always fit; the counters stay above the number of records as long as no entry
without a record is deleted; the sizes that a client sends or has stored are what an
allocation can trip over. -/
namespace PowerFS.Filer.Faults
open Lib.ByteString Lib.StepRuns InodeRecords MetadataShard ShardFacts RecordSteps InlineCommits
  Counters List ShardStore

variable {json : Json} {s : json.Store} {now : UInt64}

/-! ## Operations -/

/-- `INLINE_HARD_LIMIT` -/
def inlineHardLimit : Nat := 8 * 1024

/-- An operation with its operands: sums and products of a width in bits, differences,
slices of a buffer, copies between slices, and buffers with what they may take. -/
inductive Op where
  | add (width a b : Nat)
  | mul (width a b : Nat)
  | sub (a b : Nat)
  | slice (len start stop : Nat)
  | copy (dst src : Nat)
  | alloc (len allowed : Nat)
  deriving DecidableEq

def Op.Succeeds : Op → Prop
  | .add width a b => a + b < 2 ^ width
  | .mul width a b => a * b < 2 ^ width
  | .sub a b => b ≤ a
  | .slice len start stop => start ≤ stop ∧ stop ≤ len
  | .copy dst src => dst = src
  | .alloc len allowed => len ≤ allowed

instance : DecidablePred Op.Succeeds
  | .add width a b => inferInstanceAs (Decidable (a + b < 2 ^ width))
  | .mul width a b => inferInstanceAs (Decidable (a * b < 2 ^ width))
  | .sub a b => inferInstanceAs (Decidable (b ≤ a))
  | .slice len start stop => inferInstanceAs (Decidable (start ≤ stop ∧ stop ≤ len))
  | .copy dst src => inferInstanceAs (Decidable (dst = src))
  | .alloc len allowed => inferInstanceAs (Decidable (len ≤ allowed))

/-- The counters of a record that comes in. -/
def createOps (stats : ShardStats) (fileType : FileType) : List Op :=
  .add 64 stats.inodeCount.toNat 1 :: match fileType with
    | .file => [.add 64 stats.fileCount.toNat 1]
    | .directory => [.add 64 stats.dirCount.toNat 1]
    | .symlink => []

def deleteFileOps (s : json.Store) (parentInode : UInt64) (name : Text) : List Op :=
  match s.getDirEntryInode parentInode name with
  | none => []
  | some inode => match s.getInode inode with
    | some info =>
      if info.nlink > 1 then [.sub info.nlink.toNat 1]
      else if inode = 0 then []
      else .sub s.stats.inodeCount.toNat 1 ::
        if info.fileType = .file then [.sub s.stats.fileCount.toNat 1] else []
    | none => if inode = 0 then [] else [.sub s.stats.inodeCount.toNat 1]

def deleteDirectoryOps (s : json.Store) (parentInode : UInt64) (name : Text) : List Op :=
  match s.getDirEntryInode parentInode name with
  | none => []
  | some inode =>
    if s.hasLive inode then []
    else match s.getInode inode with
      | none => []
      | some info => .sub s.stats.inodeCount.toNat 1 ::
          if info.fileType = .directory then [.sub s.stats.dirCount.toNat 1] else []

/-- `merge_inline_dirty_blocks`: one buffer for everything, the old data, the marked blocks. -/
def mergeOps (allowed : Nat) (existing : Option Bytes) (existingSize : UInt64) (client : Bytes)
    (clientSize : UInt64) (dirtyMask : UInt32) : List Op :=
  let old := existing.getD []
  let mergedLen := max (max (max old.length client.length) existingSize.toNat) clientSize.toNat
  [.alloc mergedLen allowed, .slice mergedLen 0 old.length] ++
    (List.range 32).flatMap fun bit =>
      let start := bit * 4096
      let cend := min (min (start + 4096) mergedLen) client.length
      if start < mergedLen ∧ dirtyMask.toNat.testBit bit ∧ start < cend then
        [.slice mergedLen start cend, .slice client.length start cend]
      else []

def syncOps (size : UInt64) (inlineData : Option Bytes) (isAppend : Bool)
    (inlineDirtyMask : Option UInt32) (info : InodeInfo) : List Op :=
  if info.migration ≠ none then []
  else match isAppend, inlineData with
    | true, some delta => [.alloc ((buffer info).length + delta.length)
        (delta.length + (buffer info).length + inlineHardLimit)]
    | false, some client =>
      if info.chunks ≠ [] ∨ info.storageMode.isVolumeBacked then []
      else match inlineDirtyMask with
        | some mask => mergeOps (client.length + (buffer info).length + inlineHardLimit)
            info.inlineData info.size client size mask
        | none => []
    | _, none => []

/-- The blocks of `begin_migration` over a buffer of a length, which grows to the end of each
block and in the end to the size of the file. -/
def blockOps (allowed size : Nat) : List (UInt32 × Bytes) → Nat → List Op
  | [], len => if len < max size len then [.alloc (max size len) allowed] else []
  | (idx, bytes) :: rest, len =>
    if bytes.length = 0 then blockOps allowed size rest len
    else if bytes.length > 4096 then []
    else
      let start := idx.toNat * 4096
      let stop := start + bytes.length
      [.mul 64 idx.toNat 4096, .add 64 start bytes.length] ++
        (if len < stop then [.alloc stop allowed] else []) ++
        [.slice (max len stop) start stop, .copy (stop - start) bytes.length] ++
        blockOps allowed size rest (max len stop)

/-- What a migration may take: what it carries, what is stored and the limit. -/
def migrationRoom (blocks : List (UInt32 × Bytes)) (info : InodeInfo) : Nat :=
  (blocks.map fun b => b.2.length).sum + (buffer info).length + inlineHardLimit

def beginOps (inode : UInt64) (targetMode : UInt8) (allocs : List (UInt64 × UInt64))
    (initiatorSize : UInt64) (blocks : List (UInt32 × Bytes)) (info : InodeInfo) : List Op :=
  match checkMigration inode targetMode allocs with
  | .error _ => []
  | .ok () =>
    if info.migration ≠ none ∨ info.storageMode.isVolumeBacked ∨ info.chunks ≠ [] then []
    else blockOps (migrationRoom blocks info) (max info.size.toNat initiatorSize.toNat) blocks
      (buffer info).length

/-- The operations of a command that can fail. Everything else saturates, wraps around by
intent, or only shrinks. -/
def operations (s : json.Store) : ShardCommand → List Op
  | .createFile .. | .putObject .. => createOps s.stats .file
  | .createSymlink .. => createOps s.stats .symlink
  | .createInode info => createOps s.stats info.fileType
  | .createDirectory _ _ inode => if inode ∈ s.inodes then [] else createOps s.stats .directory
  | .formatPosixRoot .. =>
    if (s.db.formatMarker.bind json.marker.fromSlice).isSome ∨ 1 ∈ s.inodes then []
    else createOps s.stats .directory
  | .createFileAtomic info _ =>
    if s.containsInode info.inode = false ∨
        (s.getDirEntryInode info.parentInode info.name).isSome then []
    else createOps s.stats info.fileType
  | .updateFile inode .. => match s.getInode inode with
    | none => []
    | some info => [.add 64 info.version.toNat 1]
  | .deleteFile parentInode name => deleteFileOps s parentInode name
  | .deleteDirectory parentInode name => deleteDirectoryOps s parentInode name
  | .createHardLink inode .. => match s.getInode inode with
    | none => []
    | some info => [.add 32 info.nlink.toNat 1]
  | .decrementNlink inode => match s.getInode inode with
    | none => []
    | some info => if info.nlink > 0 then [.sub info.nlink.toNat 1] else []
  | .updateInodeSizeChunks inode ⟨size, _, inlineData, isAppend, mask⟩ =>
    match s.getInode inode with
    | none => []
    | some info => syncOps size inlineData isAppend mask info
  | .beginMigration inode ⟨_, targetMode, allocs, _, initiatorSize, blocks⟩ =>
    match s.getInode inode with
    | none => []
    | some info => beginOps inode targetMode allocs initiatorSize blocks info
  | _ => []

/-- No operation of the command fails. -/
def Safe (s : json.Store) (cmd : ShardCommand) : Prop :=
  ∀ op ∈ operations s cmd, op.Succeeds

instance (s : json.Store) (cmd : ShardCommand) : Decidable (Safe s cmd) :=
  inferInstanceAs (Decidable (∀ op ∈ operations s cmd, op.Succeeds))

/-! ## The condition -/

/-- The command deletes no entry without a record, counts up nothing that is at its end,
and sends or finds no size beyond the data that it carries and that is stored. -/
def Careful (s : json.Store) : ShardCommand → Prop
  | .deleteFile parentInode name => ∀ inode, s.getDirEntryInode parentInode name = some inode →
      inode ≠ 0 → s.getInode inode ≠ none
  | .updateFile inode .. => ∀ info, s.getInode inode = some info → info.version.toNat + 1 < 2 ^ 64
  | .createHardLink inode .. => ∀ info, s.getInode inode = some info →
      info.nlink.toNat + 1 < 2 ^ 32
  | .updateInodeSizeChunks inode ⟨size, _, some client, false, some _⟩ =>
      ∀ info, s.getInode inode = some info → info.migration = none → info.chunks = [] →
        info.storageMode.isVolumeBacked = false →
        max info.size.toNat size.toNat ≤
          client.length + (buffer info).length + inlineHardLimit
  | .beginMigration inode ⟨_, _, _, _, initiatorSize, blocks⟩ =>
      ∀ info, s.getInode inode = some info → info.migration = none → info.chunks = [] →
        info.storageMode.isVolumeBacked = false →
        max info.size.toNat initiatorSize.toNat ≤ migrationRoom blocks info ∧
          ∀ b ∈ blocks, b.1.toNat * 4096 + b.2.length ≤ migrationRoom blocks info
  | _ => True

instance (s : json.Store) (cmd : ShardCommand) : Decidable (Careful s cmd) := by
  unfold Careful
  split
  case h_6 => exact instDecidableTrue
  all_goals exact Option.decidableForallMem _

/-! ## Buffers -/

variable {allowed : Nat} {blocks : List (UInt32 × Bytes)} {info : InodeInfo}

theorem mergeOps_succeed {existing : Option Bytes} {existingSize : UInt64} {client : Bytes}
    {clientSize : UInt64} {mask : UInt32}
    (hdata : max (existing.getD []).length client.length ≤ allowed)
    (hsize : max existingSize.toNat clientSize.toNat ≤ allowed) :
    ∀ op ∈ mergeOps allowed existing existingSize client clientSize mask, op.Succeeds := by
  unfold mergeOps
  dsimp only
  generalize hlen : max (max (max (existing.getD []).length client.length) existingSize.toNat)
    clientSize.toNat = mergedLen
  rw [forall_mem_append, forall_mem_cons, forall_mem_singleton]
  refine ⟨⟨?_, Nat.zero_le _, by omega⟩, fun op hop => ?_⟩
  · show mergedLen ≤ allowed
    omega
  · obtain ⟨bit, -, hop⟩ := mem_flatMap.mp hop
    split at hop
    case isFalse => cases hop
    case isTrue hin =>
      obtain ⟨-, -, hstart⟩ := hin
      have hcend := Nat.min_le_right (min (bit * 4096 + 4096) mergedLen) client.length
      have hmerged := (Nat.min_le_left (min (bit * 4096 + 4096) mergedLen) client.length).trans
        (Nat.min_le_right _ _)
      rcases mem_cons.mp hop with rfl | hop
      · exact ⟨hstart.le, hmerged⟩
      · obtain rfl := mem_singleton.mp hop
        exact ⟨hstart.le, hcend⟩

/-- The slices of a migration fit in a buffer that has grown to the end of the block. -/
theorem blockOps_succeed {size : Nat} {len : Nat} (hsize : size ≤ allowed)
    (hblocks : ∀ b ∈ blocks, b.1.toNat * 4096 + b.2.length ≤ allowed) :
    ∀ op ∈ blockOps allowed size blocks len, op.Succeeds := by
  fun_induction blockOps with
  | case1 len hgrows =>
    refine forall_mem_singleton.mpr ?_
    show max size len ≤ allowed
    omega
  | case2 | case4 => exact forall_mem_nil _
  | case3 idx bytes rest len hempty ih => exact ih fun b hb => hblocks b (mem_cons_of_mem _ hb)
  | case5 idx bytes rest len hempty hlong start stop ih =>
    have hend := hblocks (idx, bytes) mem_cons_self
    have hidx : idx.toNat < 2 ^ 32 := idx.toNat_lt
    simp only [forall_mem_append, forall_mem_cons]
    refine ⟨⟨⟨⟨?_, ?_, forall_mem_nil _⟩, ?_⟩, ?_, ?_, forall_mem_nil _⟩,
      ih fun b hb => hblocks b (mem_cons_of_mem _ hb)⟩
    · show idx.toNat * 4096 < 2 ^ 64
      omega
    · show idx.toNat * 4096 + bytes.length < 2 ^ 64
      omega
    · split
      case isFalse => exact forall_mem_nil _
      case isTrue => exact forall_mem_singleton.mpr hend
    · exact ⟨Nat.le_add_right _ _, Nat.le_max_right _ _⟩
    · exact Nat.add_sub_cancel_left _ _

theorem syncOps_succeed {size : UInt64} {data : Option Bytes} {isAppend : Bool}
    {mask : Option UInt32} (h : ∀ client m, isAppend = false → data = some client → mask = some m →
      info.migration = none → info.chunks = [] → info.storageMode.isVolumeBacked = false →
        max info.size.toNat size.toNat ≤
          client.length + (buffer info).length + inlineHardLimit) :
    ∀ op ∈ syncOps size data isAppend mask info, op.Succeeds := by
  fun_cases syncOps with
  | case2 _ _ delta =>
    refine forall_mem_singleton.mpr ?_
    show (buffer info).length + delta.length ≤ _
    omega
  | case4 hwindow client hbacked m =>
    obtain ⟨hchunks, hmode⟩ := not_or.mp hbacked
    have hroom := h client m rfl rfl rfl (not_not.mp hwindow) (not_not.mp hchunks)
      (Bool.eq_false_iff.mpr hmode)
    refine mergeOps_succeed ?_ hroom
    show max (buffer info).length client.length ≤ _
    omega
  | _ => exact forall_mem_nil _

theorem beginOps_succeed {inode : UInt64} {targetMode : UInt8} {allocs : List (UInt64 × UInt64)}
    {initiatorSize : UInt64}
    (h : info.migration = none → info.chunks = [] → info.storageMode.isVolumeBacked = false →
      max info.size.toNat initiatorSize.toNat ≤ migrationRoom blocks info ∧
        ∀ b ∈ blocks, b.1.toNat * 4096 + b.2.length ≤ migrationRoom blocks info) :
    ∀ op ∈ beginOps inode targetMode allocs initiatorSize blocks info, op.Succeeds := by
  fun_cases beginOps with
  | case1 | case2 => exact forall_mem_nil _
  | case3 _ hidle =>
    obtain ⟨hwindow, hrest⟩ := not_or.mp hidle
    obtain ⟨hmode, hchunks⟩ := not_or.mp hrest
    obtain ⟨hsize, hblocks⟩ := h (not_not.mp hwindow) (not_not.mp hchunks)
      (Bool.eq_false_iff.mpr hmode)
    exact blockOps_succeed hsize hblocks

/-! ## Counters -/

variable {t : json.Store} {n : Nat} {kind : FileType → Bool} {cmd : ShardCommand}
  {i : UInt64}

/-- Records of the same type stay, or go. -/
def Shrinks (s t : json.Store) : Prop :=
  ∀ i info', t.getInode i = some info' →
    ∃ info, s.getInode i = some info ∧ info.fileType = info'.fileType

theorem shrinks_of_types
    (h : ∀ i type, typeAt t i = some type → typeAt s i = some type) : Shrinks s t := by
  intro i info' hinfo'
  exact Option.map_eq_some_iff.mp (h i info'.fileType (Option.map_eq_some_iff.mpr ⟨_, hinfo', rfl⟩))

theorem Shrinks.records (h : Shrinks s t) : Counters.records t kind ⊆ Counters.records s kind := by
  intro i hi
  rw [mem_records, Option.any_eq_true] at hi ⊢
  obtain ⟨type, htype, hkind⟩ := hi
  obtain ⟨info', hinfo', rfl⟩ := Option.map_eq_some_iff.mp htype
  exact ⟨_, Option.map_eq_some_iff.mpr (h i info' hinfo'), hkind⟩

/-- A counter is not below the number of records of its kind, and not above the number of
commands so far. -/
def Covers (s : json.Store) (n : Nat) (kind : FileType → Bool) (counter : UInt64) : Prop :=
  (records s kind).card ≤ counter.toNat ∧ counter.toNat ≤ n

structure Counted (n : Nat) (s : json.Store) : Prop where
  numbered : Numbered s
  inodes : Covers s n (fun _ => true) s.stats.inodeCount
  files : Covers s n (· = .file) s.stats.fileCount
  dirs : Covers s n (· = .directory) s.stats.dirCount

theorem counted_fresh (range : UInt64 × UInt64) : Counted 0 (freshStore json range) := by
  have hcovers : ∀ kind, Covers (freshStore json range) 0 kind 0 := by
    intro kind
    unfold Covers
    rw [records_fresh]
    exact ⟨Nat.le_refl 0, Nat.le_refl 0⟩
  exact ⟨numbered_fresh range, hcovers _, hcovers _, hcovers _⟩

section Covers

variable {counter counter' : UInt64} {type : FileType} (h : Covers s n kind counter)
include h

/-- A record that is there has been counted. -/
theorem Covers.positive (hin : typeAt s i = some type) (hkind : kind type = true) :
    1 ≤ counter.toNat := by
  have hmem : i ∈ records s kind := by rwa [mem_records, hin, Option.any_some]
  exact (Finset.card_pos.mpr ⟨i, hmem⟩).trans_le h.1

theorem Covers.keep (hsub : records t kind ⊆ records s kind) : Covers t (n + 1) kind counter :=
  ⟨(Finset.card_le_card hsub).trans h.1, Nat.le_succ_of_le h.2⟩

theorem Covers.created (hn : n + 1 < 2 ^ 64) (hsets : Sets s t i (some type)) :
    Covers t (n + 1) kind (if kind type then counter + 1 else counter) := by
  have hrecords : records t kind =
      if kind type then insert i (records s kind) else (records s kind).erase i := hsets.records
  split at hrecords
  case isFalse hkind =>
    rw [if_neg hkind]
    exact h.keep (hrecords ▸ Finset.erase_subset _ _)
  case isTrue hkind =>
    have hcounter : (counter + 1).toNat = counter.toNat + 1 := by
      rw [UInt64.toNat_add]
      exact Nat.mod_eq_of_lt (by have := h.2; show counter.toNat + 1 < 2 ^ 64; omega)
    rw [if_pos hkind]
    unfold Covers
    rw [hcounter, hrecords]
    exact ⟨(Finset.card_insert_le _ _).trans (Nat.succ_le_succ h.1), Nat.succ_le_succ h.2⟩

theorem Covers.removed (hin : typeAt s i = some type) (hsets : Sets s t i none)
    (hcounter : counter' = counter ∨ kind type = true ∧ counter' = counter - 1) :
    Covers t (n + 1) kind counter' := by
  have hrecords : records t kind = (records s kind).erase i := hsets.records
  rcases hcounter with rfl | ⟨hkind, rfl⟩
  · exact h.keep (hrecords ▸ Finset.erase_subset _ _)
  · have hmem : i ∈ records s kind := by rwa [mem_records, hin, Option.any_some]
    have hpos := h.positive hin hkind
    have hless : (counter - 1).toNat = counter.toNat - 1 :=
      UInt64.toNat_sub_of_le _ _ (UInt64.le_iff_toNat_le.mpr hpos)
    unfold Covers
    rw [hless, hrecords, Finset.card_erase_of_mem hmem]
    have hcovered := h.1
    have hbound := h.2
    omega

end Covers

section Counted

variable (h : Counted n s)
include h

theorem Counted.keep (hnum : Numbered t) (hshrinks : Shrinks s t) (hstats : t.stats = s.stats) :
    Counted (n + 1) t where
  numbered := hnum
  inodes := hstats ▸ h.inodes.keep hshrinks.records
  files := hstats ▸ h.files.keep hshrinks.records
  dirs := hstats ▸ h.dirs.keep hshrinks.records

/-- **A careful command keeps the counters above the records.** -/
theorem Counted.change (hn : n + 1 < 2 ^ 64) (hnum : Numbered t) (hcareful : Careful s cmd)
    (hchange : Change s cmd t) : Counted (n + 1) t := by
  cases hchange with
  | keep htypes hstats =>
    exact h.keep hnum (shrinks_of_types fun i type => (htypes i).symm.trans) hstats
  | create made type hfree hsets hstats =>
    refine ⟨hnum, ?_, ?_, ?_⟩ <;> rw [hstats]
    · exact h.inodes.created hn hsets
    · simpa [countCreated, setStats, saveStats] using h.files.created hn hsets
    · simpa [countCreated, setStats, saveStats] using h.dirs.created hn hsets
  | remove gone type hin hsets hinodes hfiles hdirs =>
    have hpos := h.inodes.positive hin rfl
    refine ⟨hnum, h.inodes.removed hin hsets (.inr ⟨rfl, hinodes ?_⟩), ?_, ?_⟩
    · intro hzero
      rw [hzero] at hpos
      cases hpos
    · exact h.files.removed hin hsets
        (hfiles.1.imp_right fun hless => ⟨decide_eq_true hless.1, hless.2⟩)
    · exact h.dirs.removed hin hsets
        (hdirs.1.imp_right fun hless => ⟨decide_eq_true hless.1, hless.2⟩)
  | lose huntidy hsets hstats =>
    refine h.keep hnum (shrinks_of_types fun i type htype => ?_) hstats
    rw [hsets] at htype
    split at htype
    · cases htype
    · exact htype
  | stray p m inode hcmd hentry hne hnone =>
    subst hcmd
    exact absurd hnone (hcareful inode hentry hne)

/-! ## Operations of careful commands -/

theorem Counted.createOps_succeed (hn : n + 1 < 2 ^ 64) (fileType : FileType) :
    ∀ op ∈ createOps s.stats fileType, op.Succeeds := by
  have hinodes := h.inodes.2
  have hfiles := h.files.2
  have hdirs := h.dirs.2
  intro op hop
  rcases mem_cons.mp hop with rfl | hop
  · show s.stats.inodeCount.toNat + 1 < 2 ^ 64
    omega
  cases fileType with
  | file =>
    obtain rfl := mem_singleton.mp hop
    show s.stats.fileCount.toNat + 1 < 2 ^ 64
    omega
  | directory =>
    obtain rfl := mem_singleton.mp hop
    show s.stats.dirCount.toNat + 1 < 2 ^ 64
    omega
  | symlink => cases hop

/-- The counters of a record that goes are not at zero. -/
theorem Counted.removeOps_succeed (hinfo : s.getInode i = some info) {t : FileType}
    {counter : UInt64} (ht : Covers s n (· = t) counter) :
    ∀ op ∈ Op.sub s.stats.inodeCount.toNat 1 ::
      if info.fileType = t then [.sub counter.toNat 1] else [], op.Succeeds := by
  refine forall_mem_cons.mpr ⟨h.inodes.positive (typeAt_some hinfo) rfl, ?_⟩
  split
  case isTrue htype =>
    exact forall_mem_singleton.mpr (ht.positive (typeAt_some hinfo) (decide_eq_true htype))
  case isFalse => exact forall_mem_nil _

theorem Counted.deleteFileOps_succeed {p : UInt64} {m : Text}
    (hcareful : Careful s (.deleteFile p m)) : ∀ op ∈ deleteFileOps s p m, op.Succeeds := by
  fun_cases deleteFileOps with
  | case1 | case3 | case5 => exact forall_mem_nil _
  | case2 inode hentry info hinfo hlinked =>
    exact forall_mem_singleton.mpr (Nat.le_of_lt (UInt32.lt_iff_toNat_lt.mp hlinked))
  | case4 inode hentry info hinfo => exact h.removeOps_succeed hinfo h.files
  | case6 inode hentry hnone hne => exact absurd hnone (hcareful inode hentry hne)

theorem Counted.deleteDirectoryOps_succeed (p : UInt64) (m : Text) :
    ∀ op ∈ deleteDirectoryOps s p m, op.Succeeds := by
  fun_cases deleteDirectoryOps with
  | case1 | case2 | case3 => exact forall_mem_nil _
  | case4 inode hentry hlive info hinfo => exact h.removeOps_succeed hinfo h.dirs

/-- **A careful command is safe.** -/
theorem Counted.safe (hn : n + 1 < 2 ^ 64) (hcareful : Careful s cmd) : Safe s cmd := by
  unfold Safe
  fun_cases operations with
  | case1 | case2 | case3 | case4 | case6 | case8 | case10 => exact h.createOps_succeed hn _
  | case12 i _ _ info hinfo | case16 i _ _ info hinfo =>
    exact forall_mem_singleton.mpr (hcareful info hinfo)
  | case13 p m => exact h.deleteFileOps_succeed hcareful
  | case14 p m => exact h.deleteDirectoryOps_succeed p m
  | case18 i info hinfo hpos => exact forall_mem_singleton.mpr (UInt32.lt_iff_toNat_lt.mp hpos)
  | case21 i size _ data isAppend mask info hinfo =>
    refine syncOps_succeed ?_
    rintro client m rfl rfl rfl
    exact hcareful info hinfo
  | case23 i _ _ _ _ _ _ info hinfo => exact beginOps_succeed (hcareful info hinfo)
  | _ => exact forall_mem_nil _

end Counted

/-! ## Runs -/

theorem Counted.run (log : List (UInt64 × ShardCommand)) (h : Counted n s)
    (hn : n + log.length < 2 ^ 64)
    (hcareful : Along step (fun s e => Careful s e.2) s log) :
    Along step (fun s e => Safe s e.2) s log := by
  induction log generalizing n s with
  | nil => trivial
  | cons e log ih =>
    rw [length_cons] at hn
    have hnext : Counted (n + 1) (applyCommand e.1 s e.2) := h.change (by omega)
      (applyCommand_numbered h.numbered e.1 e.2) hcareful.1 (Counters.change h.numbered e.2)
    exact ⟨h.safe (by omega) hcareful.1, ih hnext (by omega) hcareful.2⟩

/-- **No command of a careful run fails.** -/
theorem careful_runs_safe (range : UInt64 × UInt64) (log : List (UInt64 × ShardCommand))
    (hlen : log.length < 2 ^ 64)
    (hcareful : Along step (fun s e => Careful s e.2) (freshStore json range) log) :
    Along step (fun s e => Safe s e.2) (freshStore json range) log :=
  (counted_fresh range).run log (by omega) hcareful

/-- A file is made, linked, updated, filled by a masked commit, migrated and deleted. -/
def carefulLog : List (UInt64 × ShardCommand) :=
  [(1, .createFile 1 ['a'] 2), (2, .createHardLink 2 1 ['b']), (3, .updateFile 2 0 3),
    (4, .updateInodeSizeChunks 2 ⟨1, [], some [7], false, some 1⟩),
    (5, .beginMigration 2 ⟨7, 1, [(3, 4)], 0, 1, []⟩), (6, .deleteFile 1 ['a'])]

theorem carefulLog_safe : Along step (fun s e => Safe s e.2) plainStore carefulLog :=
  careful_runs_safe (0, 100) carefulLog (by decide) (by decide +kernel)

/-- A size of 2^60 makes a buffer of 2^60 bytes for a commit of one byte, and for a
migration without any; an entry without a record takes the counter below zero. -/
theorem commands_that_fail :
    let created := applyLog plainStore [(1, .createFile 1 ['a'] 2)]
    let orphan := applyLog plainStore [(1, .addDirEntry 1 ['a'] 2)]
    ¬ Safe created (.updateInodeSizeChunks 2 ⟨2 ^ 60, [], some [7], false, some 1⟩) ∧
      ¬ Safe created (.beginMigration 2 ⟨7, 1, [(3, 4)], 0, 2 ^ 60, []⟩) ∧
      ¬ Safe orphan (.deleteFile 1 ['a']) := by
  decide +kernel

end PowerFS.Filer.Faults
