import PowerFS.Lib.Positions
import PowerFS.Filer.RecordSteps

/-! # Commits of inline data

`UpdateInodeSizeChunks` with inline data: what it leaves of a file whose data is on a
volume, and where an append puts its bytes. An overwrite of data on a volume is rejected,
but the mode is computed anew from the fields all the same, and an append is not rejected
at all. An append goes to the end of the buffer, which is the end of the file only while
`size` is the length of the buffer; `SetAttr` changes one without the other. -/
namespace PowerFS.Filer.InlineCommits
open Lib.ByteString Lib.Positions InodeRecords MetadataShard ShardFacts RecordSteps List

variable {json : Json} {now : UInt64} {info : InodeInfo}

/-! ## A commit to a record -/

/-- The record after a commit; one that is rejected leaves it. -/
def sync (u : Update) : InodeInfo → InodeInfo :=
  attempt fun info => (updateInodeSizeChunks u info).map some

/-- What the commit stores when no migration is going on, before it looks at the state of
replicas and compression. -/
def stored (u : Update) (info : InodeInfo) : InodeInfo :=
  let info := syncData u info
  backfillFid { info with storageMode := modeOfData info }

section Commit

variable (u : Update)

theorem sync_in_window {window : MigrationState} (h : info.migration = some window) :
    sync u info = info := by
  dsimp only [sync, attempt, updateInodeSizeChunks]
  rw [h]
  rfl

theorem sync_outside (h : info.migration = none) :
    sync u info =
      if chunksChanged info u.chunks then
        resetDerived (stored u info)
      else stored u info := by
  dsimp only [sync, attempt, updateInodeSizeChunks]
  rw [h]
  rfl

/-- The fields that hold the data of a file. -/
structure SameData (a b : InodeInfo) : Prop where
  chunks : b.chunks = a.chunks
  inlineData : b.inlineData = a.inlineData
  size : b.size = a.size
  storageMode : b.storageMode = a.storageMode

theorem sameData_resetDerived (info : InodeInfo) : SameData info (resetDerived info) := by
  unfold resetDerived
  split <;> exact ⟨rfl, rfl, rfl, rfl⟩

theorem sameData_backfillFid (info : InodeInfo) : SameData info (backfillFid info) := by
  unfold backfillFid
  split <;> exact ⟨rfl, rfl, rfl, rfl⟩

theorem SameData.trans {a b c : InodeInfo} (hab : SameData a b) (hbc : SameData b c) :
    SameData a c where
  chunks := hbc.chunks.trans hab.chunks
  inlineData := hbc.inlineData.trans hab.inlineData
  size := hbc.size.trans hab.size
  storageMode := hbc.storageMode.trans hab.storageMode

/-- The data after a commit, under the mode that fits it. -/
theorem sync_data (h : info.migration = none) :
    SameData { syncData u info with
        storageMode := modeOfData (syncData u info) }
      (sync u info) := by
  rw [sync_outside _ h]
  have hstored := sameData_backfillFid { syncData u info with
    storageMode := modeOfData (syncData u info) }
  split
  · exact hstored.trans (sameData_resetDerived _)
  · exact hstored

/-- The record of an inode after a commit to it. -/
theorem getInode_sync {s : json.Store} (h : Numbered s) {i : UInt64}
    (hinfo : s.getInode i = some info) :
    (applyCommand now s (.updateInodeSizeChunks i u)).getInode i = some (sync u info) := by
  have htarget : target (.updateInodeSizeChunks i u) = some i := rfl
  rw [getInode_record h htarget, if_pos rfl, hinfo]
  rfl

end Commit

/-- An inline overwrite of data on a volume. -/
def Dropped (info : InodeInfo) (data : Option Bytes) (isAppend : Bool) : Prop :=
  isAppend = false ∧ data.isSome = true ∧
    (info.chunks ≠ [] ∨ info.storageMode.isVolumeBacked = true)

theorem syncData_dropped {u : Update} (h : Dropped info u.inlineData u.isAppend) :
    syncData u info = info := by
  obtain ⟨size, chunks, data, isAppend, mask⟩ := u
  obtain ⟨rfl, hdata, hbacked⟩ := h
  obtain ⟨client, rfl⟩ := Option.isSome_iff_exists.mp hdata
  exact if_pos hbacked

/-! ## Data on a volume -/

def OneVolume (chunks : List StoredFileChunk) : Prop :=
  ∀ c ∈ chunks, ∀ d ∈ chunks, c.volumeId = d.volumeId

/-- Flat with its chunks on one volume, or striped over several; nothing is inline. -/
def PlainLayout (info : InodeInfo) : Prop :=
  info.inlineData = none ∧
    (info.storageMode = .flat ∧ OneVolume info.chunks ∨
      info.storageMode = .stripe ∧ ¬ OneVolume info.chunks)

theorem oneVolume_cons (first : StoredFileChunk) (rest : List StoredFileChunk) :
    OneVolume (first :: rest) ↔ rest.any (fun c => c.volumeId ≠ first.volumeId) = false := by
  simp only [any_eq_false, decide_eq_true_eq, not_not]
  constructor
  · intro h c hc
    exact h c (mem_cons_of_mem _ hc) first mem_cons_self
  · intro h
    have hfirst : ∀ c ∈ first :: rest, c.volumeId = first.volumeId :=
      forall_mem_cons.mpr ⟨rfl, h⟩
    intro c hc d hd
    rw [hfirst c hc, hfirst d hd]

/-- A record on a volume has the mode of its data when its layout is a plain one. -/
theorem modeOfData_eq_iff (hbacked : info.storageMode.isVolumeBacked = true)
    (hchunks : info.chunks ≠ []) : modeOfData info = info.storageMode ↔ PlainLayout info := by
  unfold modeOfData PlainLayout
  cases hdata : info.inlineData with
  | some data =>
    rw [Option.isSome_some, if_pos rfl]
    constructor
    · intro hmode
      rw [← hmode] at hbacked
      cases hbacked
    · rintro ⟨hnone, -⟩
      cases hnone
  | none =>
    rw [Option.isSome_none, if_neg Bool.false_ne_true]
    cases hlist : info.chunks with
    | nil => exact absurd hlist hchunks
    | cons first rest =>
      dsimp only
      rw [oneVolume_cons]
      cases rest.any (fun c => c.volumeId ≠ first.volumeId) <;> cases info.storageMode <;> simp

/-- **When an inline commit leaves data on a volume alone.** In a migration window it is
refused, and an overwrite is dropped where the mode is the one that the fields give. -/
theorem inline_commit_keeps_volume_data_iff (range : UInt64 × UInt64)
    (log : List (UInt64 × ShardCommand)) (now i size : UInt64) (chunks : List StoredFileChunk)
    (client : Bytes) (isAppend : Bool) (mask : Option UInt32) (info : InodeInfo)
    (hinfo : (applyLog (freshStore json range) log).getInode i = some info)
    (hbacked : info.storageMode.isVolumeBacked = true) (hchunks : info.chunks ≠ []) :
    (∃ info', (applyCommand now (applyLog (freshStore json range) log)
        (.updateInodeSizeChunks i ⟨size, chunks, some client, isAppend, mask⟩)).getInode i =
          some info' ∧ SameData info info') ↔
      info.migration ≠ none ∨ isAppend = false ∧ PlainLayout info := by
  rw [getInode_sync _ (applyLog_numbered (numbered_fresh range) log) hinfo]
  simp only [Option.some.injEq, exists_eq_left']
  cases hmigration : info.migration with
  | some window =>
    rw [sync_in_window _ hmigration]
    exact ⟨fun _ => Or.inl (Option.some_ne_none window), fun _ => ⟨rfl, rfl, rfl, rfl⟩⟩
  | none =>
    have hdata := sync_data ⟨size, chunks, some client, isAppend, mask⟩ hmigration
    simp only [ne_eq, not_true_eq_false, false_or]
    cases isAppend with
    | true =>
      -- the appended buffer is inline data, so the mode is no longer that of a volume
      constructor
      · intro hsame
        have hmode : StorageMode.inline = info.storageMode :=
          hdata.storageMode.symm.trans hsame.storageMode
        rw [← hmode] at hbacked
        cases hbacked
      · rintro ⟨hfalse, -⟩
        cases hfalse
    | false =>
      rw [syncData_dropped ⟨rfl, rfl, Or.inl hchunks⟩] at hdata
      rw [← modeOfData_eq_iff hbacked hchunks]
      constructor
      · intro hsame
        exact ⟨rfl, hdata.storageMode.symm.trans hsame.storageMode⟩
      · rintro ⟨-, hmode⟩
        exact ⟨hdata.chunks, hdata.inlineData, hdata.size, hdata.storageMode.trans hmode⟩

/-- A file that has gone to a volume, as one chunk. -/
def migratedLog : List (UInt64 × ShardCommand) :=
  [(1, .createFile 1 ['f'] 2), (2, .beginMigration 2 ⟨7, 1, [(3, 4)], 0, 2, [(0, [10, 11])]⟩),
    (3, .commitMigration 2 7)]

def migratedInode : InodeInfo :=
  { fileInode 1 2 1 ['f'] with
    size := 2
    blocks := 1
    fid := some ['3', ',', '0', ',', '4']
    volumeId := some 3
    chunks := [⟨0, 2, 4, 3, 0, 3, false, .none⟩]
    version := 2
    storageMode := .flat }

theorem migratedLog_getInode :
    (applyLog plainStore migratedLog).getInode 2 =
      some migratedInode := by
  decide +kernel

theorem stale_overwrite_dropped :
    ∃ info', (applyCommand 4 (applyLog plainStore
        migratedLog) (.updateInodeSizeChunks 2 ⟨1, [], some [9], false, none⟩)).getInode 2 =
          some info' ∧ SameData migratedInode info' :=
  (inline_commit_keeps_volume_data_iff (0, 100) migratedLog 4 2 1 [] [9] false none migratedInode
    migratedLog_getInode rfl (cons_ne_nil _ _)).mpr
    (Or.inr ⟨rfl, rfl, Or.inl ⟨rfl, (oneVolume_cons _ _).mpr rfl⟩⟩)

/-- An append from a client that still holds the inline layout drops the chunk, and an
overwrite of a file under erasure coding turns its mode to flat. -/
theorem append_drops_chunks_overwrite_drops_ec :
    ((applyCommand 4 (applyLog plainStore migratedLog)
        (.updateInodeSizeChunks 2 ⟨0, [], some [9], true, none⟩)).getInode 2).map
          (fun info => (info.chunks, info.inlineData, info.size, info.storageMode)) =
        some ([], some [9], 1, .inline) ∧
      ((applyLog plainStore (migratedLog ++
        [(4, .updateToEC 2 (.ec 1 1) .ec [⟨0, 2, 5, 6, 0, 4, false, .none⟩]),
          (5, .updateInodeSizeChunks 2 ⟨1, [], some [9], false, none⟩)])).getInode 2).map
          (fun info => info.storageMode) = some .flat := by
  decide +kernel

/-! ## Appends -/

/-- The inline buffer. -/
def buffer (info : InodeInfo) : Bytes := info.inlineData.getD []

/-- What a reader of an inline file gets. -/
def content (info : InodeInfo) : Bytes := fit info.size.toNat (buffer info)

/-- The size is the length of the buffer. -/
def Aligned (info : InodeInfo) : Prop := info.size.toNat = (buffer info).length

theorem content_of_aligned (h : Aligned info) : content info = buffer info := by
  rw [content, h, fit_self]

/-- A commit that appends, as a client sends it. -/
structure Append where
  now : UInt64
  size : UInt64
  chunks : List StoredFileChunk
  delta : Bytes
  mask : Option UInt32

def Append.update (a : Append) : Update := ⟨a.size, a.chunks, some a.delta, true, a.mask⟩

def Append.entry (i : UInt64) (a : Append) : UInt64 × ShardCommand :=
  (a.now, .updateInodeSizeChunks i a.update)

def Append.effect (a : Append) : InodeInfo → InodeInfo := sync a.update

section

variable (a : Append) (h : info.migration = none)
include h

theorem Append.effect_buffer : buffer (a.effect info) = buffer info ++ a.delta := by
  have hdata := (sync_data a.update h).inlineData
  unfold buffer Append.effect
  rw [hdata]
  rfl

section

variable (hlen : (buffer info).length + a.delta.length < 2 ^ 64)
include hlen

theorem Append.effect_size :
    (a.effect info).size.toNat = (buffer info).length + a.delta.length := by
  have hdata := (sync_data a.update h).size
  have hsize : (a.effect info).size = UInt64.ofNat (buffer info ++ a.delta).length := hdata
  rw [hsize, length_append, UInt64.toNat_ofNat_of_lt' hlen]

theorem Append.effect_aligned : Aligned (a.effect info) := by
  unfold Aligned
  rw [a.effect_size h hlen, a.effect_buffer h, length_append]

omit hlen in
theorem Append.effect_migration : (a.effect info).migration = none := by
  have hstored : (stored a.update info).migration = none := by
    unfold stored backfillFid
    dsimp only
    split <;> exact h
  unfold Append.effect
  rw [sync_outside _ h]
  split
  · unfold resetDerived
    split <;> exact hstored
  · exact hstored

/-- Where the bytes of one append go. -/
theorem Append.effect_content_iff :
    content (a.effect info) = content info ++ a.delta ↔ Aligned info := by
  rw [content_of_aligned (a.effect_aligned h hlen), a.effect_buffer h, append_left_inj, eq_comm]
  exact fit_eq_iff ..

end

end

/-- The bytes that a list of appends brings. -/
def deltas (appends : List Append) : Bytes := appends.flatMap Append.delta

theorem getInode_appends {i : UInt64} (appends : List Append) {s : json.Store}
    (hs : Numbered s) (hinfo : s.getInode i = some info) :
    (applyLog s (appends.map (Append.entry i))).getInode i =
      some (appends.foldl (fun info a => a.effect info) info) := by
  induction appends generalizing s info with
  | nil => exact hinfo
  | cons a appends ih =>
    exact ih (applyCommand_numbered hs _ _) (getInode_sync _ hs hinfo)

theorem appends_content (appends : List Append) (h : info.migration = none)
    (haligned : Aligned info) (hlen : (buffer info).length + (deltas appends).length < 2 ^ 64) :
    content (appends.foldl (fun info a => a.effect info) info) = content info ++ deltas appends ∧
      info.size ≤ (appends.foldl (fun info a => a.effect info) info).size := by
  induction appends generalizing info with
  | nil => exact ⟨(append_nil _).symm, UInt64.le_refl _⟩
  | cons a appends ih =>
    have hsplit : deltas (a :: appends) = a.delta ++ deltas appends := flatMap_cons
    rw [hsplit, length_append] at hlen
    have hone : (buffer info).length + a.delta.length < 2 ^ 64 := by omega
    have hrest : (buffer (a.effect info)).length + (deltas appends).length < 2 ^ 64 := by
      rw [a.effect_buffer h, length_append]
      omega
    obtain ⟨hcontent, hsize⟩ := ih (a.effect_migration h) (a.effect_aligned h hone) hrest
    have hgrown : info.size ≤ (a.effect info).size := by
      rw [UInt64.le_iff_toNat_le, a.effect_size h hone, haligned]
      omega
    rw [foldl_cons]
    refine ⟨?_, UInt64.le_trans hgrown hsize⟩
    rw [hcontent, (a.effect_content_iff h hone).mpr haligned, hsplit, append_assoc]

/-- **An append goes to the end of the file when the size is the length of the buffer**, and
from then on any appends of any clients come out one after another. Buffers are shorter
than `2 ^ 64`. -/
theorem inline_append_at_end_iff (range : UInt64 × UInt64) (log : List (UInt64 × ShardCommand))
    (i : UInt64) (info : InodeInfo) (first : Append) (others : List Append)
    (hinfo : (applyLog (freshStore json range) log).getInode i = some info)
    (hmigration : info.migration = none)
    (hlen : (buffer info).length + (deltas (first :: others)).length < 2 ^ 64) :
    (((applyLog (freshStore json range) (log ++ [first.entry i])).getInode i).map content =
        some (content info ++ first.delta) ↔ Aligned info) ∧
      (Aligned info → ∃ info', (applyLog (freshStore json range)
          (log ++ (first :: others).map (Append.entry i))).getInode i = some info' ∧
        content info' = content info ++ deltas (first :: others) ∧ info.size ≤ info'.size) := by
  have hnumbered : Numbered (applyLog (freshStore json range) log) :=
    applyLog_numbered (numbered_fresh range) log
  have hsplit : ∀ more, applyLog (freshStore json range) (log ++ more) =
      applyLog (applyLog (freshStore json range) log) more :=
    fun more => foldl_append
  constructor
  · have hone : (buffer info).length + first.delta.length < 2 ^ 64 := by
      have hdeltas : (deltas (first :: others)).length =
        first.delta.length + (deltas others).length := by
        rw [deltas, flatMap_cons, length_append]
        rfl
      omega
    have hget := getInode_appends [first] hnumbered hinfo
    rw [map_singleton] at hget
    rw [hsplit, hget, Option.map_some, Option.some.injEq]
    exact first.effect_content_iff hmigration hone
  · intro haligned
    rw [hsplit]
    exact ⟨_, getInode_appends (first :: others) hnumbered hinfo,
      appends_content (first :: others) hmigration haligned hlen⟩

def inlineLog : List (UInt64 × ShardCommand) :=
  [(1, .createFile 1 ['f'] 2), (2, .updateInodeSizeChunks 2 ⟨2, [], some [10, 11], false, none⟩)]

def inlineInode : InodeInfo :=
  { fileInode 1 2 1 ['f'] with
    size := 2, blocks := 1, inlineData := some [10, 11], storageMode := .inline }

theorem inlineLog_getInode :
    (applyLog plainStore inlineLog).getInode 2 =
      some inlineInode := by
  decide +kernel

theorem two_appends_in_order :
    ((applyLog plainStore (inlineLog ++
        [Append.entry 2 ⟨3, 0, [], [12], none⟩])).getInode 2).map content =
          some (content inlineInode ++ [12]) ∧
      ∃ info', (applyLog plainStore (inlineLog ++
          [⟨3, 0, [], [12], none⟩, ⟨4, 0, [], [13], none⟩].map (Append.entry 2))).getInode 2 =
            some info' ∧
        content info' = content inlineInode ++ [12, 13] ∧ inlineInode.size ≤ info'.size := by
  obtain ⟨hiff, hmore⟩ := inline_append_at_end_iff (0, 100) inlineLog 2 inlineInode
    ⟨3, 0, [], [12], none⟩ [⟨4, 0, [], [13], none⟩] inlineLog_getInode rfl (by decide)
  have haligned : Aligned inlineInode := rfl
  exact ⟨hiff.mpr haligned, hmore haligned⟩

/-- A file that was cut to nothing by `SetAttr` gets its old bytes back with the append. -/
theorem append_after_setAttr_brings_back :
    ((applyLog plainStore (inlineLog ++
        [(3, .setAttr 2 (some 0) none none none none none)])).getInode 2).map content = some [] ∧
      ((applyLog plainStore (inlineLog ++
        [(3, .setAttr 2 (some 0) none none none none none),
          Append.entry 2 ⟨4, 0, [], [12], none⟩])).getInode 2).map content =
        some [10, 11, 12] := by
  decide +kernel

end PowerFS.Filer.InlineCommits
