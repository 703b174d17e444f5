import PowerFS.Filer.InodeRecords

/-! # The projected size and chunks

Before it proposes a new size with its chunks, the leader writes them into its cache, in a
copy of what the store does when it applies the command. The copy computes the data and the
storage mode as the store does; it forgets the block count in two of its branches, the
location that the store takes from the first chunk, and the reset of everything that was
derived from the old chunks. -/
namespace PowerFS.Filer.Projection

open Lib.ByteString InodeRecords

/-- The new size and data of `project_update_size_chunks`. -/
def projectData (u : Update) (info : InodeInfo) : Except String InodeInfo :=
  let grown := max info.size u.size
  match u.isAppend, u.inlineData with
  | true, some delta =>
    let combined := info.inlineData.getD [] ++ delta
    let newSize := UInt64.ofNat combined.length
    .ok { info with
      inlineData := some combined, size := newSize, blocks := divCeil newSize 512,
      chunks := u.chunks }
  | true, none => .ok { info with size := grown, chunks := u.chunks }
  | false, some data =>
    if info.chunks ≠ [] ∨ info.storageMode.isVolumeBacked then
      let inode := info.inode
      let mode := info.storageMode.debug
      .error s!"stale_layout: inode {inode} has chunks/storage_mode={mode}, reject inline"
    else match u.inlineDirtyMask with
      | some mask =>
        let merged := mergeInlineDirtyBlocks info.inlineData info.size data u.size mask
        .ok { info with
          size := merged.2, blocks := divCeil merged.2 512, chunks := u.chunks,
          inlineData := some merged.1 }
      | none => .ok { info with size := u.size, chunks := u.chunks, inlineData := some data }
  | false, none =>
    .ok { info with
      size := grown, blocks := divCeil grown 512, chunks := u.chunks, inlineData := none }

/-- What `project_update_size_chunks` makes of a cached record. -/
def projectUpdateSizeChunks (u : Update) (info : InodeInfo) : Except String InodeInfo :=
  (projectData u info).map fun info => { info with storageMode := modeOfData info }

/-- The two records agree in their data, its location and what is derived from it. -/
structure Agree (a b : InodeInfo) : Prop where
  size : a.size = b.size
  blocks : a.blocks = b.blocks
  chunks : a.chunks = b.chunks
  inlineData : a.inlineData = b.inlineData
  storageMode : a.storageMode = b.storageMode
  fid : a.fid = b.fid
  volumeId : a.volumeId = b.volumeId
  reliability : a.reliability = b.reliability
  replicaChunks : a.replicaChunks = b.replicaChunks
  compression : (a.compressionState, a.compressionAlgo, a.compressionRatioX100,
      a.compressionOriginalSize, a.compressionOriginalChunkFp) =
    (b.compressionState, b.compressionAlgo, b.compressionRatioX100, b.compressionOriginalSize,
      b.compressionOriginalChunkFp)

/-- The cache mirrors the store: an accepted update is projected as it will be applied, and
one that is rejected would leave the record of the store alone. -/
def Mirrors (u : Update) (info : InodeInfo) : Prop :=
  match projectUpdateSizeChunks u info with
  | .ok projected => ∃ applied, updateInodeSizeChunks u info = .ok applied ∧ Agree projected applied
  | .error _ => updateInodeSizeChunks u info = .ok info

/-! ## When it does -/

/-- An inline buffer for a file whose data has gone to a volume. -/
def Stale (u : Update) (info : InodeInfo) : Prop :=
  u.isAppend = false ∧ u.inlineData ≠ none ∧ (info.chunks ≠ [] ∨ info.storageMode.isVolumeBacked)

/-- The block count is right already where the projection leaves it. -/
def BlocksKept (u : Update) (info : InodeInfo) : Prop :=
  (u.isAppend = true → u.inlineData = none → info.blocks = divCeil (max info.size u.size) 512) ∧
  (u.isAppend = false → u.inlineData ≠ none → u.inlineDirtyMask = none →
    info.blocks = divCeil u.size 512)

/-- The location fields name the first of the chunks. -/
def Located (info : InodeInfo) (chunks : List StoredFileChunk) : Prop :=
  ∀ first, chunks.head? = some first →
    info.fid = some (fidOf first.volumeId first.needleId) ∧ info.volumeId = some first.volumeId

/-- Nothing on record was compressed. -/
def Uncompressed (info : InodeInfo) : Prop :=
  (info.compressionState, info.compressionAlgo, info.compressionRatioX100,
    info.compressionOriginalSize, info.compressionOriginalChunkFp) = (.none, .none, 0, 0, none)

/-- The record has neither replicas nor shards to lose. -/
def Unprotected (info : InodeInfo) : Prop :=
  info.reliabilityState = .replicated ∨ info.reliabilityState = .ec →
    info.reliability = .singleReplica ∧ info.replicaChunks = []

/-- The condition on the record and the update. -/
def InStep (u : Update) (info : InodeInfo) : Prop :=
  (Stale u info ∧ info.storageMode = modeOfData info ∧ Located info info.chunks ∧
    (chunksChanged info u.chunks = true → Uncompressed info ∧
      info.reliabilityState ≠ .replicated ∧ info.reliabilityState ≠ .ec)) ∨
  (¬ Stale u info ∧ BlocksKept u info ∧ Located info u.chunks ∧
    (chunksChanged info u.chunks = true → Uncompressed info ∧ Unprotected info))

/-! ## The parts of an update -/

theorem backfillFid_location (info : InodeInfo) :
    (info.fid = (backfillFid info).fid ∧ info.volumeId = (backfillFid info).volumeId) ↔
      Located info info.chunks := by
  unfold backfillFid Located
  cases h : info.chunks <;> simp

/-- The fields that the location does not touch. -/
theorem backfillFid_eq (info : InodeInfo) : ∃ fid vid,
    backfillFid info = { info with fid := fid, volumeId := vid } := by
  unfold backfillFid
  split <;> exact ⟨_, _, rfl⟩

theorem resetDerived_eq (info : InodeInfo) : ∃ state,
    resetDerived info = { info with
      reliabilityState := state
      reliability := (resetDerived info).reliability
      replicaChunks := (resetDerived info).replicaChunks
      compressionState := .none
      compressionAlgo := .none
      compressionRatioX100 := 0
      compressionOriginalSize := 0
      compressionOriginalChunkFp := none } := by
  unfold resetDerived
  split <;> exact ⟨_, rfl⟩

theorem resetDerived_protection (info : InodeInfo) :
    (info.reliability = (resetDerived info).reliability ∧
      info.replicaChunks = (resetDerived info).replicaChunks) ↔ Unprotected info := by
  unfold resetDerived Unprotected
  cases info.reliabilityState <;> simp

/-- What is done to the data of a record agrees with the record itself exactly when there is
nothing to write. -/
theorem agree_iff (p : InodeInfo) (blocks : UInt64) (changed : Bool) :
    Agree p (if changed then resetDerived (backfillFid { p with blocks := blocks })
      else backfillFid { p with blocks := blocks }) ↔
      p.blocks = blocks ∧ Located p p.chunks ∧
        (changed = true → Uncompressed p ∧ Unprotected p) := by
  have hloc := backfillFid_location { p with blocks := blocks }
  obtain ⟨fid, vid, hb⟩ := backfillFid_eq { p with blocks := blocks }
  rw [hb] at hloc ⊢
  have hlocated : Located { p with blocks := blocks } p.chunks ↔ Located p p.chunks := Iff.rfl
  cases changed with
  | false =>
    simp only [Bool.false_eq_true, if_false, false_implies, and_true]
    constructor
    · intro h
      exact ⟨h.blocks, hlocated.mp (hloc.mp ⟨h.fid, h.volumeId⟩)⟩
    · rintro ⟨hblocks, hl⟩
      obtain ⟨hfid, hvid⟩ := hloc.mpr (hlocated.mpr hl)
      exact ⟨rfl, hblocks, rfl, rfl, rfl, hfid, hvid, rfl, rfl, rfl⟩
  | true =>
    have hprot := resetDerived_protection { p with blocks := blocks, fid := fid, volumeId := vid }
    obtain ⟨state, hr⟩ := resetDerived_eq { p with blocks := blocks, fid := fid, volumeId := vid }
    have hunp : Unprotected { p with blocks := blocks, fid := fid, volumeId := vid } ↔
        Unprotected p := Iff.rfl
    simp only [if_true, true_implies]
    rw [hr]
    constructor
    · intro h
      exact ⟨h.blocks, hlocated.mp (hloc.mp ⟨h.fid, h.volumeId⟩), h.compression,
        hunp.mp (hprot.mp ⟨h.reliability, h.replicaChunks⟩)⟩
    · rintro ⟨hblocks, hl, hcomp, hu⟩
      obtain ⟨hfid, hvid⟩ := hloc.mpr (hlocated.mpr hl)
      obtain ⟨hrel, hrep⟩ := hprot.mpr (hunp.mpr hu)
      exact ⟨rfl, hblocks, rfl, rfl, rfl, hfid, hvid, hrel, hrep, hcomp⟩

/-- The projection and the store agree in the data, the block count apart. -/
theorem projectData_cases (u : Update) (info : InodeInfo) :
    (Stale u info ∧ (∃ e, projectData u info = .error e) ∧
      syncData u info = info) ∨
    (¬ Stale u info ∧ ∃ p blocks, projectData u info = .ok p ∧
      syncData u info =
        { p with blocks := blocks } ∧
      (p.blocks = blocks ↔ BlocksKept u info) ∧ p.chunks = u.chunks ∧
      p.fid = info.fid ∧ p.volumeId = info.volumeId ∧ (Uncompressed p ↔ Uncompressed info) ∧
      (Unprotected p ↔ Unprotected info)) := by
  obtain ⟨size, chunks, inlineData, isAppend, mask⟩ := u
  unfold projectData syncData Stale BlocksKept
  cases isAppend <;> cases inlineData with
  | none =>
    refine .inr ⟨by simp, _, _, rfl, rfl, by simp, rfl, rfl, rfl, Iff.rfl, Iff.rfl⟩
  | some data =>
    first
    | exact .inr ⟨by simp, _, _, rfl, rfl, by simp, rfl, rfl, rfl, Iff.rfl, Iff.rfl⟩
    | by_cases hstale : info.chunks ≠ [] ∨ info.storageMode.isVolumeBacked = true
      · exact .inl ⟨⟨rfl, by simp, hstale⟩, ⟨_, if_pos hstale⟩, if_pos hstale⟩
      · refine .inr ⟨fun h => hstale h.2.2, ?_⟩
        simp only [if_neg hstale]
        cases mask <;>
          exact ⟨_, _, rfl, rfl, by simp, rfl, rfl, rfl, Iff.rfl, Iff.rfl⟩

/-- A rejected update that is applied all the same leaves the record alone exactly when its
mode, its location and what is derived from its data are in order. -/
theorem rejected_iff (info : InodeInfo) (changed : Bool) :
    (if changed then resetDerived (backfillFid { info with storageMode := modeOfData info })
      else backfillFid { info with storageMode := modeOfData info }) = info ↔
      info.storageMode = modeOfData info ∧ Located info info.chunks ∧
        (changed = true → Uncompressed info ∧
          info.reliabilityState ≠ .replicated ∧ info.reliabilityState ≠ .ec) := by
  have hback : ∀ p : InodeInfo, Located p p.chunks → backfillFid p = p := by
    intro p hp
    unfold backfillFid
    split
    · rfl
    rename_i first rest hcs
    obtain ⟨hfid, hvid⟩ := hp first (by simp [hcs])
    rw [← hfid, ← hvid]
  have hreset : ∀ p : InodeInfo, Uncompressed p → p.reliabilityState ≠ .replicated →
      p.reliabilityState ≠ .ec → resetDerived p = p := by
    intro p hc hrep hec
    simp only [Uncompressed, Prod.mk.injEq] at hc
    obtain ⟨h1, h2, h3, h4, h5⟩ := hc
    unfold resetDerived
    split
    · exact absurd ‹_› hrep
    · exact absurd ‹_› hec
    · rw [← h1, ← h2, ← h3, ← h4, ← h5]
  constructor
  · intro h
    obtain ⟨fid, vid, hb⟩ := backfillFid_eq { info with storageMode := modeOfData info }
    have hloc := backfillFid_location { info with storageMode := modeOfData info }
    rw [hb] at h hloc
    cases changed with
    | false =>
      exact ⟨(congrArg InodeInfo.storageMode h).symm, hloc.mp ⟨(congrArg InodeInfo.fid h).symm,
        (congrArg InodeInfo.volumeId h).symm⟩, by simp⟩
    | true =>
      simp only [if_true] at h
      obtain ⟨state, hr⟩ := resetDerived_eq
        { info with storageMode := modeOfData info, fid := fid, volumeId := vid }
      have hstate := congrArg InodeInfo.reliabilityState h
      rw [hr] at h
      refine ⟨(congrArg InodeInfo.storageMode h).symm, hloc.mp ⟨(congrArg InodeInfo.fid h).symm,
        (congrArg InodeInfo.volumeId h).symm⟩, fun _ => ⟨?_, ?_⟩⟩
      · have h1 := congrArg InodeInfo.compressionState h
        have h2 := congrArg InodeInfo.compressionAlgo h
        have h3 := congrArg InodeInfo.compressionRatioX100 h
        have h4 := congrArg InodeInfo.compressionOriginalSize h
        have h5 := congrArg InodeInfo.compressionOriginalChunkFp h
        simp only at h1 h2 h3 h4 h5
        simp only [Uncompressed, ← h1, ← h2, ← h3, ← h4, ← h5]
      · unfold resetDerived at hstate
        constructor <;> intro hs <;> simp [hs] at hstate
  · rintro ⟨hmode, hloc, hder⟩
    have hsame : { info with storageMode := modeOfData info } = info := by rw [← hmode]
    rw [hsame, hback info hloc]
    cases changed with
    | false => rfl
    | true =>
      obtain ⟨hc, hrep, hec⟩ := hder rfl
      exact hreset info hc hrep hec

/-- **Outside a migration window the cache mirrors the store exactly when the record already
has what the projection leaves out.** -/
theorem mirrors_iff (u : Update) (info : InodeInfo) (hmigration : info.migration = none) :
    Mirrors u info ↔ InStep u info := by
  have happly : updateInodeSizeChunks u info = .ok (if chunksChanged info u.chunks then
        resetDerived
          (backfillFid { syncData u info with storageMode := modeOfData (syncData u info) })
      else backfillFid { syncData u info with storageMode := modeOfData (syncData u info) }) := by
    simp only [updateInodeSizeChunks, hmigration]
  unfold Mirrors InStep projectUpdateSizeChunks
  rw [happly]
  rcases projectData_cases u info with ⟨hstale, ⟨e, he⟩, hsync⟩ |
    ⟨hfresh, p, blocks, hp, hsync, hblocks, hchunks, hfid, hvid, hcomp, hprot⟩
  · rw [he, hsync]
    simp only [Except.map, Except.ok.injEq, hstale, not_true_eq_false, false_and, or_false,
      true_and]
    exact rejected_iff info _
  · rw [hp, hsync]
    have hloc : Located p p.chunks ↔ Located info u.chunks := by
      unfold Located
      rw [hchunks, hfid, hvid]
    simp only [Except.map, Except.ok.injEq, exists_eq_left', hfresh, false_and, false_or,
      not_false_eq_true, true_and]
    refine (agree_iff { p with storageMode := modeOfData p } blocks _).trans ?_
    exact and_congr hblocks (and_congr hloc (imp_congr_right fun _ => and_congr hcomp hprot))

/-- A file of one chunk that is in order. -/
def settledFile : InodeInfo :=
  { fileInode 0 2 1 ['f'] with
    size := 512
    blocks := 1
    fid := some (fidOf 7 9)
    volumeId := some 7
    storageMode := .flat
    chunks := [⟨0, 512, 9, 7, 0, 0, false, .none⟩] }

/-- Its chunk is written again. -/
theorem settledFile_mirrored :
    Mirrors ⟨512, settledFile.chunks, none, false, none⟩ settledFile := by
  refine (mirrors_iff _ settledFile rfl).mpr (.inr ⟨by simp [Stale], ?_, ?_, ?_⟩)
  · simp [BlocksKept]
  · intro first hfirst
    cases hfirst
    exact ⟨rfl, rfl⟩
  · intro hchanged
    simp [chunksChanged] at hchanged

/-- The first chunk of a new file: the cache has no location for it, the store does. -/
theorem first_chunk_not_mirrored :
    ¬ Mirrors ⟨512, [⟨0, 512, 9, 7, 0, 0, false, .none⟩], none, true, none⟩
      (fileInode 0 2 1 ['f']) := by
  rintro ⟨applied, happlied, hagree⟩
  cases happlied
  exact absurd hagree.volumeId (by decide)

end PowerFS.Filer.Projection
