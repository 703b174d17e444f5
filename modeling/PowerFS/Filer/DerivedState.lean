import PowerFS.Filer.InlineCommits

/-! # Replicas, coding and compression against the chunk list

A record says how its chunks are replicated, coded and compressed. Commits of size and
chunks, the moves to replicas and to erasure coding and the end of a compression all
write to it; the chunks of the last `UpdateCompression` are kept beside the record as a
ghost. Whether chunks have changed is decided before the branch that stores them: a sync
with the chunks from before the compression counts as no change and is stored all the
same, and an inline overwrite that is dropped counts as a change. -/
namespace PowerFS.Filer.DerivedState
open Lib.ByteString Lib.StepRuns InodeRecords MetadataShard ShardFacts RecordSteps InlineCommits

variable {json : Json} {now : UInt64} {info : InodeInfo}

/-! ## Commands and their runs -/

/-- The commands that touch the chunk list or what is derived from it. -/
inductive Upkeep where
  | updateInodeSizeChunks (u : Update)
  | updateReliability (reliability : Reliability) (reliabilityState : ReliabilityState)
      (replicaChunks : List StoredFileChunk)
  | updateToEC (reliability : Reliability) (reliabilityState : ReliabilityState)
      (ecChunks : List StoredFileChunk)
  | updateCompression (chunks replicaChunks : List StoredFileChunk) (algo : CompressionAlgo)
      (ratioX100 : UInt16) (originalSize : UInt64)

def Upkeep.command (i : UInt64) : Upkeep → ShardCommand
  | .updateInodeSizeChunks u => .updateInodeSizeChunks i u
  | .updateReliability reliability state chunks => .updateReliability i reliability state chunks
  | .updateToEC reliability state chunks => .updateToEC i reliability state chunks
  | .updateCompression chunks replicas algo ratio size =>
    .updateCompression i chunks replicas algo ratio size

def Upkeep.effect (now : UInt64) : Upkeep → InodeInfo → InodeInfo
  | .updateInodeSizeChunks u => sync u
  | .updateReliability reliability state chunks =>
    InodeRecords.updateReliability now reliability state chunks
  | .updateToEC reliability state chunks => updateToEc now reliability state chunks
  | .updateCompression chunks replicas algo ratio size =>
    updateToCompressed now chunks replicas algo ratio size

/-- A record, and the chunks of the last compression. -/
structure Tracked where
  info : InodeInfo
  installed : Option (List StoredFileChunk)

def Tracked.step (t : Tracked) (e : UInt64 × Upkeep) : Tracked where
  info := e.2.effect e.1 t.info
  installed := match e.2 with
    | .updateCompression chunks .. => some chunks
    | _ => t.installed

variable {s : json.Store} {i : UInt64} {t : Tracked} {a b : InodeInfo}

theorem getInode_upkeep (hs : Numbered s) (hinfo : s.getInode i = some info) (u : Upkeep) :
    (applyCommand now s (u.command i)).getInode i = some (u.effect now info) := by
  have htarget : target (u.command i) = some i := by cases u <;> rfl
  rw [getInode_record hs htarget, if_pos rfl, hinfo]
  cases u <;> rfl

theorem getInode_upkeeps (es : List (UInt64 × Upkeep)) (hs : Numbered s)
    (hinfo : s.getInode i = some t.info) :
    (applyLog s (es.map fun e => (e.1, e.2.command i))).getInode i =
      some (es.foldl Tracked.step t).info := by
  induction es generalizing s t with
  | nil => exact hinfo
  | cons e es ih => exact ih (applyCommand_numbered hs _ _) (getInode_upkeep hs hinfo e.2)

/-! ## What should hold -/

/-- All that is derived from the chunks, with the mode. -/
def derivedOf (info : InodeInfo) :=
  (info.reliability, info.reliabilityState, info.replicaChunks, info.storageMode,
    info.compressionState, info.compressionAlgo, info.compressionRatioX100,
    info.compressionOriginalSize, info.compressionOriginalChunkFp)

/-- A compressed file has the chunks of the last compression. -/
def Tracked.Matches (t : Tracked) : Prop :=
  t.info.compressionState = .compressed → t.installed = some t.info.chunks

/-- Other chunks than the stored ones, with the fingerprint from before the compression. -/
def Stale (info : InodeInfo) (chunks : List StoredFileChunk) : Prop :=
  chunks ≠ info.chunks ∧ info.compressionState = .compressed ∧
    info.compressionOriginalChunkFp = some (chunkFingerprint chunks)

instance (info : InodeInfo) (chunks : List StoredFileChunk) : Decidable (Stale info chunks) :=
  inferInstanceAs (Decidable (_ ∧ _ ∧ _))

/-- The chunks of a compressed file are those of the compression; a commit that leaves the
chunks leaves what is derived from them, and a stale one leaves everything. -/
def StepOk (t : Tracked) (e : UInt64 × Upkeep) : Prop :=
  (t.step e).Matches ∧ match e.2 with
    | .updateInodeSizeChunks u =>
      ((t.step e).info.chunks = t.info.chunks → derivedOf (t.step e).info = derivedOf t.info) ∧
        (Stale t.info u.chunks → (t.step e).info = t.info)
    | _ => True

/-! ## When it holds -/

/-- The mode is the one of a file with these chunks. -/
def ModeFits (isInline : Bool) (chunks : List StoredFileChunk) (mode : StorageMode) : Prop :=
  match isInline, chunks with
  | true, _ => mode = .inline
  | false, [] => True
  | false, chunks => OneVolume chunks ∧ mode = .flat ∨ ¬ OneVolume chunks ∧ mode = .stripe

/-- There are no replicas, shards or compressed chunks to drop. -/
def Clean (info : InodeInfo) : Prop :=
  (info.reliabilityState ≠ .replicated ∧ info.reliabilityState ≠ .ec) ∧
    info.compressionState = .none ∧ info.compressionAlgo = .none ∧
    info.compressionRatioX100 = 0 ∧ info.compressionOriginalSize = 0 ∧
    info.compressionOriginalChunkFp = none

/-- The location fields are those of the first chunk. -/
def Located (info : InodeInfo) : Prop := ∀ first, info.chunks.head? = some first →
  info.fid = some (fidOf first.volumeId first.needleId) ∧ info.volumeId = some first.volumeId

/-- The condition on a command and the record it meets. -/
def Fits (info : InodeInfo) : Upkeep → Prop
  | .updateInodeSizeChunks ⟨_, chunks, data, isAppend, _⟩ =>
    info.migration = none →
      (Dropped info data isAppend → ModeFits info.inlineData.isSome info.chunks info.storageMode ∧
        (chunks ≠ info.chunks → Stale info chunks ∧ Located info ∨
          ¬ Stale info chunks ∧ Clean info)) ∧
      (¬ Dropped info data isAppend → ¬ Stale info chunks ∧
        (chunks = info.chunks → ModeFits (data.isSome || isAppend && info.inlineData.isSome)
          info.chunks info.storageMode))
  | .updateToEC _ _ chunks => info.compressionState = .compressed → chunks = info.chunks
  | _ => True

/-! ## One step -/

theorem chunksChanged_eq (info : InodeInfo) (chunks : List StoredFileChunk) :
    chunksChanged info chunks = decide (chunks ≠ info.chunks ∧ ¬ Stale info chunks) := by
  unfold chunksChanged Stale
  rw [Bool.eq_iff_iff]
  simp only [Bool.and_eq_true, Bool.not_eq_true', Bool.and_eq_false_iff, decide_eq_true_eq,
    decide_eq_false_iff_not, ne_eq, @eq_comm _ info.chunks]
  tauto

theorem modeOfData_fits (info : InodeInfo) :
    modeOfData info = info.storageMode ↔
      ModeFits info.inlineData.isSome info.chunks info.storageMode := by
  unfold modeOfData ModeFits
  cases info.inlineData with
  | some data => exact eq_comm
  | none =>
    cases info.chunks with
    | nil => simp
    | cons first rest =>
      simp only [Option.isSome_none, Bool.false_eq_true, if_false, oneVolume_cons]
      cases rest.any (fun c => c.volumeId ≠ first.volumeId) <;> simp [eq_comm]

theorem derivedOf_backfillFid (info : InodeInfo) :
    derivedOf (backfillFid info) = derivedOf info := by
  unfold backfillFid
  split <;> rfl

theorem resetDerived_congr (h : derivedOf a = derivedOf b) :
    derivedOf (resetDerived a) = derivedOf (resetDerived b) := by
  simp only [derivedOf, Prod.mk.injEq] at h
  obtain ⟨hrel, hstate, hreplicas, hmode, -⟩ := h
  unfold resetDerived
  rw [hstate]
  cases b.reliabilityState <;> simp [derivedOf, hrel, hstate, hreplicas, hmode]

theorem derivedOf_mode_iff (info : InodeInfo) (mode : StorageMode) :
    derivedOf { info with storageMode := mode } = derivedOf info ↔ mode = info.storageMode := by
  simp [derivedOf]

theorem derivedOf_reset_iff (info : InodeInfo) (mode : StorageMode) :
    derivedOf (resetDerived { info with storageMode := mode }) = derivedOf info ↔
      mode = info.storageMode ∧ Clean info := by
  unfold resetDerived Clean derivedOf
  cases info.reliabilityState <;>
    simp [@eq_comm _ _ info.compressionState, @eq_comm _ _ info.compressionAlgo,
      @eq_comm _ _ info.compressionRatioX100, @eq_comm _ _ info.compressionOriginalSize,
      @eq_comm _ _ info.compressionOriginalChunkFp]

theorem backfillFid_eq_iff (info : InodeInfo) : backfillFid info = info ↔ Located info := by
  unfold backfillFid Located
  cases hchunks : info.chunks with
  | nil => simp
  | cons first rest =>
    simp only [List.head?_cons, Option.some.injEq, forall_eq']
    constructor
    · intro h
      exact ⟨(congrArg InodeInfo.fid h).symm, (congrArg InodeInfo.volumeId h).symm⟩
    · rintro ⟨hfid, hvolume⟩
      rw [← hfid, ← hvolume, ← hchunks]

/-- A record under the mode and the location that its data give. -/
def settled (info : InodeInfo) : InodeInfo :=
  backfillFid { info with storageMode := modeOfData info }

theorem settled_same_iff (info : InodeInfo) :
    settled info = info ↔
      ModeFits info.inlineData.isSome info.chunks info.storageMode ∧ Located info := by
  unfold settled
  rw [← modeOfData_fits]
  constructor
  · intro heq
    have hmode : modeOfData info = info.storageMode :=
      (sameData_backfillFid _).storageMode.symm.trans (congrArg InodeInfo.storageMode heq)
    refine ⟨hmode, ?_⟩
    rw [hmode] at heq
    exact (backfillFid_eq_iff info).mp heq
  · rintro ⟨hmode, hlocated⟩
    rw [hmode]
    exact (backfillFid_eq_iff info).mpr hlocated

theorem settled_derived_iff (info : InodeInfo) : derivedOf (settled info) = derivedOf info ↔
    ModeFits info.inlineData.isSome info.chunks info.storageMode := by
  rw [settled, derivedOf_backfillFid, derivedOf_mode_iff, modeOfData_fits]

theorem settled_reset_iff (info : InodeInfo) :
    derivedOf (resetDerived (settled info)) = derivedOf info ↔
      ModeFits info.inlineData.isSome info.chunks info.storageMode ∧ Clean info := by
  rw [settled, resetDerived_congr (derivedOf_backfillFid _), derivedOf_reset_iff, modeOfData_fits]

section Sync

variable {u : Update}

theorem syncData_derived (info : InodeInfo) : derivedOf (syncData u info) = derivedOf info := by
  obtain ⟨size, chunks, data, isAppend, mask⟩ := u
  dsimp only [syncData]
  split
  · rfl
  · rfl
  · split
    · rfl
    · split <;> rfl
  · rfl

/-- A commit that is not dropped stores its chunks. -/
theorem syncData_taken (h : ¬ Dropped info u.inlineData u.isAppend) :
    (syncData u info).chunks = u.chunks ∧ (syncData u info).inlineData.isSome =
      (u.inlineData.isSome || u.isAppend && info.inlineData.isSome) := by
  obtain ⟨size, chunks, data, isAppend, mask⟩ := u
  unfold syncData
  cases isAppend with
  | true => cases data <;> simp
  | false =>
    cases data with
    | none => simp
    | some client =>
      have hopen : ¬ (info.chunks ≠ [] ∨ info.storageMode.isVolumeBacked = true) :=
        fun hbacked => h ⟨rfl, rfl, hbacked⟩
      dsimp only
      rw [if_neg hopen]
      cases mask <;> simp

/-- The record under the mode that fits its data. -/
theorem derivedOf_stored (info : InodeInfo) :
    derivedOf (stored u info) =
      derivedOf { info with storageMode := modeOfData (syncData u info) } := by
  have hrest : derivedOf (syncData u info) = derivedOf info := syncData_derived info
  unfold stored
  rw [derivedOf_backfillFid]
  simp only [derivedOf, Prod.mk.injEq] at hrest ⊢
  tauto

theorem stored_chunks (info : InodeInfo) : (stored u info).chunks = (syncData u info).chunks :=
  (sameData_backfillFid _).chunks

/-- A commit with the stored chunks, or with stale ones, resets nothing. -/
theorem sync_unchanged (hopen : info.migration = none)
    (h : u.chunks = info.chunks ∨ Stale info u.chunks) :
    sync u info = stored u info := by
  rw [sync_outside _ hopen, chunksChanged_eq, if_neg]
  rw [decide_eq_true_eq]
  rintro ⟨hne, hstale⟩
  exact h.elim hne hstale

theorem sync_changed (hopen : info.migration = none) (hne : u.chunks ≠ info.chunks)
    (hstale : ¬ Stale info u.chunks) : sync u info = resetDerived (stored u info) := by
  rw [sync_outside _ hopen, chunksChanged_eq, if_pos]
  exact decide_eq_true ⟨hne, hstale⟩

theorem resetDerived_compressionState (info : InodeInfo) :
    (resetDerived info).compressionState = .none := by
  unfold resetDerived
  split <;> rfl

theorem compressionState_of_derivedOf (h : derivedOf a = derivedOf b) :
    a.compressionState = b.compressionState := by
  simp only [derivedOf, Prod.mk.injEq] at h
  tauto

theorem stored_compressionState (info : InodeInfo) :
    (stored u info).compressionState = info.compressionState :=
  (compressionState_of_derivedOf (derivedOf_stored info)).trans rfl

theorem stored_dropped (hdropped : Dropped info u.inlineData u.isAppend) :
    stored u info = settled info := by
  unfold stored
  rw [syncData_dropped hdropped]
  rfl

theorem taken_derived_iff (htaken : ¬ Dropped info u.inlineData u.isAppend)
    (heq : u.chunks = info.chunks) : derivedOf (stored u info) = derivedOf info ↔
      ModeFits (u.inlineData.isSome || u.isAppend && info.inlineData.isSome) info.chunks
        info.storageMode := by
  obtain ⟨hchunks, hinline⟩ := syncData_taken htaken
  have hmode : (syncData u info).storageMode = info.storageMode := by
    have hrest : derivedOf (syncData u info) = derivedOf info := syncData_derived info
    simp only [derivedOf, Prod.mk.injEq] at hrest
    tauto
  rw [derivedOf_stored, derivedOf_mode_iff, ← hmode, modeOfData_fits, hchunks, hinline, heq]

end Sync

/-- **One commit keeps the coupling exactly under the condition.** -/
theorem stepOk_sync_iff (ht : t.Matches) (u : Update) :
    StepOk t (now, .updateInodeSizeChunks u) ↔ Fits t.info (.updateInodeSizeChunks u) := by
  obtain ⟨info, installed⟩ := t
  show (((sync u info).compressionState = .compressed → installed = some (sync u info).chunks) ∧
    ((sync u info).chunks = info.chunks → derivedOf (sync u info) = derivedOf info) ∧
    (Stale info u.chunks → sync u info = info)) ↔ _
  have hmatches : info.compressionState = .compressed → installed = some info.chunks := ht
  unfold Fits
  cases hopen : info.migration with
  | some window =>
    rw [sync_in_window _ hopen]
    constructor
    · intro _ hnone
      cases hnone
    · intro _
      exact ⟨hmatches, fun _ => rfl, fun _ => rfl⟩
  | none =>
    simp only [forall_const]
    by_cases hdropped : Dropped info u.inlineData u.isAppend
    · have hkept : (settled info).chunks = info.chunks := (sameData_backfillFid _).chunks
      have hsame : (settled info).compressionState = info.compressionState :=
        (compressionState_of_derivedOf (derivedOf_backfillFid _)).trans rfl
      simp only [hdropped, not_true_eq_false, false_imp_iff, and_true, forall_const]
      by_cases heq : u.chunks = info.chunks
      · have hstale : ¬ Stale info u.chunks := fun h => h.1 heq
        rw [sync_unchanged hopen (Or.inl heq), stored_dropped hdropped, hsame, hkept,
          settled_derived_iff]
        exact ⟨fun h => ⟨h.2.1 rfl, fun hne => absurd heq hne⟩,
          fun h => ⟨hmatches, fun _ => h.1, fun h => absurd h hstale⟩⟩
      · by_cases hstale : Stale info u.chunks
        · rw [sync_unchanged hopen (Or.inr hstale), stored_dropped hdropped, hsame, hkept,
            settled_derived_iff, settled_same_iff]
          refine ⟨fun h => ⟨h.2.1 rfl, fun _ => Or.inl ⟨hstale, (h.2.2 hstale).2⟩⟩, ?_⟩
          rintro ⟨hfits, hrest⟩
          refine ⟨hmatches, fun _ => hfits, fun _ => ⟨hfits, ?_⟩⟩
          exact (hrest heq).elim And.right fun h => absurd hstale h.1
        · rw [sync_changed hopen heq hstale, stored_dropped hdropped,
            resetDerived_compressionState, (sameData_resetDerived _).chunks, hkept,
            settled_reset_iff]
          refine ⟨fun h => ⟨(h.2.1 rfl).1, fun _ => Or.inr ⟨hstale, (h.2.1 rfl).2⟩⟩, ?_⟩
          rintro ⟨hfits, hrest⟩
          refine ⟨fun hc => absurd hc (by decide), fun _ => ⟨hfits, ?_⟩, fun h => absurd h hstale⟩
          exact (hrest heq).elim (fun h => absurd h.1 hstale) And.right
    · have hstored : (stored u info).chunks = u.chunks := by
        rw [stored_chunks, (syncData_taken hdropped).1]
      simp only [hdropped, false_imp_iff, true_and, not_false_eq_true, forall_const]
      by_cases heq : u.chunks = info.chunks
      · have hstale : ¬ Stale info u.chunks := fun h => h.1 heq
        rw [sync_unchanged hopen (Or.inl heq), stored_compressionState, hstored,
          taken_derived_iff hdropped heq]
        exact ⟨fun h => ⟨hstale, fun _ => h.2.1 heq⟩,
          fun h => ⟨fun hc => heq ▸ hmatches hc, fun _ => h.2 heq, fun h => absurd h hstale⟩⟩
      · by_cases hstale : Stale info u.chunks
        · -- the stale chunks are stored, and the file still counts as compressed
          constructor
          · intro h
            have hsame := h.2.2 hstale
            rw [sync_unchanged hopen (Or.inr hstale)] at hsame
            exact absurd (hstored.symm.trans (congrArg InodeInfo.chunks hsame)) heq
          · intro h
            exact absurd hstale h.1
        · rw [sync_changed hopen heq hstale, resetDerived_compressionState,
            (sameData_resetDerived _).chunks, hstored]
          exact ⟨fun _ => ⟨hstale, fun h => absurd h heq⟩,
            fun _ => ⟨fun hc => absurd hc (by decide), fun h => absurd h heq,
              fun h => absurd h hstale⟩⟩

theorem stepOk_iff (ht : t.Matches) (e : UInt64 × Upkeep) : StepOk t e ↔ Fits t.info e.2 := by
  obtain ⟨now, u⟩ := e
  cases u with
  | updateInodeSizeChunks u => exact stepOk_sync_iff ht u
  | updateReliability reliability state chunks =>
    exact ⟨fun _ => trivial, fun _ => ⟨ht, trivial⟩⟩
  | updateCompression chunks replicas algo ratio size =>
    exact ⟨fun _ => trivial, fun _ => ⟨fun _ => rfl, trivial⟩⟩
  | updateToEC reliability state chunks =>
    constructor
    · rintro ⟨hmatches, -⟩ hcompressed
      have hinstalled : t.installed = some chunks := hmatches hcompressed
      exact Option.some.inj (hinstalled.symm.trans (ht hcompressed))
    · intro hfits
      refine ⟨fun hcompressed => ?_, trivial⟩
      have hchunks : chunks = t.info.chunks := hfits hcompressed
      rw [hchunks]
      exact ht hcompressed

/-! ## Runs -/

/-- **Reliability and compression match the chunk list in every state of a run exactly when
each command fits the record it meets.** -/
theorem derived_state_matches_iff (range : UInt64 × UInt64) (log : List (UInt64 × ShardCommand))
    (i : UInt64) (info : InodeInfo) (es : List (UInt64 × Upkeep))
    (hinfo : (applyLog (freshStore json range) log).getInode i = some info)
    (hplain : info.compressionState ≠ .compressed) :
    (applyLog (freshStore json range) (log ++ es.map fun e => (e.1, e.2.command i))).getInode
        i = some (es.foldl Tracked.step ⟨info, none⟩).info ∧
      (Along Tracked.step StepOk ⟨info, none⟩ es ↔
        Along Tracked.step (fun t e => Fits t.info e.2) ⟨info, none⟩ es) := by
  have hnumbered : Numbered (applyLog (freshStore json range) log) :=
    applyLog_numbered (numbered_fresh range) log
  constructor
  · have hrun := getInode_upkeeps es hnumbered (t := ⟨info, none⟩) hinfo
    unfold applyLog at hrun ⊢
    rwa [List.foldl_append]
  · exact along_iff (I := Tracked.Matches) (fun t e _ hok => hok.1) (fun t e ht => stepOk_iff ht e)
      es fun h => absurd h hplain

def flatChunk : StoredFileChunk := ⟨0, 2, 4, 3, 0, 3, false, .none⟩

def packedChunk : StoredFileChunk := ⟨0, 2, 9, 3, 0, 3, false, .zstd⟩

/-- A file on a volume is replicated, compressed and read again. -/
def orderlyUpkeep : List (UInt64 × Upkeep) :=
  [(4, .updateReliability (.replicated 2) .replicated [flatChunk]),
    (5, .updateCompression [packedChunk] [packedChunk] .zstd 200 2),
    (6, .updateInodeSizeChunks ⟨2, [packedChunk], none, false, none⟩)]

theorem orderly_upkeep_matches :
    (applyLog plainStore (migratedLog ++
        orderlyUpkeep.map fun e => (e.1, e.2.command 2))).getInode 2 =
        some (orderlyUpkeep.foldl Tracked.step ⟨migratedInode, none⟩).info ∧
      Along Tracked.step StepOk ⟨migratedInode, none⟩ orderlyUpkeep := by
  obtain ⟨hrun, hiff⟩ := derived_state_matches_iff (0, 100) migratedLog 2 migratedInode
    orderlyUpkeep migratedLog_getInode (by decide)
  refine ⟨hrun, hiff.mpr ⟨trivial, trivial, fun _ => ⟨?_, fun _ => ⟨by decide, ?_⟩⟩, trivial⟩⟩
  · rintro ⟨-, hdata, -⟩
    cases hdata
  · have hone : OneVolume [packedChunk] := by
      intro a ha b hb
      rw [List.mem_singleton.mp ha, List.mem_singleton.mp hb]
    exact fun _ => .inl ⟨hone, rfl⟩

/-- A reader of a compressed file that sends back the chunks it had opened puts them into
the record, which still says compressed; and a stale inline overwrite that is dropped takes
the state of the replicas with it. -/
theorem stale_sync_and_dropped_overwrite :
    ((applyLog plainStore (migratedLog ++
        [(5, .updateCompression 2 [packedChunk] [packedChunk] .zstd 200 2),
          (6, .updateInodeSizeChunks 2 ⟨2, [flatChunk], none, false, none⟩)])).getInode 2).map
        (fun info => (info.compressionState, info.chunks)) = some (.compressed, [flatChunk]) ∧
      ((applyLog plainStore (migratedLog ++
        [(4, .updateReliability 2 (.replicated 2) .replicated [flatChunk]),
          (5, .updateInodeSizeChunks 2 ⟨1, [], some [9], false, none⟩)])).getInode 2).map
        (fun info => (info.chunks, info.reliabilityState, info.replicaChunks)) =
        some ([flatChunk], .pendingReplicated, []) := by
  decide +kernel

end PowerFS.Filer.DerivedState
