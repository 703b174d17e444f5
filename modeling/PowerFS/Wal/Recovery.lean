import PowerFS.Wal.EngineOpen
import PowerFS.Wal.EngineRun

/-! # Recovery brings back the index

What an engine leaves behind can be opened again, and the index that opening builds
from a checkpoint and the records behind it is the one the engine had. -/
namespace PowerFS.Wal.Recovery
open Lib.ByteString Wal.Frame Segment SegmentRoundTrip Index IndexAccounting Checkpoint Replay
  LogContents Superblocks Directory Engine EngineDisk Effects IndexAlike EngineRun EngineOpen List
  SegManifest

/-- The same needles and tombstones up to ages, dead copies, purge markers, statistics,
cursor and capacity. -/
structure SameIndex (a b : WalIndex) : Prop where
  alike : Alike Eq a b
  lastLsn : a.lastLsn = b.lastLsn
  volumeSize : a.volumeSize = b.volumeSize

/-! ## Where replay starts -/

/-- The checkpoint that was loaded holds the records `front`; with it, replay has to
apply `back`. A volume without a checkpoint starts from nothing. -/
structure Base (config : WalEngineConfig) (rs : List Located) (ckpt : LoadedCkpt)
    (front back : List Located) : Prop where
  split : rs = front ++ back
  alike : Alike Eq ckpt.index (applyRecords (fun _ => 0) WalIndex.empty front)
  lastLsn : ckpt.index.lastLsn = (applyRecords (fun _ => 0) WalIndex.empty front).lastLsn
  cursor : ckpt.appliedLsn = ckpt.index.lastLsn
  largest : ckpt.index.maxNeedleId ≤
    (applyRecords (fun _ => 0) WalIndex.empty front).maxNeedleId
  capacity : ckpt.index.volumeSize = sizeAfter config.volumeSize.toNat front ∨
    front = [] ∧ ckpt.index.volumeSize = 0

variable {ckpts : List (Nat × Option CkptData)} {rs : List Located}

theorem newestCkpt_mem {seq : Nat} {data : CkptData} (h : newestCkpt ckpts = some (seq, data)) :
    ∃ c ∈ ckpts, c.2 = some data := by
  obtain ⟨c, hc, hdata⟩ := exists_of_findSome?_eq_some h
  obtain ⟨d, hd, heq⟩ := Option.map_eq_some_iff.mp hdata
  cases heq
  exact ⟨c, mem_reverse.mp hc, hd⟩

theorem loadCkpt_base {config : WalEngineConfig}
    (h : ∀ c ∈ ckpts, ∃ data, c.2 = some data ∧ Covers config rs data) :
    ∃ ckpt front back, loadCkpt config ckpts = .ok ckpt ∧ Base config rs ckpt front back := by
  unfold loadCkpt
  cases hn : newestCkpt ckpts with
  | none => exact ⟨_, [], rs, rfl, ⟨rfl, Alike.refl _, rfl, rfl, le_refl _, Or.inr ⟨rfl, rfl⟩⟩⟩
  | some c =>
    obtain ⟨seq, data⟩ := c
    obtain ⟨c, hc, hdata⟩ := newestCkpt_mem hn
    obtain ⟨_, hdata', o, segEntries, idx, front, back, hbuild, hid, hlsn, hrs, hidx⟩ := h c hc
    rw [hdata] at hdata'
    cases hdata'
    obtain ⟨halike, hcursor, hsize, hids⟩ :=
      loaded_alike o data.header segEntries hidx.consistent hidx.dated
    rw [← hbuild, ← hlsn] at halike hcursor
    rw [← hbuild] at hsize hids
    refine ⟨LoadedCkpt.ofData seq data, front, back, ?_, hrs, halike.trans hidx.alike, ?_,
      hcursor.symm, hids.trans hidx.largest.le, Or.inl (hsize.trans hidx.capacity)⟩
    · dsimp only
      rw [if_neg (not_not.mpr hid)]
    · exact hcursor.trans (hlsn.trans hidx.cursor)

/-! ## Replay -/

section Replay

variable [Checksum] {e : WalEngine} {segs : List SegContents} {last : SegContents}
  {ckpt : LoadedCkpt} {front back : List Located}

/-- Replay of what the engine stored applies the records behind the checkpoint. -/
theorem recover_stored (h : Stored e segs last)
    (hbase : Base e.config (onDisk segs last) ckpt front back) (reads : ReadSplit)
    (replayClock : Nat → Int64) :
    ∃ r, recover reads replayClock e.config e.volume ckpt = .ok r ∧
      r.replay.index = applyRecords replayClock ckpt.index back ∧ r.replay.stop = none ∧
      r.replay.files = e.sink.files := by
  obtain ⟨hdesc, hengine, hsorted, hpos⟩ := h.wellFormed
  have hlive : liveFrom ckpt.appliedLsn (records (segs ++ [last])) = back := by
    have hsplit : records (segs ++ [last]) = front ++ back := hbase.split
    have hengine' := h.wellFormed.engineRecords
    rw [hsplit] at hsorted hpos hengine' ⊢
    rw [hbase.cursor, hbase.lastLsn]
    exact liveFrom_split _ hsorted hpos hengine'
  obtain ⟨st, hrun, hadv⟩ := replay_whole replayClock e.config.recoveryMode ckpt.appliedLsn reads
    (segs ++ [last]) [] ⟨ckpt.index, 0, 0, ∅, none, e.sink.files⟩ hdesc hengine hsorted
    (fun r _ hr => by rw [← hbase.cursor]; exact hr)
  rw [hlive] at hadv
  rw [append_nil, ← h.files_eq] at hrun
  have hreplay : replayAll reads replayClock e.config.recoveryMode ckpt.appliedLsn
      e.sink.files ckpt.index = .ok ⟨st.index, st.framesReplayed, st.framesSkipped, st.truncated,
        st.stop, abandonedAfter e.sink.files st.stop, e.sink.files.length, st.files⟩ := by
    unfold replayAll replayWith
    rw [hrun]
    rfl
  unfold recover
  rw [show e.volume.segs = e.sink.files from rfl, hreplay]
  rw [hadv.stop]
  exact ⟨_, rfl, hadv.index, rfl, hadv.files⟩

omit [Checksum] in
/-- The capacity after replay, with the superblock's where no record set one. -/
theorem withBaseline_volumeSize {config : WalEngineConfig} {sb : Superblock}
    (hbase : Base config rs ckpt front back)
    (hnonzero : ∀ r ∈ rs, newSize (effectOf r.1 r.2) ≠ some 0)
    (hsb : sb.volumeSize.toNat = sizeAfter config.volumeSize.toNat rs) {idx : WalIndex}
    (hidx : idx.volumeSize = sizeAfter ckpt.index.volumeSize back) :
    (withBaseline config sb idx).volumeSize = sizeAfter config.volumeSize.toNat rs := by
  have hrs := sizeAfter_eq hnonzero config.volumeSize.toNat
  have hcases : idx.volumeSize = sizeAfter config.volumeSize.toNat rs ∨
      idx.volumeSize = sizeAfter 0 rs := by
    rcases hbase.capacity with hcap | ⟨hfront, hcap⟩
    · left
      rw [hidx, hcap, ← sizeAfter_append, ← hbase.split]
    · right
      rw [hidx, hcap, hbase.split, hfront, nil_append]
  unfold withBaseline
  split
  · split
    · exact hsb
    rename_i hsb0
    -- no capacity anywhere, so the configuration has none either
    rw [not_not.mp hsb0] at hsb
    have hnone : sizeAfter config.volumeSize.toNat rs = 0 := hsb.symm
    rw [hnone] at hrs ⊢
    split at hrs
    · exact hrs.symm
    · rename_i hset
      exact absurd hrs.symm hset
  · rename_i hset
    rcases hcases with hcase | hcase
    · exact hcase
    · rw [hcase] at hset
      rw [hcase, hrs, if_neg hset]

omit [Checksum] in
theorem withBaseline_alike (config : WalEngineConfig) (sb : Superblock) (idx : WalIndex) :
    Alike Eq (withBaseline config sb idx) idx ∧
    (withBaseline config sb idx).lastLsn = idx.lastLsn ∧
    (withBaseline config sb idx).maxNeedleId = idx.maxNeedleId := by
  unfold withBaseline
  split
  · exact ⟨⟨fun _ => rfl, rfl, rfl, rfl, rfl⟩, rfl, rfl⟩
  · exact ⟨Alike.refl idx, rfl, rfl⟩

/-- **The index that opening builds is the one the engine had.** -/
theorem recovered_sameIndex {sb : Superblock} (h : Traced e segs last)
    (hsb : SbCurrent e sb) (hbase : Base e.config (onDisk segs last) ckpt front back)
    (replayClock : Nat → Int64) :
    SameIndex (withBaseline e.config sb (applyRecords replayClock ckpt.index back)) e.index := by
  refine ⟨(withBaseline_alike _ _ _).1.trans (Alike.trans ?_ h.index.alike.symm), ?_, ?_⟩
  · rw [hbase.split, applyRecords_append]
    exact hbase.alike.applyRecords eq_kept _ _ _
  · rw [(withBaseline_alike _ _ _).2.1, h.index.cursor, hbase.split, applyRecords_append]
    exact applyRecords_lastLsn hbase.lastLsn _ _ _
  · rw [withBaseline_volumeSize hbase h.nonzero (hsb.volumeSize.trans h.index.capacity)
      (applyRecords_volumeSize _ _ _), h.index.capacity]

/-- Replay sees no id that the engine has not seen. -/
theorem recovered_ids {sb : Superblock} (h : Traced e segs last)
    (hbase : Base e.config (onDisk segs last) ckpt front back) (replayClock : Nat → Int64) :
    (withBaseline e.config sb (applyRecords replayClock ckpt.index back)).maxNeedleId ≤
      e.index.maxNeedleId := by
  rw [(withBaseline_alike _ _ _).2.2, h.index.largest, hbase.split, applyRecords_append]
  exact applyRecords_maxNeedleId hbase.largest _ _ _

end Replay

/-! ## Segments -/

section Segments

variable [Checksum] {e : WalEngine} {segs : List SegContents} {last : SegContents}

open SegContents

theorem readEntry_file {s : SegContents} (hid : s.header.segId.toNat = s.segId) :
    readEntry (file s) =
      .ok (entryOf (stateOf s.header) s) := by
  have hlen : ¬ (file s).bytes.length < segHeaderSize := by
    simp [file]
  have hhead : slice (file s).bytes 0 segHeaderSize = s.header.encode :=
    slice_head (by simp)
  unfold readEntry
  rw [if_neg hlen, hhead, Segment.decode_encode]
  dsimp only
  rw [show (file s).segId = s.segId from rfl, if_neg (not_not.mpr hid)]
  rfl

theorem readEntries_files (hids : ∀ s ∈ segs, s.header.segId.toNat = s.segId) :
    (segs.map file).mapM readEntry =
      .ok (segs.map fun s => entryOf (stateOf s.header) s) := by
  induction segs with
  | nil => rfl
  | cons s segs ih =>
    rw [map_cons, mapM_cons, readEntry_file (hids s (by simp)),
      ih fun t ht => hids t (by simp [ht])]
    rfl

omit [Checksum] in
theorem normalize_append (front : SegManifest) (x : SegEntry) :
    SegManifest.normalize (front ++ [x]) =
      front.map (fun y => { y with state := .sealed }) ++ [x] := by
  induction front with
  | nil => rfl
  | cons y front ih =>
    cases hf : front with
    | nil => rfl
    | cons z rest =>
      rw [hf] at ih
      rw [cons_append, cons_append, SegManifest.normalize, ← cons_append, ih]
      · rfl
      · simp

/-- The manifest that is read from the segment headers is the one the engine had. -/
theorem load_manifest (h : Stored e segs last) : load e.sink.files = .ok e.sink.manifest := by
  have hopen : stateOf last.header = .active := by
    have : last.header.isSealed = false := by
      rw [h.header]
      exact h.unsealed
    rw [stateOf, this]
    rfl
  unfold load
  rw [h.files_eq, readEntries_files h.ids, h.manifest]
  show Except.ok (normalize _) = _
  rw [map_append, map_singleton, normalize_append, map_map, hopen]
  rfl

theorem find_last (h : Stored e segs last) :
    e.sink.files.find? (fun f => decide (f.segId = last.segId)) =
      some (file last) := by
  have hord := h.ordered
  rw [map_append, pairwise_append] at hord
  have hnone : (segs.map file).find? (fun f => decide (f.segId = last.segId)) = none := by
    refine find?_eq_none.mpr fun f hf => ?_
    obtain ⟨s, hs, rfl⟩ := mem_map.mp hf
    have hlt := hord.2.2 s.segId (mem_map_of_mem hs) last.segId (by simp)
    exact fun hf => Nat.ne_of_lt hlt (of_decide_eq_true hf)
  rw [h.files_eq, map_append, find?_append, hnone]
  simp [file]

/-- The last segment is opened again for appending. -/
theorem openSegs_stored (h : Stored e segs last) (reads : ReadSplit)
    {replay : ReplayResult} (hstop : replay.stop = none) (hfiles : replay.files = e.sink.files)
    (baseLsn : Nat) (t : Int64) :
    ∃ sink, openSegs reads e.config replay e.sink.manifest baseLsn t = .ok sink := by
  have hactive : active e.sink.manifest = some (entryOf .active last) := by
    rw [active, h.manifest, getLast?_append]
    rfl
  have hfile : (file last).bytes = e.sink.writer.file := by
    rw [h.image.file, ← h.header, append_assoc]
    rfl
  obtain ⟨⟨w, summary⟩, hreopen⟩ := h.image.reopens
    (reads.nonempty last.segId _) (reads.join last.segId _) e.config.segSize
  unfold openSegs reopenFile
  rw [hstop, hactive, hfiles]
  dsimp only
  rw [show (entryOf .active last).segId = last.segId from rfl, find_last h]
  dsimp only
  rw [hfile, hreopen]
  exact ⟨_, rfl⟩

end Segments

/-! ## Opening again -/

section Reopen

variable [Checksum] {config : WalEngineConfig} {e : WalEngine}

/-- **What a sound engine leaves behind can be opened, and the index is the same**, unless it
has seen the largest id there is. -/
theorem reopen_sound (h : Sound config e) (hids : e.index.maxNeedleId < 2 ^ 64 - 1)
    (reads : ReadSplit) (replayClock clock : Nat → Int64) (ticks : Nat) :
    ∃ e', openEngine reads replayClock clock config e.volume ticks = some (.ok e') ∧
      SameIndex e'.index e.index := by
  obtain ⟨rfl, segs, last, sb, htr, hsb⟩ := h
  have hstored := htr.running.stored
  obtain ⟨ckpt, front, back, hckpt, hbase⟩ := loadCkpt_base htr.ckpts
  obtain ⟨r, hrecover, hidx, hstop, hfiles⟩ := recover_stored hstored hbase reads replayClock
  obtain ⟨hload, x, y, hpair, _, _⟩ := hsb.newest
  have hsuper : loadSuperblock e.config e.volume (clock ticks) = some (.ok sb) := by
    unfold loadSuperblock
    rw [show e.volume.superblock = e.superblock from rfl, hload]
    dsimp only
    rw [if_neg fun hcon => hcon.2 hsb.volumeId]
  obtain ⟨sink, hsegs⟩ := openSegs_stored hstored reads hstop hfiles
    ((withBaseline e.config sb r.replay.index).lastLsn + 1) (clock (ticks + 1))
  have hneedle : (withBaseline e.config sb r.replay.index).maxNeedleId + 1 < 2 ^ 64 := by
    have := @recovered_ids _ _ _ _ _ _ _ sb htr hbase replayClock
    rw [hidx]
    omega
  have hmount : ∃ m, mount reads replayClock clock e.config e.volume sb (ticks + 1) =
      some (.ok m) ∧ m.index = withBaseline e.config sb r.replay.index ∧
      m.superblock = e.superblock := by
    unfold mount
    rw [show e.volume.ckpts = e.ckpts from rfl, hckpt]
    rw [show e.volume.segs = e.sink.files from rfl, load_manifest hstored]
    dsimp only
    rw [hrecover]
    dsimp only
    rw [hsegs]
    dsimp only
    rw [nextNeedle, if_pos hneedle]
    exact ⟨_, rfl, rfl, rfl⟩
  obtain ⟨m, hmount, hmidx, hmsb⟩ := hmount
  have hstore : ∃ copies, storeSuperblock clock m.lastCkptSeq m = some (.ok (), { m with
      sbSeq := m.sbSeq + 1, ticks := m.ticks + 1, superblock := copies }) := by
    rw [storeSuperblock_eq, hmsb, hpair]
    rcases store_reads (reads_ofPair _ _) _ with hs | hs
    · rw [hs]
      exact ⟨_, rfl⟩
    · rw [hs]
      exact ⟨_, rfl⟩
  obtain ⟨copies, hstore⟩ := hstore
  have hsame := recovered_sameIndex htr hsb hbase replayClock
  rw [← hidx, ← hmidx] at hsame
  refine ⟨{ m with sbSeq := m.sbSeq + 1, ticks := m.ticks + 1, superblock := copies }, ?_, hsame⟩
  unfold openEngine
  rw [hsuper]
  dsimp only
  rw [hmount]
  dsimp only
  rw [hstore]

end Reopen

/-! ## The first opening -/

section Fresh

variable [Checksum] {config : WalEngineConfig} {e : WalEngine}

/-- The engine of a fresh volume before it stores its superblock. -/
def freshEngine (config : WalEngineConfig) (sb : Superblock) (sink : SegSink) (ticks : Nat) :
    WalEngine where
  config := config
  sink := sink
  ckpts := []
  superblock := ⟨none, none⟩
  index := withBaseline config sb WalIndex.empty
  nextLsn := 1
  commitError := none
  nextNeedleId := 1
  nextCkptSeq := 1
  sbSeq := sb.seq
  sbCreatedTs := sb.createdTs
  lastCkptLsn := 0
  lastCkptSeq := 0
  ticks := ticks

/-- There is nothing to load and nothing to replay. -/
theorem mount_fresh (reads : ReadSplit) (replayClock clock : Nat → Int64) (sb : Superblock)
    (ticks : Nat) : mount reads replayClock clock config Volume.fresh sb ticks =
    match EngineOpen.freshSegment config [] [] 1 (clock ticks) with
    | .error err => some (.error err)
    | .ok sink => some (.ok (freshEngine config sb sink (ticks + 1))) := rfl

/-- The sink of a fresh volume. -/
def freshSink (config : WalEngineConfig) (w : SegWriter) : SegSink :=
  ⟨[], w, [⟨1, .active, 1, config.volumeId⟩]⟩

theorem freshSegment_eq (t : Int64) : EngineOpen.freshSegment config [] [] 1 t =
    match SegWriter.create 1 config.volumeId 1 config.segSize config.preallocate t with
    | .error err => .error (.segment err)
    | .ok w => .ok (freshSink config w) := rfl

/-- The engine of a fresh volume has an empty segment and an empty index. -/
theorem freshEngine_traced {w : SegWriter} {slack : Nat} (himg : Image w [] slack)
    (hopen : w.isSealed = false) (hheader : w.header.segId = 1 ∧ w.header.baseLsn = 1 ∧
      w.header.volumeId = config.volumeId) (hsize : w.segSize = config.segSize)
    (hfits : segHeaderSize + frameHeaderSize ≤ config.segSize) (t : Int64) (ticks : Nat) :
    Traced (freshEngine config (initialSuperblock config t) (freshSink config w) ticks) []
      ⟨1, w.header, [], slack⟩ := by
  have hnone : onDisk [] ⟨1, w.header, [], slack⟩ = [] := rfl
  have hindex : (freshEngine config (initialSuperblock config t) (freshSink config w) ticks).index =
      WalIndex.empty.setVolumeSize config.volumeSize.toNat := by
    show withBaseline config (initialSuperblock config t) WalIndex.empty = _
    unfold withBaseline
    rw [if_pos (show WalIndex.empty.volumeSize = 0 from rfl)]
    split <;> rfl
  have hstored : Stored
      (freshEngine config (initialSuperblock config t) (freshSink config w) ticks) []
      ⟨1, w.header, [], slack⟩ := by
    refine ⟨rfl, himg, rfl, hopen, hsize, hfits, ?_, ?_, ?_, pairwise_singleton _ _⟩
    · simp [freshEngine, freshSink, entryOf, hheader.2.1, hheader.2.2]
    · exact wellFormed_append_empty ⟨by simp, by simp, by simp [records], by simp [records]⟩ rfl
    · intro s hs
      rw [mem_singleton.mp hs]
      rw [hheader.1]
      rfl
  refine ⟨⟨hstored, ?_, Nat.one_pos, Nat.one_lt_two_pow (by decide), le_refl _, rfl⟩, ?_, ?_, ?_,
    ?_, Nat.zero_le _⟩
  · rw [hnone]
    simp
  · rw [hnone, hindex]
    exact ⟨⟨fun _ => rfl, rfl, rfl, rfl, rfl⟩, rfl, rfl, rfl, empty_consistent,
      { empty_dated with }⟩
  · rw [hindex]
    exact config.volumeSize.toNat_lt
  · rw [hnone]
    simp
  · intro c hc
    cases hc

/-- A fresh volume has one segment, and nothing in it. -/
theorem open_fresh_traced {reads : ReadSplit} {replayClock clock : Nat → Int64} {ticks : Nat}
    (h : openEngine reads replayClock clock config Volume.fresh ticks = some (.ok e)) :
    e.config = config ∧ ∃ last sb, last.frames = [] ∧ Traced e [] last ∧
      SbCurrent e sb := by
  unfold openEngine at h
  rw [show loadSuperblock config Volume.fresh (clock ticks) =
    some (.ok (initialSuperblock config (clock ticks))) from rfl] at h
  dsimp only at h
  rw [mount_fresh, freshSegment_eq] at h
  by_cases hfits : segHeaderSize + frameHeaderSize ≤ config.segSize
  · obtain ⟨w, slack, hcreate, himg, hopen, hheader, hsize, _⟩ := @create_fits _ 1
      config.volumeId 1 _ config.preallocate (clock (ticks + 1)) hfits
    have htr := freshEngine_traced himg hopen (by rw [hheader]; exact ⟨rfl, rfl, rfl⟩) hsize hfits
      (clock ticks) (ticks + 2)
    obtain ⟨copies, hstore, htr', sb, hsb⟩ := @storeSuperblock_sound clock _ _ _ _ htr
      Nat.one_pos none none rfl (fun z hz => by cases hz) (fun z hz => by cases hz) 0
    rw [hcreate] at h
    dsimp only at h
    rw [show (freshEngine config (initialSuperblock config (clock ticks)) (freshSink config w)
      (ticks + 1 + 1)).lastCkptSeq = 0 from rfl, hstore] at h
    cases h
    exact ⟨rfl, _, sb, rfl, htr', hsb⟩
  · have hcreate : SegWriter.create 1 config.volumeId 1 config.segSize config.preallocate
        (clock (ticks + 1)) =
          .error (.segmentFull (segHeaderSize + frameHeaderSize) config.segSize) := by
      unfold SegWriter.create
      rw [if_pos (not_le.mp hfits)]
    rw [hcreate] at h
    cases h

/-- Opening a fresh volume gives a sound engine, which has seen no id. -/
theorem open_fresh {reads : ReadSplit} {replayClock clock : Nat → Int64} {ticks : Nat}
    (h : openEngine reads replayClock clock config Volume.fresh ticks = some (.ok e)) :
    Sound config e ∧ e.index.maxNeedleId = 0 := by
  obtain ⟨hconfig, last, sb, hframes, htr, hsb⟩ := open_fresh_traced h
  have hnone : onDisk [] last = [] := by
    simp [onDisk, records, SegContents.records, recordsOf, hframes]
  refine ⟨⟨hconfig, [], last, sb, htr, hsb⟩, ?_⟩
  rw [htr.index.largest, hnone]
  rfl

end Fresh

/-! ## Sessions -/

section Session

variable [Checksum] {reads : ReadSplit} {replayClock clock : Nat → Int64}
  {config : WalEngineConfig} {ops : List EngineOp} {o : HashOrder} {e e₁ : WalEngine}

/-- Open a fresh volume, make calls and close it: the engine before and after closing. -/
def session (reads : ReadSplit) (replayClock clock : Nat → Int64)
    (config : WalEngineConfig) (ops : List EngineOp) (o : HashOrder) :
    Option (WalEngine × WalEngine) :=
  match openEngine reads replayClock clock config Volume.fresh 0 with
  | some (.ok e₀) => (run clock e₀ ops).bind fun e =>
      (close clock o e).map fun e₁ => (e, e₁)
  | _ => none

theorem session_sound (h : session reads replayClock clock config ops o = some (e, e₁)) :
    Sound config e ∧ close clock o e = some e₁ ∧
      ∀ bound, 0 < bound → (∀ op ∈ ops, op.named < bound) → e.index.maxNeedleId < bound := by
  unfold session at h
  split at h
  · rename_i e₀ hopen
    obtain ⟨e', hrun, hmap⟩ := Option.bind_eq_some_iff.mp h
    obtain ⟨_, hclose, heq⟩ := Option.map_eq_some_iff.mp hmap
    cases heq
    obtain ⟨hfresh, hzero⟩ := open_fresh hopen
    obtain ⟨hsound, hids⟩ := run_sound ops hfresh hrun
    rw [hzero] at hids
    exact ⟨hsound, hclose, hids⟩
  · cases h

/-- **Recovery refines the online index.** Open a fresh volume, make any calls one after
another that do not write the largest id, and close the engine. However the files are read and
whatever the clocks show, opening the directory again succeeds with the index that the engine
had before it was closed, exactly when closing takes no checkpoint; if it takes one, the cursor
is behind the anchor of that checkpoint and the rest is the same. -/
theorem recovery_refines_online (h : session reads replayClock clock config ops o = some (e, e₁))
    (hids : ∀ op ∈ ops, op.named < 2 ^ 64 - 1)
    (reads' : ReadSplit) (replayClock' clock' : Nat → Int64) (ticks : Nat) :
    ∃ e₂, openEngine reads' replayClock' clock' config e₁.volume ticks = some (.ok e₂) ∧
      (SameIndex e₂.index e.index ↔ config.ckptOnClose = false) ∧
      SameIndex { e₂.index with lastLsn := e.index.lastLsn } e.index := by
  obtain ⟨hsound, hclose, hbound⟩ := session_sound h
  obtain ⟨hclosed, hcursor, lsn, anchor, hidx⟩ := close_sound hsound hclose
  have hmax : e₁.index.maxNeedleId < 2 ^ 64 - 1 := by
    rw [hidx]
    exact hbound _ (by decide) hids
  obtain ⟨e₂, hopen, hsame⟩ := reopen_sound hclosed hmax reads' replayClock' clock' ticks
  have hrest : SameIndex { e₂.index with lastLsn := e.index.lastLsn } e.index := by
    obtain ⟨halike, -, hsize⟩ := hsame
    rw [hidx] at halike hsize
    exact ⟨{ halike with }, rfl, hsize⟩
  refine ⟨e₂, hopen, ?_, hrest⟩
  rw [← hcursor, ← hsame.lastLsn]
  exact ⟨fun hall => hall.lastLsn, fun hlsn => ⟨{ hrest.alike with }, hlsn, hrest.volumeSize⟩⟩

end Session

local instance : Checksum := ⟨Lib.Crc32c.crc32c⟩

def sampleConfig : WalEngineConfig where
  segSize := 180
  volumeId := 7
  preallocate := true
  recoveryMode := .tolerateTail
  verifyOnRead := true
  maxDirtyBytes := 4096
  ckptOnClose := false
  volumeSize := 1000
  gc := ⟨fun dead live => decide (live < dead), 0⟩
  tombstoneRetentionSecs := 60

/-- Overwrites, a deletion, a checkpoint in between; the records take several segments. -/
def sampleOps : List EngineOp :=
  [.write 1 [10, 11], .write 2 [20], .write 1 [12], .checkpoint .byKey, .delete 1,
    .resize 500 (by decide), .write 3 [], .write 1 [13, 14, 15]]

def sampleClock (n : Nat) : Int64 := .ofNat n

set_option maxRecDepth 20000 in
theorem sampleOps_recovered : ∃ e e₁, session ReadSplit.whole sampleClock
      sampleClock sampleConfig sampleOps .byKey = some (e, e₁) ∧
    ∃ e₂, openEngine ReadSplit.whole sampleClock sampleClock sampleConfig
      e₁.volume 100 = some (.ok e₂) ∧ SameIndex e₂.index e.index := by
  have hsome : (session ReadSplit.whole sampleClock sampleClock sampleConfig
      sampleOps .byKey).isSome = true := by decide +kernel
  obtain ⟨⟨e, e₁⟩, hs⟩ := Option.isSome_iff_exists.mp hsome
  obtain ⟨e₂, hopen, hiff, -⟩ := recovery_refines_online hs (by decide) ReadSplit.whole sampleClock
    sampleClock 100
  exact ⟨e, e₁, hs, e₂, hopen, hiff.mpr rfl⟩

/-- The cursor before closing and after opening again; opening may panic or fail. -/
def cursors (config : WalEngineConfig) (ops : List EngineOp) : Option (Nat × Option (Option Nat)) :=
  (session ReadSplit.whole sampleClock sampleClock config ops .byKey).map
    fun (e, e₁) => (e.index.lastLsn,
      (openEngine ReadSplit.whole sampleClock sampleClock config e₁.volume
        100).map fun opened => opened.toOption.map fun e₂ => e₂.index.lastLsn)

set_option maxRecDepth 20000 in
/-- A volume with the largest id cannot be opened again, and the checkpoint that closing takes
has an anchor with an LSN of its own. -/
theorem largest_id_and_closing_anchor :
    cursors sampleConfig [.write 0xFFFFFFFFFFFFFFFF [1]] = some (1, none) ∧
    cursors { sampleConfig with ckptOnClose := true } [.write 1 [10]] =
      some (1, some (some 2)) := by
  decide +kernel

end PowerFS.Wal.Recovery
