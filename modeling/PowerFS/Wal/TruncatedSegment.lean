import PowerFS.Wal.TornWrite

/-! # A segment in the middle of the log that lost its end

A segment that is not the last one is truncated. If the cut leaves a visible part of
a frame, replay sees a torn segment and stops there or refuses. A cut between two
frames, or one that leaves only zeros of the next frame, looks like the end of the
segment: replay goes on behind the gap in every mode. -/
namespace PowerFS.Wal.TruncatedSegment
open Lib.ByteString Segment SegmentScan Index Payload Replay LogContents TornWrite List WalIndex

/-! ## Frames before and behind the cut -/

/-- The frames that lie whole in the first `n` bytes. -/
def keptFrames : Nat → List ScannedFrame → List ScannedFrame
  | _, [] => []
  | n, f :: fs => if frameSize f ≤ n then f :: keptFrames (n - frameSize f) fs else []

/-- The frames that do not. -/
def lostFrames : Nat → List ScannedFrame → List ScannedFrame
  | _, [] => []
  | n, f :: fs => if frameSize f ≤ n then lostFrames (n - frameSize f) fs else f :: fs

theorem kept_append_lost (n : Nat) (fs : List ScannedFrame) :
    keptFrames n fs ++ lostFrames n fs = fs := by
  induction fs generalizing n with
  | nil => rfl
  | cons f fs ih =>
    rw [keptFrames, lostFrames]
    split
    · rw [cons_append, ih]
    · rfl

theorem bodySize_kept_le (n : Nat) (fs : List ScannedFrame) : bodySize (keptFrames n fs) ≤ n := by
  induction fs generalizing n with
  | nil => exact Nat.zero_le n
  | cons f fs ih =>
    rw [keptFrames]
    split
    case isTrue hfit =>
      have := ih (n - frameSize f)
      simp only [bodySize, map_cons, sum_cons] at this ⊢
      omega
    case isFalse => exact Nat.zero_le n

/-- The first frame behind the cut does not fit. -/
theorem lost_short {n : Nat} {fs gs : List ScannedFrame} {f : ScannedFrame}
    (h : lostFrames n fs = f :: gs) : n - bodySize (keptFrames n fs) < frameSize f := by
  induction fs generalizing n with
  | nil => cases h
  | cons g fs ih =>
    rw [lostFrames] at h
    rw [keptFrames]
    split at h
    case isTrue hfit =>
      have := ih h
      rw [if_pos hfit]
      simp only [bodySize, map_cons, sum_cons] at this ⊢
      omega
    case isFalse hfit =>
      obtain ⟨rfl, _⟩ := cons.inj h
      rw [if_neg hfit]
      simp only [bodySize, map_nil, sum_nil]
      omega

/-! ## The truncated log -/

/-- A log and a place in a segment that is not the last one. -/
structure CutLog [Checksum] where
  before : List SegContents
  cut : SegContents
  behind : List SegContents
  /-- The new length of the file of `cut`. -/
  length : Nat
  wellFormed : WellFormed (before ++ cut :: behind)
  notLast : behind ≠ []
  header : segHeaderSize ≤ length

namespace CutLog

variable [Checksum]

def files (c : CutLog) : List SegFile :=
  c.before.map SegContents.file ++
    ⟨c.cut.segId, c.cut.file.bytes.take c.length⟩ ::
      c.behind.map SegContents.file

/-- How much of the body remains. -/
def room (c : CutLog) : Nat := c.length - segHeaderSize

def kept (c : CutLog) : List ScannedFrame := keptFrames c.room c.cut.frames

def lost (c : CutLog) : List ScannedFrame := lostFrames c.room c.cut.frames

def seed (c : CutLog) : UInt64 := c.cut.header.chainSeed

/-- The bytes between the last whole frame and the cut. -/
def leftover (c : CutLog) : Bytes :=
  (encodeFrames (lastLink c.seed c.kept) c.lost ++ zeros c.cut.slack).take
    (c.room - bodySize c.kept)

/-- All records, in the order of their LSNs. -/
def history (c : CutLog) : List Located := records (c.before ++ c.cut :: c.behind)

/-- A record lies behind the cut. -/
def Loses (c : CutLog) : Prop := ∃ f ∈ c.lost, isRecord f = true

/-- The tolerant modes recover a prefix of the history, and the strict mode refuses a
log that lost a record. -/
def Safe (c : CutLog) (reads : ReadSplit) (clock : Nat → Int64) : Prop :=
  (∀ mode, mode ≠ .absolute → ∃ res rs,
    replayAll reads clock mode 0 c.files WalIndex.empty = .ok res ∧
    rs <+: c.history ∧ res.index = applyRecords clock WalIndex.empty rs) ∧
  (c.Loses → ∃ e, replayAll reads clock .absolute 0 c.files WalIndex.empty = .error e)

section

variable (c : CutLog)

theorem kept_lost : c.kept ++ c.lost = c.cut.frames :=
  kept_append_lost c.room c.cut.frames

theorem cut_bytes : c.cut.file.bytes.take c.length =
    c.cut.header.encode ++ (encodeFrames c.seed c.kept ++ c.leftover) := by
  have hbody : c.cut.body = encodeFrames c.seed c.kept ++
      (encodeFrames (lastLink c.seed c.kept) c.lost ++ zeros c.cut.slack) := by
    rw [SegContents.body, ← append_assoc, ← encodeFrames_append, c.kept_lost]
    rfl
  have hlen : (encodeFrames c.seed c.kept).length = bodySize c.kept :=
    encodeFrames_length c.seed c.kept
  have hhead : c.cut.header.encode.length = segHeaderSize :=
    encode_length c.cut.header
  have hfit : bodySize c.kept ≤ c.room := bodySize_kept_le c.room c.cut.frames
  rw [SegContents.file, take_append, hhead, hbody, take_append, hlen,
    take_of_length_le (by rw [hhead]; exact c.header),
    take_of_length_le (by rw [hlen]; exact hfit)]
  rfl

/-- The segment as far as it is whole. -/
def keptSeg (c : CutLog) : SegContents := { c.cut with frames := c.kept }

theorem history_eq : c.history =
    records (c.before ++ [c.keptSeg]) ++ (recordsOf c.cut.segId c.lost ++ records c.behind) := by
  have hcut : SegContents.records c.cut =
      recordsOf c.cut.segId c.kept ++ recordsOf c.cut.segId c.lost := by
    rw [SegContents.records, ← recordsOf_append, c.kept_lost]
  simp only [history, records, flatMap_append, flatMap_cons, flatMap_nil,
    append_nil, hcut, append_assoc]
  rfl

theorem described : Described segHeaderSize c.kept ∧
    Described (segHeaderSize + bodySize c.kept) c.lost := by
  have h := c.wellFormed.described c.cut (by simp)
  rw [← c.kept_lost, described_append] at h
  exact h

theorem kept_wellFormed : WellFormed (c.before ++ [c.keptSeg]) :=
  c.wellFormed.kept rfl c.kept_lost

/-! ## What replay sees at the cut -/

/-- Replay comes to the cut with the records before it. -/
theorem replay_eq (reads : ReadSplit) (clock : Nat → Int64) (mode : RecoveryMode) :
    ∃ st, st.index = applyRecords clock empty (records (c.before ++ [c.keptSeg])) ∧
      replaySegments reads clock mode 0 none c.files ⟨empty, 0, 0, ∅, none, c.files⟩ =
        let s := scanBody (lastLink c.seed c.kept) (segHeaderSize + bodySize c.kept) c.leftover
        afterSegment (feed clock mode 0 none false c.cut.segId s.validEnd s.verdict s.frames st)
          (replaySegments reads clock mode 0 none (c.behind.map SegContents.file)) := by
  have hlog := c.kept_wellFormed
  obtain ⟨st, hadv, hreplay⟩ := replay_to_tail clock mode 0 reads c.before c.keptSeg
    c.leftover (c.behind.map SegContents.file)
    ⟨empty, 0, 0, ∅, none, c.files⟩ hlog (fun r hr _ => hlog.positive r hr)
  have hmore : (c.behind.map SegContents.file).isEmpty = false := by
    simpa using c.notLast
  refine ⟨st, ?_, ?_⟩
  · rw [hadv.index, liveFrom_zero hlog.positive]
  · have hfiles : c.files = c.before.map SegContents.file ++
        ⟨c.keptSeg.segId, c.keptSeg.header.encode ++ (encodeFrames
          c.keptSeg.header.chainSeed c.keptSeg.frames ++ c.leftover)⟩ ::
        c.behind.map (SegContents.file) := by
      rw [files, c.cut_bytes]
      rfl
    rw [hmore, ← hfiles] at hreplay
    exact hreplay

/-- The segments behind the cut are applied to whatever replay brings there. -/
theorem replay_behind (reads : ReadSplit) (clock : Nat → Int64)
    (mode : RecoveryMode) (st : ReplayState) (hst : st.index =
      applyRecords clock empty (records (c.before ++ [c.keptSeg]))) :
    ∃ st', replaySegments reads clock mode 0 none (c.behind.map SegContents.file) st = .ok st' ∧
      st'.index = applyRecords clock empty
        (records (c.before ++ [c.keptSeg]) ++ records c.behind) := by
  obtain ⟨hdesc, hengine, hsorted, hpos⟩ := c.wellFormed
  have hhist := c.history_eq
  rw [history] at hhist
  rw [hhist] at hsorted hpos
  obtain ⟨_, hrest, hcross⟩ := pairwise_append.mp hsorted
  obtain ⟨_, hbehind, _⟩ := pairwise_append.mp hrest
  have hkept := c.kept_wellFormed
  have hmem : ∀ s ∈ c.behind, s ∈ c.before ++ c.cut :: c.behind := fun s hs => by simp [hs]
  have hlater : ∀ r ∈ records c.behind, r ∈ recordsOf c.cut.segId c.lost ++ records c.behind :=
    fun r hr => mem_append_right _ hr
  obtain ⟨st', hreplay, hadv⟩ := replay_whole clock mode 0 reads c.behind [] st
    (fun s hs => hdesc s (hmem s hs)) (fun s hs => hengine s (hmem s hs)) hbehind (by
      intro r hr _
      rw [hst]
      refine applyRecords_below clock _ _ r.lsn ?_ ?_ ?_
      · exact hpos r (mem_append_right _ (hlater r hr))
      · intro q hq
        exact hcross q hq r (hlater r hr)
      · intro q hq
        obtain ⟨s, hs, _, hf, hrec⟩ := mem_records hq
        exact ⟨hkept.engine s hs _ hf, hrec⟩)
  rw [append_nil] at hreplay
  refine ⟨st', hreplay, ?_⟩
  rw [hadv.index, hst, liveFrom_zero (fun r hr => hpos r (mem_append_right _ (hlater r hr))),
    applyRecords_append]

/-- At the cut replay sees the end of a segment if only zeros are left of the next
frame, and a torn segment otherwise. -/
theorem scan_leftover :
    let s := scanBody (lastLink c.seed c.kept) (segHeaderSize + bodySize c.kept) c.leftover
    (allZero c.leftover = true → s = ⟨[], segHeaderSize + bodySize c.kept, .clean⟩) ∧
    (allZero c.leftover = false → ∃ need got,
      s = ⟨[], segHeaderSize + bodySize c.kept, .torn need got⟩) := by
  cases hlost : c.lost with
  | nil =>
    have hzeros : c.leftover = zeros (min (c.room - bodySize c.kept) c.cut.slack) := by
      rw [leftover, hlost, encodeFrames, nil_append, zeros, take_replicate]
      rfl
    rw [hzeros]
    refine ⟨fun _ => scanBody_zeros _ _ _, fun h => ?_⟩
    rw [allZero_zeros] at h
    cases h
  | cons f fs =>
    have hdesc := c.described.2
    rw [hlost] at hdesc
    have hshort : c.room - bodySize c.kept < frameSize f := lost_short hlost
    have hpart : c.leftover = (frameBytes (lastLink c.seed c.kept) f).take
        (c.room - bodySize c.kept) := by
      rw [leftover, hlost, encodeFrames, append_assoc, take_append_of_le_length]
      rw [frameBytes_length]
      omega
    obtain ⟨hclean, htorn⟩ := scanBody_partial hdesc.1 (lastLink c.seed c.kept) hshort
      (segHeaderSize + bodySize c.kept)
    rw [hpart]
    refine ⟨hclean, fun h => ?_⟩
    obtain ⟨need, hs⟩ := htorn h
    exact ⟨need, _, hs⟩

/-- A cut that leaves nothing visible is passed over in every mode. -/
theorem replay_passes (reads : ReadSplit) (clock : Nat → Int64)
    (mode : RecoveryMode) (h : allZero c.leftover = true) :
    ∃ res, replayAll reads clock mode 0 c.files empty = .ok res ∧
      res.index = applyRecords clock empty
        (records (c.before ++ [c.keptSeg]) ++ records c.behind) := by
  obtain ⟨st, hidx, hreplay⟩ := c.replay_eq reads clock mode
  obtain ⟨st', hbehind, hidx'⟩ := c.replay_behind reads clock mode st hidx
  rw [c.scan_leftover.1 h] at hreplay
  have hpass : replaySegments reads clock mode 0 none c.files
      ⟨empty, 0, 0, ∅, none, c.files⟩ = .ok st' := hreplay.trans hbehind
  unfold replayAll replayWith
  rw [hpass]
  exact ⟨_, rfl, hidx'⟩

/-- A visible part of a frame stops the tolerant modes and is refused by the strict one. -/
theorem replay_stops (reads : ReadSplit) (clock : Nat → Int64) (h : allZero c.leftover = false) :
    (∀ mode, mode ≠ .absolute → ∃ res, replayAll reads clock mode 0 c.files empty = .ok res ∧
      res.index = applyRecords clock empty (records (c.before ++ [c.keptSeg]))) ∧
    ∃ e, replayAll reads clock .absolute 0 c.files empty = .error e := by
  obtain ⟨need, got, hscan⟩ := c.scan_leftover.2 h
  unfold replayAll replayWith
  constructor
  · intro mode hmode
    obtain ⟨st, hidx, hreplay⟩ := c.replay_eq reads clock mode
    rw [hscan] at hreplay
    have hstop : replaySegments reads clock mode 0 none c.files ⟨empty, 0, 0, ∅, none, c.files⟩ =
          .ok (st.stopAt c.cut.segId (segHeaderSize + bodySize c.kept) .tornNonTail) := by
      rw [hreplay]
      cases mode with
      | absolute => exact absurd rfl hmode
      | tolerateTail | pointInTime => rfl
    rw [hstop]
    exact ⟨_, rfl, hidx⟩
  · obtain ⟨st, _, hreplay⟩ := c.replay_eq reads clock .absolute
    rw [hscan] at hreplay
    rw [hreplay]
    exact ⟨_, rfl⟩

/-- **When a truncated segment is noticed.** For every log over several segments and
every cut behind the header of a segment that is not the last one: the tolerant modes
recover a prefix of the history and the strict mode refuses lost records if and only if
no record was lost, or the bytes left of the frame at the cut are not all zero. -/
theorem truncation_safe_iff (c : CutLog) (reads : ReadSplit) (clock : Nat → Int64) :
    c.Safe reads clock ↔ ¬ c.Loses ∨ allZero c.leftover = false := by
  constructor
  · intro hsafe
    by_contra hcon
    obtain ⟨hloses, hzero⟩ := not_or.mp hcon
    obtain ⟨e, herr⟩ := hsafe.2 (not_not.mp hloses)
    obtain ⟨res, hres, _⟩ := c.replay_passes reads clock .absolute (by simpa using hzero)
    rw [herr] at hres
    cases hres
  · intro h
    cases hz : allZero c.leftover with
    | false =>
      obtain ⟨htolerant, hstrict⟩ := c.replay_stops reads clock hz
      refine ⟨fun mode hmode => ?_, fun _ => hstrict⟩
      obtain ⟨res, hres, hidx⟩ := htolerant mode hmode
      exact ⟨res, _, hres, by rw [c.history_eq]; exact prefix_append _ _, hidx⟩
    | true =>
      have hkeeps : ¬ c.Loses := by
        rcases h with h | h
        · exact h
        · rw [hz] at h; cases h
      -- only padding is behind the cut, so the whole history is applied
      have hnone : recordsOf c.cut.segId c.lost = [] := by
        rw [recordsOf, map_eq_nil_iff, filter_eq_nil_iff]
        intro f hf hrec
        exact hkeeps ⟨f, hf, hrec⟩
      refine ⟨fun mode _ => ?_, fun hl => absurd hl hkeeps⟩
      obtain ⟨res, hres, hidx⟩ := c.replay_passes reads clock mode hz
      refine ⟨res, c.history, hres, prefix_rfl, ?_⟩
      rw [hidx, c.history_eq, hnone, nil_append]

end

end CutLog

local instance : Checksum := ⟨Lib.Crc32c.crc32c⟩

/-- Three records of one byte, the first two in segment 1, which is cut between them. -/
def gapLog : CutLog where
  before := []
  cut := ⟨1, ⟨7, 1, 1, 0, 0⟩, [frameOf 68 .data 0 1 (DataPayload.encode ⟨1, [10]⟩),
    frameOf 107 .data 0 2 (DataPayload.encode ⟨2, [20]⟩)], 0⟩
  behind := [⟨2, ⟨7, 2, 3, 0, 0⟩, [frameOf 68 .data 0 3 (DataPayload.encode ⟨3, [30]⟩)], 0⟩]
  length := 107
  wellFormed := by
    refine ⟨?_, ?_, ?_, ?_⟩
    · intro s hs
      simp only [List.nil_append, List.mem_cons, List.not_mem_nil, or_false] at hs
      rcases hs with rfl | rfl
      · exact ⟨describes_frameOf _ _ _ _ (by decide), describes_frameOf _ _ _ _ (by decide),
          trivial⟩
      · exact ⟨describes_frameOf _ _ _ _ (by decide), trivial⟩
    · intro s hs f hf
      simp only [List.nil_append, List.mem_cons, List.not_mem_nil, or_false] at hs
      rcases hs with rfl | rfl
      · simp only [List.mem_cons, List.not_mem_nil, or_false] at hf
        rcases hf with rfl | rfl
        · exact ⟨⟨1, [10]⟩, by decide, rfl⟩
        · exact ⟨⟨2, [20]⟩, by decide, rfl⟩
      · rw [List.mem_singleton.mp hf]
        exact ⟨⟨3, [30]⟩, by decide, rfl⟩
    · decide
    · decide
  notLast := by decide
  header := by decide

/-- A cut between two frames goes unnoticed: the strict mode mounts the log without
record 2, and so does the tolerant mode, with record 3. -/
theorem gapLog_unnoticed : ¬ gapLog.Safe ReadSplit.whole (fun _ => 0) ∧ gapLog.Loses ∧
    ∀ mode, ∃ res, replayAll ReadSplit.whole (fun _ => 0) mode 0 gapLog.files
      WalIndex.empty = .ok res ∧
      res.index.needles.lookup 2 = none ∧ (res.index.needles.lookup 3).isSome = true := by
  have hloses : gapLog.Loses :=
    ⟨frameOf 107 .data 0 2 (DataPayload.encode ⟨2, [20]⟩), mem_singleton.mpr rfl, rfl⟩
  have hzero : allZero gapLog.leftover = true := by decide +kernel
  refine ⟨?_, hloses, ?_⟩
  · intro hsafe
    obtain ⟨e, herr⟩ := hsafe.2 hloses
    obtain ⟨res, hres, _⟩ := gapLog.replay_passes ReadSplit.whole (fun _ => 0) .absolute hzero
    rw [herr] at hres
    cases hres
  · intro mode
    obtain ⟨res, hres, hidx⟩ := gapLog.replay_passes ReadSplit.whole (fun _ => 0) mode hzero
    refine ⟨res, hres, ?_⟩
    rw [hidx]
    constructor
    · decide +kernel
    · decide +kernel

end PowerFS.Wal.TruncatedSegment
