import PowerFS.Lib.Crc32c
import PowerFS.Wal.LogContents

/-! # A last write that did not reach the disk whole

A crash leaves a prefix of the last frame in the last segment. Behind it there is
nothing, or the zeros of the preallocation. Replay sees a torn tail in the first
case; in the second one the declared length fits, and the frame is judged by its
checksum. -/
namespace PowerFS.Wal.TornWrite
open Lib.ByteString Wal.Frame Segment SegmentScan Index Payload Replay LogContents List WalIndex
  Checksum

/-! ## Scanning part of a frame -/

variable {off k : Nat} {f : ScannedFrame}

theorem getD_take {b : Bytes} {i : Nat} (h : i < k) : (b.take k).getD i 0 = b.getD i 0 := by
  simp [h]

theorem getD_of_allZero {b : Bytes} (h : allZero b = true) (i : Nat) : b.getD i 0 = 0 := by
  rw [allZero, all_eq_true] at h
  by_cases hi : i < b.length
  · have := h _ (getElem_mem hi)
    simp only [beq_iff_eq] at this
    simp [getElem?_eq_getElem hi, this]
  · simp [getElem?_eq_none (Nat.le_of_not_lt hi)]

section Torn

variable [Checksum]

theorem decodeHeader_frameBytes (hf : Describes off f) (prev : UInt64) (rest : Bytes) :
    decodeHeader (frameBytes prev f ++ rest) 0 =
      .ok ⟨prev, f.fmeta.crc, f.fmeta.payloadLen, f.fmeta.rtype, f.fmeta.flags, f.fmeta.lsn⟩ := by
  rw [frameBytes, encodeFrame, hf.crc, hf.payloadLen, append_assoc]
  exact decodeHeader_encodeHeader _ _ 0

theorem totalSize_eq (hf : Describes off f) {h : FrameHeader}
    (hlen : h.len = f.fmeta.payloadLen) : h.totalSize = frameSize f := by
  rw [FrameHeader.totalSize, hlen, hf.payloadLen, UInt32.toNat_ofNat_of_lt' hf.short]
  rfl

theorem rtype_byte (prev : UInt64) (f : ScannedFrame) :
    (frameBytes prev f).getD 16 0 = f.fmeta.rtype.toU8 := by
  have := (slice_encodeHeader ⟨prev, computeFrameCrc f.fmeta.rtype.toU8 f.fmeta.flags
    f.fmeta.lsn f.payload, UInt32.ofNat f.payload.length, f.fmeta.rtype, f.fmeta.flags,
    f.fmeta.lsn⟩ f.payload).2.2.2.1
  exact this

theorem written_length (prev : UInt64) (hk : k < frameSize f) :
    ((frameBytes prev f).take k).length = k := by
  rw [length_take, frameBytes_length]
  omega

/-- A proper prefix of a frame is slack if it is all zero, and torn otherwise. -/
theorem scanOne_partial (hf : Describes off f) (prev : UInt64) (hk : k < frameSize f) :
    let b := (frameBytes prev f).take k
    (allZero b = true → scanOne b prev = .endOfData) ∧
    (allZero b = false → ∃ need, scanOne b prev = .torn need k) := by
  intro b
  have hlen : b.length = k := written_length _ hk
  by_cases hshort : k < frameHeaderSize
  · unfold scanOne
    rw [hlen, if_pos hshort]
    refine ⟨fun hz => by rw [if_pos hz], fun hz => ?_⟩
    rw [if_neg (by simp [hz])]
    exact ⟨_, rfl⟩
  · have hnz : allZero b = false := by
      cases hz : allZero b with
      | false => rfl
      | true =>
        have h0 := getD_of_allZero hz 16
        have h26 : 16 < k := by
          simp only [frameHeaderSize] at hshort
          omega
        rw [getD_take h26, rtype_byte] at h0
        exact absurd h0 (RecordType.toU8_ne_zero _)
    refine ⟨fun hz => absurd (hnz.symm.trans hz) (by decide), fun _ => ?_⟩
    have hdec : decodeHeader b 0 = .ok ⟨prev, f.fmeta.crc, f.fmeta.payloadLen, f.fmeta.rtype,
        f.fmeta.flags, f.fmeta.lsn⟩ := by
      rw [← decodeHeader_append b ((frameBytes prev f).drop k) 0 (by rw [hlen]; omega),
        take_append_drop]
      have := decodeHeader_frameBytes hf prev []
      rwa [append_nil] at this
    unfold scanOne
    rw [hlen, if_neg hshort, hdec]
    dsimp only
    rw [totalSize_eq hf rfl, if_pos hk]
    exact ⟨_, rfl⟩

theorem scanBody_partial (hf : Describes off f) (prev : UInt64) (hk : k < frameSize f)
    (start : Nat) : let b := (frameBytes prev f).take k
    (allZero b = true → scanBody prev start b = ⟨[], start, .clean⟩) ∧
    (allZero b = false → ∃ need, scanBody prev start b = ⟨[], start, .torn need k⟩) := by
  intro b
  obtain ⟨hzero, htorn⟩ := scanOne_partial hf prev hk
  refine ⟨fun hz => ?_, fun hz => ?_⟩
  · rw [scanBody_eq, hzero hz]
  · obtain ⟨need, hs⟩ := htorn hz
    exact ⟨need, by rw [scanBody_eq, hs]⟩

/-! ## A frame completed by zeros -/

/-- The first `k` bytes of a frame, filled up with zeros to its length. -/
def completed (prev : UInt64) (f : ScannedFrame) (k : Nat) : Bytes :=
  (frameBytes prev f).take k ++ zeros (frameSize f - k)

/-- The LSN on disk is zero although the checksum, which was written, still matches. -/
def LsnLost (prev : UInt64) (f : ScannedFrame) (k : Nat) : Prop :=
  let c := completed prev f k
  16 < k ∧ slice c 18 26 = zeros 8 ∧
    crc32c (f.fmeta.rtype.toU8 :: c.getD 17 0 :: (zeros 8 ++ c.drop frameHeaderSize)) = f.fmeta.crc

section Completed

variable {off : Nat} {f : ScannedFrame} {prev : UInt64} {k : Nat}

theorem completed_length (hk : k < frameSize f) : (completed prev f k).length = frameSize f := by
  rw [completed, length_append, written_length _ hk, zeros_length]
  omega

theorem slice_completed {i j : Nat} (hj : j ≤ k) (hk : k < frameSize f) :
    slice (completed prev f k) i j = slice (frameBytes prev f) i j := by
  have hlen := written_length prev hk
  rw [completed, slice_left (by omega)]
  conv_rhs => rw [← take_append_drop k (frameBytes prev f)]
  rw [slice_left (by omega)]

/-- With the type on disk the header can be read; flags and LSN may be lost. -/
theorem decodeHeader_completed (hf : Describes off f) (h16 : 16 < k)
    (hk : k < frameSize f) : decodeHeader (completed prev f k) 0 =
      .ok ⟨prev, f.fmeta.crc, f.fmeta.payloadLen, f.fmeta.rtype, (completed prev f k).getD 17 0,
        UInt64.ofNat (ofLE (slice (completed prev f k) 18 26))⟩ := by
  have hhead := decodeHeader_frameBytes hf prev []
  rw [append_nil] at hhead
  have hlen : ¬ (completed prev f k).length < frameHeaderSize := by
    rw [completed_length hk, frameSize]
    omega
  have hlen' : ¬ (frameBytes prev f).length < frameHeaderSize := by
    rw [frameBytes_length, frameSize]
    omega
  have htype : (completed prev f k).getD 16 0 = f.fmeta.rtype.toU8 := by
    have : (completed prev f k).getD 16 0 =
        ((frameBytes prev f).take k).getD 16 0 := by
      rw [completed]
      simp only [getD_eq_getElem?_getD]
      rw [getElem?_append_left (by rwa [written_length _ hk])]
    rw [this, getD_take h16, rtype_byte]
  unfold decodeHeader at hhead ⊢
  simp only [hlen', if_false, rtype_byte, RecordType.fromU8_toU8, Except.ok.injEq,
    FrameHeader.mk.injEq] at hhead
  obtain ⟨h1, h2, h3, _⟩ := hhead
  simp only [hlen, if_false, htype, RecordType.fromU8_toU8,
    slice_completed (show 8 ≤ k by omega) hk, slice_completed (show 12 ≤ k by omega) hk,
    slice_completed (show 16 ≤ k by omega) hk, h1, h2, h3]

/-- The frame that replay finds, if the checksum matches. -/
theorem scanOne_completed (hf : Describes off f) (h16 : 16 < k) (hk : k < frameSize f)
    (rest : Bytes) : let c := completed prev f k
    let lsn := UInt64.ofNat (ofLE (slice c 18 26))
    let got := computeFrameCrc f.fmeta.rtype.toU8 (c.getD 17 0) lsn (c.drop frameHeaderSize)
    scanOne (c ++ rest) prev =
      if got ≠ f.fmeta.crc then .corrupt (.crcMismatch lsn f.fmeta.crc got)
      else .frame ⟨prev, f.fmeta.crc, f.fmeta.payloadLen, f.fmeta.rtype, c.getD 17 0, lsn⟩
        (c.drop frameHeaderSize) (frameSize f) := by
  intro c lsn got
  have hclen : c.length = frameSize f := completed_length hk
  have hge : frameHeaderSize ≤ c.length := by rw [hclen, frameSize]; omega
  have h26 : ¬ (c ++ rest).length < frameHeaderSize := by
    rw [length_append]
    omega
  have hfit : ¬ (c ++ rest).length < frameSize f := by
    rw [length_append, hclen]
    omega
  have hpay : slice (c ++ rest) frameHeaderSize (frameSize f) = c.drop frameHeaderSize := by
    rw [slice_left (by omega), slice, ← hclen, take_of_length_le]
    rw [length_drop]
  unfold scanOne
  rw [if_neg h26, decodeHeader_append c rest 0 hge, decodeHeader_completed hf h16 hk]
  dsimp only
  rw [totalSize_eq hf rfl, if_neg hfit, hpay]
  simp only [ne_eq, not_true_eq_false, if_false]
  rfl

/-- Without the type the frame is not recognised. -/
theorem scanOne_untyped (h16 : k ≤ 16) (hk : k < frameSize f)
    (hnz : allZero ((frameBytes prev f).take k) = false) (rest : Bytes) :
    ∃ e, scanOne (completed prev f k ++ rest) prev = .corrupt e := by
  have hlen := written_length prev hk
  have hclen : (completed prev f k).length = frameSize f := completed_length hk
  have hge : frameHeaderSize ≤ (completed prev f k).length := by
    rw [hclen, frameSize]
    omega
  have h26 : ¬ (completed prev f k ++ rest).length < frameHeaderSize := by
    rw [length_append]
    omega
  have htype : (completed prev f k).getD 16 0 = 0 := by
    rw [completed, getD_eq_getElem?_getD, getElem?_append_right (by omega)]
    simp [zeros, getElem?_replicate]
    split <;> rfl
  have hdec : decodeHeader (completed prev f k) 0 = .error (.unknownType 0 0) := by
    unfold decodeHeader
    rw [if_neg (by omega), htype]
    rfl
  have hslice : allZero (slice (completed prev f k ++ rest) 0 frameHeaderSize) = false := by
    have hsplit : slice (completed prev f k ++ rest) 0 frameHeaderSize =
        (frameBytes prev f).take k ++ slice (zeros (frameSize f - k) ++ rest) 0
          (frameHeaderSize - k) := by
      rw [completed, append_assoc, slice, drop_zero, take_append, hlen,
        take_of_length_le (by rw [hlen, frameHeaderSize]; omega)]
      rfl
    rw [hsplit, allZero_append, hnz, Bool.false_and]
  unfold scanOne
  rw [if_neg h26, decodeHeader_append _ rest 0 hge, hdec]
  rw [hslice]
  exact ⟨_, rfl⟩

end Completed

/-! ## The torn log -/

/-- The offset at which the next frame of a segment goes. -/
def SegContents.endOffset (s : SegContents) : Nat := segHeaderSize + bodySize s.frames

/-- What the next frame of a segment links to. -/
def SegContents.endLink (s : SegContents) : UInt64 :=
  lastLink s.header.chainSeed s.frames

/-- The last segment after a write of `f` of which `k` bytes reached the disk. -/
def tornFile (s : SegContents) (f : ScannedFrame) (k : Nat) : SegFile :=
  ⟨s.segId, pwrite s.file.bytes (SegContents.endOffset s)
    ((frameBytes (SegContents.endLink s) f).take k)⟩

/-- The bytes behind the last whole frame. -/
def tornTail (s : SegContents) (f : ScannedFrame) (k : Nat) : Bytes :=
  (frameBytes (SegContents.endLink s) f).take k ++ zeros (s.slack - k)

open SegContents

theorem tornFile_bytes (s : SegContents) (f : ScannedFrame) (hk : k < frameSize f) :
    (tornFile s f k).bytes = s.header.encode ++
      (encodeFrames s.header.chainSeed s.frames ++ tornTail s f k) := by
  have hlen : (s.header.encode ++
      encodeFrames s.header.chainSeed s.frames).length =
        endOffset s := by
    rw [length_append, encode_length, encodeFrames_length]
    rfl
  have hwrite := pwrite_zeros (s.header.encode ++
    encodeFrames s.header.chainSeed s.frames)
    ((frameBytes (endLink s) f).take k) s.slack
  rw [hlen, written_length _ hk] at hwrite
  show pwrite (s.header.encode ++ (encodeFrames s.header.chainSeed
    s.frames ++ zeros s.slack)) _ _ = _
  rw [← append_assoc, hwrite, tornTail]
  simp

/-- A log whose last record is torn: the whole segments before the last one, the last
one without the record, the record and how much of it was written. Either there is no
preallocation left in the last segment, or the record fits into it. -/
structure TornLog where
  segs : List SegContents
  last : SegContents
  record : ScannedFrame
  written : Nat
  wellFormed : WellFormed (segs ++ [{ last with frames := last.frames ++ [record] }])
  isRecord : isRecord record = true
  proper : written < frameSize record
  room : last.slack = 0 ∨ frameSize record ≤ last.slack

namespace TornLog

def files (t : TornLog) : List SegFile :=
  t.segs.map SegContents.file ++ [tornFile t.last t.record t.written]

/-- All records but the last one. -/
def intact (t : TornLog) : List Located := records (t.segs ++ [t.last])

def prev (t : TornLog) : UInt64 := SegContents.endLink t.last

def writtenBytes (t : TornLog) : Bytes :=
  (frameBytes t.prev t.record).take t.written

/-- Replay in every mode succeeds, stops nowhere and gives the index of all records
but the last one. -/
def Harmless (t : TornLog) (reads : ReadSplit) (clock : Nat → Int64) : Prop :=
  ∀ mode, ∃ res, replayAll reads clock mode 0 t.files WalIndex.empty = .ok res ∧
    res.stop = none ∧ res.index = applyRecords clock WalIndex.empty t.intact

section

variable (t : TornLog)

theorem described :
    Described segHeaderSize t.last.frames ∧
    Describes (endOffset t.last) t.record := by
  have h := t.wellFormed.described _ (mem_append_right _ (mem_singleton.mpr rfl))
  obtain ⟨hfs, hf, _⟩ := (described_append segHeaderSize t.last.frames [t.record]).mp h
  exact ⟨hfs, hf⟩

/-- Without the torn record the log is well formed. -/
theorem intact_wellFormed : WellFormed (t.segs ++ [t.last]) :=
  t.wellFormed.kept rfl rfl

/-- The replay of a torn log comes down to what follows the last whole frame. -/
theorem replay_eq (reads : ReadSplit) (clock : Nat → Int64) (mode : RecoveryMode) :
    ∃ st, st.index = applyRecords clock empty t.intact ∧ st.stop = none ∧
      replaySegments reads clock mode 0 none t.files ⟨empty, 0, 0, ∅, none, t.files⟩ =
        let s := scanBody t.prev (endOffset t.last) (tornTail t.last t.record t.written)
        afterSegment (feed clock mode 0 none true t.last.segId s.validEnd s.verdict s.frames st)
          .ok := by
  have hlog := t.intact_wellFormed
  obtain ⟨st, hadv, hreplay⟩ := replay_to_tail clock mode 0 reads t.segs t.last
    (tornTail t.last t.record t.written) [] ⟨empty, 0, 0, ∅, none, t.files⟩
    hlog (fun r hr _ => hlog.positive r hr)
  rw [liveFrom_zero hlog.positive] at hadv
  refine ⟨st, hadv.index, hadv.stop, ?_⟩
  have hfile : tornFile t.last t.record t.written = ⟨t.last.segId,
      t.last.header.encode ++ (encodeFrames t.last.header.chainSeed
        t.last.frames ++ tornTail t.last t.record t.written)⟩ := by
    rw [← tornFile_bytes t.last t.record t.proper]
    rfl
  rw [← hfile] at hreplay
  exact hreplay

/-- Without preallocation the tail is the written prefix. -/
theorem tail_bare (h : t.last.slack = 0) : tornTail t.last t.record t.written = t.writtenBytes := by
  simp [tornTail, h, zeros, writtenBytes, prev]

/-- With it the tail is the frame completed by zeros, and more zeros. -/
theorem tail_filled (h : frameSize t.record ≤ t.last.slack) :
    tornTail t.last t.record t.written =
      completed t.prev t.record t.written ++ zeros (t.last.slack - frameSize t.record) := by
  have hk := t.proper
  rw [tornTail, completed, append_assoc, ← zeros_add, prev]
  congr 2
  omega

section

variable (reads : ReadSplit) (clock : Nat → Int64)
include reads clock

/-- If the rest of the last segment neither adds to the index nor stops replay, the
torn write was harmless. -/
theorem harmless_of_feed (h : ∀ mode (st : ReplayState),
      let s := scanBody t.prev (endOffset t.last) (tornTail t.last t.record t.written)
      ∃ st', feed clock mode 0 none true t.last.segId s.validEnd s.verdict s.frames st =
        .ok (.next st') ∧ st'.index = st.index ∧ st'.stop = st.stop) :
    t.Harmless reads clock := by
  intro mode
  obtain ⟨st, hidx, hstop, hreplay⟩ := t.replay_eq reads clock mode
  obtain ⟨st', hfeed, hidx', hstop'⟩ := h mode st
  dsimp only at hreplay
  rw [hfeed] at hreplay
  unfold replayAll replayWith
  rw [hreplay]
  exact ⟨_, rfl, hstop'.trans hstop, hidx'.trans hidx⟩

theorem harmless_of_bare (h : t.last.slack = 0) : t.Harmless reads clock := by
  refine t.harmless_of_feed reads clock ?_
  intro mode st
  obtain ⟨hzero, htorn⟩ := scanBody_partial t.described.2 t.prev t.proper (endOffset t.last)
  rw [t.tail_bare h]
  cases hz : allZero t.writtenBytes with
  | true => exact ⟨st, by rw [writtenBytes, hzero hz]; rfl, rfl, rfl⟩
  | false =>
    obtain ⟨need, hscan⟩ := htorn hz
    exact ⟨st.truncate t.last.segId (endOffset t.last),
      by rw [writtenBytes, hscan]; rfl, rfl, rfl⟩

theorem harmless_of_zero (h : allZero t.writtenBytes = true) : t.Harmless reads clock := by
  refine t.harmless_of_feed reads clock ?_
  intro mode st
  have htail : tornTail t.last t.record t.written =
      zeros (t.writtenBytes.length + (t.last.slack - t.written)) := by
    rw [zeros_add, ← eq_zeros_of_allZero h]
    rfl
  rw [htail, scanBody_zeros]
  exact ⟨st, rfl, rfl, rfl⟩

end

/-- The header that replay reads off the completed bytes. -/
def ghostHeader (t : TornLog) : FrameHeader :=
  let c := completed t.prev t.record t.written
  ⟨t.prev, t.record.fmeta.crc, t.record.fmeta.payloadLen, t.record.fmeta.rtype, c.getD 17 0,
    UInt64.ofNat (ofLE (slice c 18 26))⟩

/-- The frame that replay reads off the completed bytes. -/
def ghost (t : TornLog) : ScannedFrame :=
  frameAt (SegContents.endOffset t.last) t.ghostHeader
    ((completed t.prev t.record t.written).drop frameHeaderSize)

/-- The checksum of that frame. -/
def ghostCrc (t : TornLog) : UInt32 :=
  computeFrameCrc t.record.fmeta.rtype.toU8 t.ghost.fmeta.flags t.ghost.fmeta.lsn t.ghost.payload

theorem lsnBytes_of_zero (h : t.ghost.fmeta.lsn.toNat = 0) :
    slice (completed t.prev t.record t.written) 18 26 = zeros 8 := by
  set b := slice (completed t.prev t.record t.written) 18 26 with hb
  have hlen : b.length = 8 := by
    rw [hb, slice_length, completed_length t.proper, frameSize, frameHeaderSize]
    omega
  have hlt := ofLE_lt b
  rw [hlen] at hlt
  have hz : ofLE b = 0 := by
    have : (UInt64.ofNat (ofLE b)).toNat = ofLE b := UInt64.toNat_ofNat_of_lt' hlt
    rw [← this]
    exact h
  rw [eq_zeros_of_ofLE hz, hlen]

/-- A preallocated tail whose type byte was written is the ghost frame or corrupt. -/
theorem scan_filled (hroom : frameSize t.record ≤ t.last.slack) (h16 : 16 < t.written) :
    let s := scanBody t.prev (endOffset t.last) (tornTail t.last t.record t.written)
    (t.ghostCrc = t.record.fmeta.crc ∧ s.frames = [t.ghost] ∧ s.verdict = .clean) ∨
    (t.ghostCrc ≠ t.record.fmeta.crc ∧
      ∃ e, s = ⟨[], endOffset t.last, .corrupt e⟩) := by
  have hs : scanOne (completed t.prev t.record t.written ++
      zeros (t.last.slack - frameSize t.record)) t.prev =
      if t.ghostCrc ≠ t.record.fmeta.crc then
        .corrupt (.crcMismatch t.ghost.fmeta.lsn t.record.fmeta.crc t.ghostCrc)
      else .frame t.ghostHeader t.ghost.payload (frameSize t.record) :=
    scanOne_completed t.described.2 h16 t.proper _
  rw [t.tail_filled hroom, scanBody_eq, hs]
  by_cases hcrc : t.ghostCrc = t.record.fmeta.crc
  · have hlen : (completed t.prev t.record t.written).length = frameSize t.record :=
      completed_length t.proper
    rw [if_neg (not_not.mpr hcrc)]
    dsimp only
    rw [← hlen, drop_left, scanBody_zeros]
    exact .inl ⟨hcrc, rfl, rfl⟩
  · rw [if_pos hcrc]
    exact .inr ⟨hcrc, _, rfl⟩

section

variable (reads : ReadSplit) (clock : Nat → Int64) (hroom : frameSize t.record ≤ t.last.slack)
include hroom

theorem harmless_of_lsnLost (h : LsnLost t.prev t.record t.written) : t.Harmless reads clock := by
  obtain ⟨h16, hlsn, hcrc⟩ := h
  have hzero : t.ghost.fmeta.lsn = 0 := by
    show UInt64.ofNat (ofLE (slice (completed t.prev t.record t.written) 18 26)) = 0
    rw [hlsn]
    decide
  have hghost : t.ghostCrc = t.record.fmeta.crc := by
    rw [ghostCrc, hzero]
    exact hcrc
  refine t.harmless_of_feed reads clock ?_
  intro mode st
  obtain ⟨_, hframes, hverdict⟩ | ⟨hne, _⟩ := t.scan_filled hroom h16
  · dsimp only
    rw [hframes, hverdict, feed]
    have hpad : t.ghost.fmeta.rtype ≠ .pad := of_decide_eq_true t.isRecord
    have hskip : onFrame clock mode 0 t.last.segId st t.ghost =
        .ok (.next { st with framesSkipped := st.framesSkipped + 1 }) := by
      unfold onFrame
      rw [hzero, if_pos ⟨hpad, Nat.le_refl 0⟩]
    rw [hskip]
    exact ⟨_, rfl, rfl, rfl⟩
  · exact absurd hghost hne

/-- A checksum that does not match is corruption, in the last segment too. -/
theorem replay_crcMismatch (h16 : 16 < t.written) (hne : t.ghostCrc ≠ t.record.fmeta.crc) :
    (∃ e, replayAll reads clock .absolute 0 t.files empty =
      .error (.corrupt t.last.segId (endOffset t.last) e)) ∧
    ∃ res, replayAll reads clock .tolerateTail 0 t.files empty = .ok res ∧
      res.stop = some ⟨t.last.segId, endOffset t.last, .corrupt⟩ := by
  obtain ⟨hcrc, _⟩ | ⟨_, e, hscan⟩ := t.scan_filled hroom h16
  · exact absurd hcrc hne
  obtain ⟨st, _, _, hreplay⟩ := t.replay_eq reads clock .absolute
  obtain ⟨st', _, _, hreplay'⟩ := t.replay_eq reads clock .tolerateTail
  rw [hscan] at hreplay hreplay'
  unfold replayAll replayWith
  rw [hreplay, hreplay']
  exact ⟨⟨e, rfl⟩, _, rfl, rfl⟩

/-- A ghost frame with an LSN above zero is refused in the strict mode, or applied. -/
theorem ghost_changes (h16 : 16 < t.written) (hcrc : t.ghostCrc = t.record.fmeta.crc)
    (hlost : ¬ LsnLost t.prev t.record t.written) {res : ReplayResult}
    (hres : replayAll reads clock .absolute 0 t.files empty = .ok res)
    (hindex : res.index = applyRecords clock empty t.intact) : False := by
  obtain ⟨st, hidx, _, hreplay⟩ := t.replay_eq reads clock .absolute
  obtain ⟨_, hframes, hverdict⟩ | ⟨hne, _⟩ := t.scan_filled hroom h16
  swap
  · exact hne hcrc
  unfold replayAll replayWith at hres
  rw [hreplay] at hres
  dsimp only at hres
  rw [hframes, hverdict, feed] at hres
  have hlsn : t.ghost.fmeta.lsn.toNat ≠ 0 := by
    intro h0
    have hz : t.ghost.fmeta.lsn = 0 := UInt64.toNat_inj.mp h0
    rw [ghostCrc, hz] at hcrc
    exact hlost ⟨h16, t.lsnBytes_of_zero h0, hcrc⟩
  have htype : EngineType t.ghost.fmeta.rtype := by
    have hf : EngineFrame t.record := t.wellFormed.engine _
      (mem_append_right _ (mem_singleton.mpr rfl)) _ (by simp)
    exact hf.engineType t.isRecord
  have hnew : ¬ (t.ghost.fmeta.rtype ≠ .pad ∧ t.ghost.fmeta.lsn.toNat ≤ 0) :=
    fun h => hlsn (Nat.le_zero.mp h.2)
  by_cases hold : t.ghost.fmeta.lsn.toNat ≤ st.index.lastLsn
  · rw [onFrame, if_neg hnew, if_pos ⟨htype.1, hold⟩, if_pos rfl] at hres
    cases hres
  · have habove : ¬ (t.ghost.fmeta.rtype ≠ .pad ∧ t.ghost.fmeta.lsn.toNat ≤ st.index.lastLsn) :=
      fun h => hold h.2
    obtain herr | ⟨idx, hok, hlast⟩ := applyFrame_cases st.index t.last.segId t.ghost
      (clock t.ghost.fmeta.lsn.toNat) htype
    · rw [onFrame, if_neg hnew, if_neg habove, herr] at hres
      cases hres
    · rw [onFrame, if_neg hnew, if_neg habove, hok] at hres
      have hfinal : res.index = idx := by
        cases hres
        rfl
      -- the cursor of the index shows that the ghost was applied
      rw [← hfinal, hindex, ← hidx] at hlast
      omega

/-- Replay in the strict mode refuses every other torn write, or applies more than the
intact records. -/
theorem not_harmless (hnz : allZero t.writtenBytes = false)
    (hlost : ¬ LsnLost t.prev t.record t.written) : ¬ t.Harmless reads clock := by
  intro hharm
  obtain ⟨res, hres, _, hindex⟩ := hharm .absolute
  by_cases h16 : 16 < t.written
  · by_cases hcrc : t.ghostCrc = t.record.fmeta.crc
    · exact t.ghost_changes reads clock hroom h16 hcrc hlost hres hindex
    obtain ⟨⟨e, herr⟩, _⟩ := t.replay_crcMismatch reads clock hroom h16 hcrc
    rw [herr] at hres
    cases hres
  · obtain ⟨e, hs⟩ := scanOne_untyped (Nat.le_of_not_lt h16) t.proper hnz
      (zeros (t.last.slack - frameSize t.record))
    obtain ⟨st, _, _, hreplay⟩ := t.replay_eq reads clock .absolute
    rw [t.tail_filled hroom, scanBody_eq, hs] at hreplay
    unfold replayAll replayWith at hres
    rw [hreplay] at hres
    cases hres

end

/-- **When a torn last write is harmless.** For every log, every proper prefix of its
last record and every checksum function: replay succeeds in all three modes, stops
nowhere and gives the index of the other records if and only if nothing was
preallocated behind the prefix, or the prefix is all zero, or the prefix completed by
zeros has LSN zero under a matching checksum. -/
theorem torn_write_harmless_iff (t : TornLog) (reads : ReadSplit) (clock : Nat → Int64) :
    t.Harmless reads clock ↔ t.last.slack = 0 ∨ allZero t.writtenBytes = true ∨
      LsnLost t.prev t.record t.written := by
  constructor
  · intro h
    by_contra hcon
    obtain ⟨hslack, hrest⟩ := not_or.mp hcon
    obtain ⟨hnz, hlost⟩ := not_or.mp hrest
    obtain h0 | hroom := t.room
    · exact hslack h0
    · exact t.not_harmless reads clock hroom (by simpa using hnz) hlost h
  · intro h
    obtain h | h | h := h
    · exact t.harmless_of_bare reads clock h
    · exact t.harmless_of_zero reads clock h
    obtain h0 | hroom := t.room
    · exact t.harmless_of_bare reads clock h0
    · exact t.harmless_of_lsnLost reads clock hroom h

end

end TornLog

end Torn

local instance : Checksum := ⟨Lib.Crc32c.crc32c⟩

/-- The first record of a preallocated segment, of which 40 bytes reached the disk. -/
def tornData : TornLog where
  segs := []
  last := ⟨1, ⟨7, 1, 1, 0, 0⟩, [], 60⟩
  record := frameOf segHeaderSize .data 0 1 (DataPayload.encode ⟨5, [1, 2, 3, 4]⟩)
  written := 40
  wellFormed := by
    refine ⟨?_, ?_, ?_, ?_⟩
    · intro s hs
      rw [List.mem_singleton.mp hs]
      exact ⟨describes_frameOf _ _ _ _ (by decide), trivial⟩
    · intro s hs f hf
      rw [List.mem_singleton.mp hs] at hf
      rw [List.mem_singleton.mp hf]
      exact ⟨⟨5, [1, 2, 3, 4]⟩, by decide, rfl⟩
    · exact List.pairwise_singleton _ _
    · intro r hr
      rw [List.mem_singleton.mp hr]
      decide
  isRecord := rfl
  proper := by decide
  room := Or.inr (by decide)

/-- A torn write into a preallocated segment is reported as corruption: the strict mode
fails, the tolerant one stops. -/
theorem tornData_corrupt : ¬ tornData.Harmless ReadSplit.whole (fun _ => 0) ∧
    (∃ e, replayAll ReadSplit.whole (fun _ => 0) .absolute 0 tornData.files
      WalIndex.empty = .error (.corrupt 1 segHeaderSize e)) ∧
    ∃ res, replayAll ReadSplit.whole (fun _ => 0) .tolerateTail 0 tornData.files
      WalIndex.empty = .ok res ∧ res.stop = some ⟨1, segHeaderSize, .corrupt⟩ := by
  have hcrc : tornData.ghostCrc ≠ tornData.record.fmeta.crc := by decide +kernel
  have hroom : frameSize tornData.record ≤ tornData.last.slack := by decide
  obtain ⟨⟨e, herr⟩, res, hres, hstop⟩ :=
    tornData.replay_crcMismatch ReadSplit.whole (fun _ => 0) hroom (by decide) hcrc
  refine ⟨?_, ⟨e, herr⟩, res, hres, hstop⟩
  intro hharm
  obtain ⟨res', hres', _⟩ := hharm .absolute
  rw [herr] at hres'
  cases hres'

end PowerFS.Wal.TornWrite
