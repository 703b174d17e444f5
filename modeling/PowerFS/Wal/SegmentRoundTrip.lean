import PowerFS.Lib.Crc32c
import PowerFS.Wal.SegmentScan

/-! # Segment files round-trip

What `SegWriter` lays out is what `SegReader` reads back. The writer keeps an image
invariant: the file is the header, the accepted frames end to end, at most one PAD
frame, and the zeros of the preallocation that are not used up yet. -/
namespace PowerFS.Wal.SegmentRoundTrip
open Lib.ByteString Wal.Frame Segment SegmentScan List SegWriter Checksum

section Images

variable [Checksum]

/-! ## The chain seed -/

/-- The chain seed is the checksum of the 44 bytes that sealing leaves alone. -/
theorem chainSeed_eq (h : SegmentHeader) : h.chainSeed = link (crc32c h.immutablePart) := by
  have hslice : slice h.encode 0 44 = h.immutablePart := by
    rw [SegmentHeader.encode, SegmentHeader.fieldPart, append_assoc, append_assoc]
    exact slice_head (by simp)
  rw [SegmentHeader.chainSeed, hslice]
  rfl

/-! ## The writer's image -/

/-- `w` holds the frames `fs`; `slack` preallocated zeros are left behind them. -/
structure Image (w : SegWriter) (fs : List ScannedFrame) (slack : Nat) : Prop where
  file : w.file = w.header.encode ++
    encodeFrames w.header.chainSeed fs ++ zeros slack
  described : Described segHeaderSize fs
  writePos : w.writePos = segHeaderSize + bodySize fs
  prevCrc : w.prevCrc = lastLink w.header.chainSeed fs
  room : w.writePos ≤ w.segSize

variable {w : SegWriter} {fs : List ScannedFrame} {slack : Nat} {payload : Bytes}

theorem create_image {segId volumeId baseLsn : UInt64} {segSize : Nat} {preallocate : Bool}
    {now : Int64} (h : create segId volumeId baseLsn segSize preallocate now = .ok w) :
    (∃ slack, Image w [] slack) ∧ w.isSealed = false := by
  unfold create at h
  split at h
  · cases h
  cases h
  have hroom : segHeaderSize ≤ segSize := by omega
  refine ⟨?_, ?_⟩
  · cases preallocate with
    | false => exact ⟨0, by simp [pwrite, encodeFrames, zeros], trivial, rfl, rfl, hroom⟩
    | true =>
      refine ⟨segSize - segHeaderSize, ?_, trivial, rfl, rfl, hroom⟩
      have := pwrite_zeros [] (SegmentHeader.encode ⟨segId, volumeId, baseLsn, now, 0⟩) segSize
      simpa [encodeFrames] using this
  · simp [isSealed, SegmentHeader.isSealed]

section

variable (h : Image w fs slack)
include h

/-- Writing a frame that fits at the write position extends the image by it. -/
theorem Image.putFrame {f : ScannedFrame}
    (hf : Describes w.writePos f) (hfit : w.writePos + frameSize f ≤ w.segSize) :
    Image (w.putFrame (frameBytes w.prevCrc f) f.fmeta (w.writePos + frameSize f))
      (fs ++ [f]) (slack - frameSize f) := by
  obtain ⟨hfile, hdesc, hpos, hprev, hroom⟩ := h
  have hlen : (w.header.encode ++
      encodeFrames w.header.chainSeed fs).length = w.writePos := by
    rw [length_append, encode_length, encodeFrames_length, hpos]
  have hbytes : encodeFrames w.header.chainSeed (fs ++ [f]) =
      encodeFrames w.header.chainSeed fs ++ frameBytes w.prevCrc f := by
    rw [encodeFrames_append, ← hprev]
    simp [encodeFrames]
  have hsize : bodySize (fs ++ [f]) = bodySize fs + frameSize f := by simp [bodySize]
  refine ⟨?_, ?_, ?_, ?_, hfit⟩
  · show pwrite w.file w.writePos (frameBytes w.prevCrc f) =
      w.header.encode ++ encodeFrames w.header.chainSeed (fs ++ [f]) ++
        zeros (slack - frameSize f)
    have := pwrite_zeros (w.header.encode ++
      encodeFrames w.header.chainSeed fs) (frameBytes w.prevCrc f) slack
    rw [hlen, frameBytes_length] at this
    rw [hfile, this, hbytes, append_assoc w.header.encode]
  · rw [described_append, ← hpos]
    exact ⟨hdesc, hf, trivial⟩
  · show w.writePos + frameSize f = _
    rw [hsize, hpos, Nat.add_assoc]
  · show link f.fmeta.crc = lastLink w.header.chainSeed (fs ++ [f])
    simp [lastLink]

/-- The frame `append` writes for a record at the write position. -/
def appended (w : SegWriter) (rtype : RecordType) (flags : UInt8) (lsn : UInt64)
    (payload : Bytes) : ScannedFrame :=
  frameOf w.writePos rtype flags lsn payload

omit h in
theorem appended_describes (w : SegWriter) (rtype : RecordType) (flags : UInt8) (lsn : UInt64)
    (h : payload.length < 2 ^ 32) :
    Describes w.writePos (appended w rtype flags lsn payload) :=
  describes_frameOf _ _ _ _ h

theorem padToEnd_image (lsn : UInt64)
    (hfit : frameHeaderSize ≤ w.remaining) (hshort : w.remaining - frameHeaderSize < 2 ^ 32) :
    ∃ pad slack', Image (w.padToEnd lsn).1 (fs ++ [pad]) slack' ∧
      pad.fmeta.rtype = .pad ∧ (w.padToEnd lsn).1.remaining = 0 := by
  have hroom := h.room
  have hlen : (zeros (w.remaining - frameHeaderSize)).length = w.remaining - frameHeaderSize := by
    simp
  have hend : w.writePos + frameSize (appended w .pad 0 lsn
      (zeros (w.remaining - frameHeaderSize))) = w.segSize := by
    simp only [frameSize, appended, frameOf, hlen, remaining] at *
    omega
  have himg := h.putFrame (appended_describes w .pad 0 lsn (by rwa [hlen])) (Nat.le_of_eq hend)
  rw [hend] at himg
  have hpad : (w.padToEnd lsn).1 = w.putFrame (frameBytes w.prevCrc
      (appended w .pad 0 lsn (zeros (w.remaining - frameHeaderSize))))
      (appended w .pad 0 lsn (zeros (w.remaining - frameHeaderSize))).fmeta w.segSize := by
    unfold padToEnd
    rw [if_neg (by omega)]
    simp only [appended, frameOf, hlen]
    rfl
  rw [hpad]
  exact ⟨_, _, himg, rfl, by simp [remaining, putFrame]⟩

/-- A record that fits is written behind the frames. -/
theorem append_fits (hopen : w.isSealed = false) (rtype : RecordType)
    (flags : UInt8) (lsn : UInt64) (hfit : frameHeaderSize + payload.length ≤ w.remaining)
    (hshort : payload.length < 2 ^ 32) :
    ∃ w', w.append rtype flags lsn payload =
        (w', .ok (appended w rtype flags lsn payload).fmeta) ∧
      (∃ slack', Image w' (fs ++ [appended w rtype flags lsn payload]) slack') ∧
      w'.header = w.header ∧ w'.segSize = w.segSize := by
  have hroom := h.room
  have himg := h.putFrame (appended_describes w rtype flags lsn hshort) (by
    simp only [frameSize, appended, frameOf, remaining] at *
    omega)
  refine ⟨_, ?_, ⟨_, himg⟩, rfl, rfl⟩
  unfold append
  simp only [hopen, Bool.false_eq_true, if_false, not_lt.mpr hfit]
  rfl

/-- A record that does not fit leaves the segment as it is, or padded to its end. -/
theorem append_full (hopen : w.isSealed = false) (rtype : RecordType)
    (flags : UInt8) (lsn : UInt64) (hfull : w.remaining < frameHeaderSize + payload.length)
    (hshort : payload.length < 2 ^ 32) :
    ∃ w', w.append rtype flags lsn payload =
        (w', .error (.segmentFull (frameHeaderSize + payload.length) w.remaining)) ∧
      w'.header = w.header ∧ w'.segSize = w.segSize ∧
      ((w' = w ∧ w.remaining < frameHeaderSize) ∨
        (frameHeaderSize ≤ w.remaining ∧ w'.remaining = 0 ∧ ∃ pad slack',
          Image w' (fs ++ [pad]) slack' ∧ pad.fmeta.rtype = .pad)) := by
  unfold append
  simp only [hopen, Bool.false_eq_true, if_false, hfull, if_true]
  by_cases hhead : frameHeaderSize ≤ w.remaining
  · obtain ⟨f, slack', himg, htype, hrem⟩ := padToEnd_image h lsn hhead (by omega)
    rw [if_pos hhead]
    refine ⟨_, rfl, ?_, ?_, Or.inr ⟨hhead, hrem, f, slack', himg, htype⟩⟩
    · rw [padToEnd, if_neg (by omega)]
      rfl
    · rw [padToEnd, if_neg (by omega)]
      rfl
  · rw [if_neg hhead]
    exact ⟨w, rfl, rfl, rfl, Or.inl ⟨rfl, by omega⟩⟩

/-! ## Runs of appends -/

structure AppendCall where
  rtype : RecordType
  flags : UInt8
  lsn : UInt64
  payload : Bytes

/-- Successive `append` calls: the writer left behind, and each accepted call with
the metadata it returned. -/
def appendAll : SegWriter → List AppendCall → SegWriter × List (AppendCall × FrameMeta)
  | w, [] => (w, [])
  | w, c :: cs =>
    let out := w.append c.rtype c.flags c.lsn c.payload
    let more := appendAll out.1 cs
    match out.2 with
    | .ok fmeta => (more.1, (c, fmeta) :: more.2)
    | .error _ => more

/-- An accepted record as the reader should return it: what the call passed in, at
the offset and with the checksum that `append` reported. -/
def recordOf (a : AppendCall × FrameMeta) : ScannedFrame :=
  ⟨⟨a.1.lsn, a.1.rtype, a.1.flags, a.2.offset, UInt32.ofNat a.1.payload.length, a.2.crc⟩,
    a.1.payload⟩

/-- At most one frame, a PAD that used up the segment. -/
def Padding (w : SegWriter) (pad : List ScannedFrame) : Prop :=
  pad = [] ∨ ∃ f, pad = [f] ∧ f.fmeta.rtype = .pad ∧ w.remaining = 0

/-- An unsealed writer that holds the records `fs`, possibly padded. -/
def Holds (w : SegWriter) (fs : List ScannedFrame) : Prop :=
  w.isSealed = false ∧ ∃ pad slack, Padding w pad ∧ Image w (fs ++ pad) slack

omit h in
/-- One `append` either adds its record or leaves the records as they were. -/
theorem append_holds (h : Holds w fs) (c : AppendCall) (hshort : c.payload.length < 2 ^ 32) :
    match w.append c.rtype c.flags c.lsn c.payload with
    | (w', .ok fmeta) => Holds w' (fs ++ [recordOf (c, fmeta)])
    | (w', .error _) => Holds w' fs := by
  obtain ⟨hopen, pad, slack, hpad, himg⟩ := h
  -- a padded segment has no room for another header
  have hnil : frameHeaderSize ≤ w.remaining → pad = [] := by
    intro hhead
    obtain hnil | ⟨f, _, _, hrem⟩ := hpad
    · exact hnil
    · rw [hrem, frameHeaderSize] at hhead
      omega
  by_cases hfull : w.remaining < frameHeaderSize + c.payload.length
  · obtain ⟨w', happend, hheader, _, hcase⟩ :=
      append_full himg hopen c.rtype c.flags c.lsn hfull hshort
    rw [happend]
    rcases hcase with ⟨rfl, _⟩ | ⟨hhead, hrem, f, slack', himg', htype⟩
    · exact ⟨hopen, pad, slack, hpad, himg⟩
    rw [hnil hhead, append_nil] at himg'
    refine ⟨?_, [f], slack', Or.inr ⟨f, rfl, htype, hrem⟩, himg'⟩
    rw [isSealed, hheader]
    exact hopen
  · rw [hnil (by omega), append_nil] at himg
    obtain ⟨w', happend, ⟨slack', himg'⟩, hheader, _⟩ :=
      append_fits himg hopen c.rtype c.flags c.lsn (not_lt.mp hfull) hshort
    rw [happend]
    refine ⟨?_, [], slack', Or.inl rfl, by rw [append_nil]; exact himg'⟩
    rw [isSealed, hheader]
    exact hopen

omit h in
theorem appendAll_holds (calls : List AppendCall) :
    ∀ (w : SegWriter) (fs : List ScannedFrame), Holds w fs →
      (∀ c ∈ calls, c.payload.length < 2 ^ 32) →
      Holds (appendAll w calls).1 (fs ++ (appendAll w calls).2.map recordOf) := by
  induction calls with
  | nil =>
    intro w fs h _
    simpa [appendAll] using h
  | cons c cs ih =>
    intro w fs h hshort
    have hstep := append_holds h c (hshort c (by simp))
    have hrest : ∀ d ∈ cs, d.payload.length < 2 ^ 32 := fun d hd => hshort d (by simp [hd])
    unfold appendAll
    generalize w.append c.rtype c.flags c.lsn c.payload = out at hstep ⊢
    obtain ⟨w', res⟩ := out
    cases res with
    | error e => exact ih w' fs hstep hrest
    | ok fmeta => simpa using ih w' _ hstep hrest

/-- Sealing rewrites the flags and the header checksum; the frames keep their links. -/
theorem seal_image :
    Image w.sealSegment fs slack ∧
      w.sealSegment.writePos = w.writePos := by
  unfold sealSegment
  split
  · exact ⟨h, rfl⟩
  obtain ⟨hfile, hdesc, hpos, hprev, hroom⟩ := h
  have hseed : SegmentHeader.chainSeed { w.header with flags := w.header.flags ||| segFlagSealed } =
        w.header.chainSeed := by
    rw [chainSeed_eq, chainSeed_eq]
    rfl
  refine ⟨⟨?_, hdesc, hpos, ?_, hroom⟩, rfl⟩
  · dsimp only
    rw [hseed, hfile, append_assoc, append_assoc, pwrite_head _ _ _ (by simp)]
  · rw [hseed, hprev]

/-! ## Reading back -/

/-- A file that carries an image is read back frame by frame. -/
theorem Image.readBack {chunks : List Bytes}
    (hne : ∀ c ∈ chunks, c ≠ []) (hsplit : chunks.flatten = w.file.drop segHeaderSize) :
    ∃ r, SegReader.openFile w.file chunks = .ok r ∧
      (nextFrames (fs.length + 1) r).1 =
        fs.map (fun f => .ok (some f)) ++ [.ok none] ∧
      (nextFrames (fs.length + 1) r).2.validEnd = w.writePos := by
  obtain ⟨hfile, hdesc, hpos, hprev, hroom⟩ := h
  rw [append_assoc] at hfile
  have hbody : w.file.drop segHeaderSize =
      encodeFrames w.header.chainSeed fs ++ zeros slack := by
    rw [hfile, ← encode_length w.header, drop_left]
  obtain ⟨r, hopen, _, hat⟩ := openFile_at w.header _ chunks hne (hsplit.trans hbody)
  have hscan : scanBody w.header.chainSeed segHeaderSize
      (encodeFrames w.header.chainSeed fs ++ zeros slack) =
        ⟨fs, w.writePos, .clean⟩ := by
    rw [scanBody_frames_zeros _ _ _ _ hdesc, hpos]
  obtain ⟨hres, hend⟩ := nextFrames_scanBody fs r _ _ _ hat (by rw [hscan])
  rw [hscan] at hres hend
  exact ⟨r, by rw [hfile]; exact hopen, hres, hend⟩

omit h in
theorem scanSummaryLoop_ok (fs : List ScannedFrame) : ∀ (n : Nat) (r : SegReader),
    (nextFrames (fs.length + 1) r).1 = fs.map (fun f => .ok (some f)) ++ [.ok none] →
    ∃ s, r.scanSummaryLoop n = .ok s := by
  induction fs with
  | nil =>
    intro n r h
    cases n with
    | zero => exact ⟨_, rfl⟩
    | succ n =>
      have hout : r.nextFrame.2 = .ok none := (cons.inj h).1
      rw [SegReader.scanSummaryLoop]
      generalize r.nextFrame = out at hout ⊢
      obtain ⟨r', res⟩ := out
      cases hout
      exact ⟨_, rfl⟩
  | cons f fs ih =>
    intro n r h
    cases n with
    | zero => exact ⟨_, rfl⟩
    | succ n =>
      obtain ⟨hout, hmore⟩ := cons.inj h
      rw [SegReader.scanSummaryLoop]
      generalize r.nextFrame = out at hout hmore ⊢
      obtain ⟨r', res⟩ := out
      cases hout
      exact ih n r' hmore

/-- A file that carries an image can be opened for appending. -/
theorem Image.reopens {chunks : List Bytes}
    (hne : ∀ c ∈ chunks, c ≠ []) (hsplit : chunks.flatten = w.file.drop segHeaderSize)
    (segSize : Nat) : ∃ out, reopen w.file chunks segSize = .ok out := by
  obtain ⟨r, hopen, hframes, _⟩ := h.readBack hne hsplit
  obtain ⟨s, hs⟩ := scanSummaryLoop_ok fs (r.fileSize + 1) r hframes
  unfold reopen SegReader.scanSummary
  rw [hopen]
  dsimp only
  rw [hs]
  exact ⟨_, rfl⟩

end

/-- **Segment files round-trip.** Whatever is appended to a created segment, sealed
or not, preallocated or not, is read back in order: the accepted records with the
fields they were appended with, at most one PAD frame, and then the clean end at
the writer's position. How the file is cut into reads does not matter. -/
theorem segment_round_trip {segId volumeId baseLsn : UInt64} {segSize : Nat}
    {preallocate : Bool} {now : Int64} {w₀ w : SegWriter} {calls : List AppendCall}
    {sealIt : Bool} {chunks : List Bytes}
    (hcreate : SegWriter.create segId volumeId baseLsn segSize preallocate now = .ok w₀)
    (hshort : ∀ c ∈ calls, c.payload.length < 2 ^ 32)
    (hw : w = if sealIt then (appendAll w₀ calls).1.sealSegment
      else (appendAll w₀ calls).1)
    (hne : ∀ c ∈ chunks, c ≠ []) (hsplit : chunks.flatten = w.file.drop segHeaderSize) :
    ∃ r pad, SegReader.openFile w.file chunks = .ok r ∧
      pad.length ≤ 1 ∧ (∀ f ∈ pad, f.fmeta.rtype = .pad) ∧
      let fs := (appendAll w₀ calls).2.map recordOf ++ pad
      (nextFrames (fs.length + 1) r).1 =
        fs.map (fun f => .ok (some f)) ++ [.ok none] ∧
      (nextFrames (fs.length + 1) r).2.validEnd = w.writePos := by
  obtain ⟨⟨slack₀, himg₀⟩, hopen₀⟩ := create_image hcreate
  have hstart : Holds w₀ [] := ⟨hopen₀, [], slack₀, Or.inl rfl, himg₀⟩
  obtain ⟨_, pad, slack, hpad, himg⟩ := appendAll_holds calls w₀ [] hstart hshort
  rw [nil_append] at himg
  have hfinal : Image w ((appendAll w₀ calls).2.map recordOf ++ pad) slack := by
    cases sealIt with
    | false => rw [hw]; exact himg
    | true => rw [hw]; exact (seal_image himg).1
  obtain ⟨r, hopen, hres, hend⟩ := hfinal.readBack hne hsplit
  refine ⟨r, pad, hopen, ?_, ?_, hres, hend⟩
  · obtain rfl | ⟨f, rfl, _, _⟩ := hpad
    · exact Nat.zero_le 1
    · exact Nat.le_refl 1
  · obtain rfl | ⟨f, rfl, htype, _⟩ := hpad
    · intro f hf; cases hf
    intro g hg
    rw [mem_singleton.mp hg]
    exact htype

end Images

local instance : Checksum := ⟨Lib.Crc32c.crc32c⟩

def freshHeader : SegmentHeader := ⟨7, 1, 1, 0, 0⟩

/-- A preallocated segment of 256 bytes. -/
def freshSegment : SegWriter where
  file := pwrite (zeros 256) 0 freshHeader.encode
  header := freshHeader
  segSize := 256
  writePos := segHeaderSize
  prevCrc := freshHeader.chainSeed
  frameCount := 0
  lastMeta := none

/-- A record and then one that does not fit. -/
def twoCalls : List AppendCall :=
  [⟨.data, flagSyncBarrier, 1, [1, 2, 3]⟩, ⟨.delete, 0, 2, zeros 300⟩]

def paddedSegment : SegWriter :=
  (appendAll freshSegment twoCalls).1.sealSegment

/-- The first read returns five bytes, the second one the rest. -/
def paddedChunks : List Bytes :=
  [(paddedSegment.file.drop segHeaderSize).take 5, (paddedSegment.file.drop segHeaderSize).drop 5]

theorem paddedSegment_round_trip :
    ∃ r, ∃ pad : List ScannedFrame, SegReader.openFile paddedSegment.file paddedChunks = .ok r ∧
      pad.length ≤ 1 ∧
      let fs := (appendAll freshSegment twoCalls).2.map recordOf ++ pad
      (nextFrames (fs.length + 1) r).1 =
        fs.map (fun f => .ok (some f)) ++ [.ok none] ∧
      (nextFrames (fs.length + 1) r).2.validEnd = 256 := by
  have hcreate : create 7 1 1 256 true 0 = .ok freshSegment := rfl
  have hend : paddedSegment.writePos = 256 := by decide +kernel
  have hsplit : paddedChunks.flatten = paddedSegment.file.drop segHeaderSize := by
    simp only [paddedChunks, flatten_cons, flatten_nil, append_nil, take_append_drop]
  obtain ⟨r, pad, hopen, hlen, _, hres, hvalid⟩ :=
    @segment_round_trip _ 7 1 1 256 true 0 freshSegment paddedSegment twoCalls true paddedChunks
      hcreate (by decide +kernel) (if_pos rfl).symm (by decide +kernel) hsplit
  exact ⟨r, pad, hopen, hlen, hres, hvalid.trans hend⟩

end PowerFS.Wal.SegmentRoundTrip
