import PowerFS.Lib.ChunkScan
import PowerFS.Wal.Segment

/-! # What a segment reader sees

`next_frame` buffers chunks until `scan_one` gives a verdict that more bytes cannot
change. Its result therefore depends on the bytes ahead of the cursor and not on
how reads cut them. `scanBody` is the reading of a whole segment body that results
from calling `next_frame` until it stops returning frames. -/
namespace PowerFS.Wal.SegmentScan
open Lib.ByteString Lib.ChunkScan Wal.Frame Segment List SegReader

/-! ## Verdicts that more bytes cannot change -/

/-- Frames and corruption are final; the other verdicts wait for the end of file. -/
def final : ScanOne → Bool
  | .frame _ _ _ => true
  | .corrupt _ => true
  | .endOfData => false
  | .torn _ _ => false

theorem decodeHeader_append (a b : Bytes) (offset : Nat) (h : frameHeaderSize ≤ a.length) :
    decodeHeader (a ++ b) offset = decodeHeader a offset := by
  have h26 : 26 ≤ a.length := h
  have ha : ¬ a.length < frameHeaderSize := by omega
  have hab : ¬ (a ++ b).length < frameHeaderSize := by simp; omega
  have hget : ∀ i, i < 26 → (a ++ b).getD i 0 = a.getD i 0 := by
    intro i hi
    simp [getElem?_append_left (show i < a.length by omega)]
  unfold decodeHeader
  simp only [ha, hab, if_false, hget 16 (by omega), hget 17 (by omega),
    slice_left (show 8 ≤ a.length by omega), slice_left (show 12 ≤ a.length by omega),
    slice_left (show 16 ≤ a.length by omega), slice_left (show 26 ≤ a.length by omega)]

variable [Checksum]

theorem scanOne_stable (prev : UInt64) : Stable (scanOne · prev) final := by
  intro a b h
  by_cases ha : a.length < frameHeaderSize
  · -- a short buffer only ever asks for more
    unfold scanOne at h
    simp only [ha, if_true] at h
    split at h <;> cases h
  · have hab : ¬ (a ++ b).length < frameHeaderSize := by simp; omega
    have hdec := decodeHeader_append a b 0 (by omega)
    have hzero : slice (a ++ b) 0 frameHeaderSize = slice a 0 frameHeaderSize :=
      slice_left (by omega)
    unfold scanOne at h ⊢
    simp only [ha, hab, if_false, hdec, hzero] at h ⊢
    cases hd : decodeHeader a 0 with
    | error e => cases e <;> rfl
    | ok hdr =>
      rw [hd] at h
      by_cases hfit : a.length < hdr.totalSize
      · simp only [hfit, if_true] at h
        cases h
      have hfit' : ¬ (a ++ b).length < hdr.totalSize := by simp; omega
      have hpay : slice (a ++ b) frameHeaderSize hdr.totalSize =
          slice a frameHeaderSize hdr.totalSize := slice_left (by omega)
      simp only [hfit, hfit', if_false, hpay]

theorem scanOne_nil (prev : UInt64) : scanOne [] prev = .endOfData := by
  simp [scanOne, frameHeaderSize, allZero]

variable {prev : UInt64} {r : SegReader} {off : Nat}

/-- A frame is at least a header long and lies within the buffer. -/
theorem scanOne_consumed {buf : Bytes} {h : FrameHeader} {p : Bytes} {n : Nat}
    (hs : scanOne buf prev = .frame h p n) : frameHeaderSize ≤ n ∧ n ≤ buf.length := by
  unfold scanOne at hs
  split at hs
  · split at hs <;> cases hs
  split at hs
  · split at hs <;> cases hs
  · cases hs
  dsimp only at hs
  split at hs
  · cases hs
  split at hs
  · cases hs
  split at hs
  · cases hs
  cases hs
  simp only [FrameHeader.totalSize] at *
  omega

/-! ## The reader's cursor -/

/-- The reader stands at offset `off` of the file, expects `prev` as the next link
and has the bytes `ahead` in front of it. -/
structure At (r : SegReader) (off : Nat) (prev : UInt64) (ahead : Bytes) : Prop where
  start : r.bufStart = off
  validEnd : r.validEnd = off
  prevCrc : r.prevCrc = prev
  ahead : r.buf ++ r.unread.flatten = ahead
  chunks : ∀ c ∈ r.unread, c ≠ []
  eof : r.eof = true → r.unread = []

/-- The reader after it pulled chunks until `scan_one` was certain. -/
def pulled (r : SegReader) : SegReader :=
  let p := pull (scanOne · r.prevCrc) final r.buf r.unread
  { r with buf := p.1, unread := p.2, eof := r.eof || !final (scanOne p.1 r.prevCrc) }

/-- `next_frame` on a buffer whose verdict is certain. -/
def conclude (r : SegReader) : SegReader × Except ScanError (Option ScannedFrame) :=
  match scanOne r.buf r.prevCrc with
  | .frame header payload consumed =>
    (r.advance (r.metaOf header) consumed, .ok (some ⟨r.metaOf header, payload⟩))
  | .endOfData => (r, .ok none)
  | .torn need got => (r, .error (.tornTail r.bufStart need got))
  | .corrupt e => (r, .error (.corrupt e))

theorem examine_certain (h : final (scanOne r.buf r.prevCrc) = true ∨ r.eof = true) :
    r.examine = some (conclude r) := by
  unfold examine conclude
  by_cases hne : r.buf = []
  · rw [hne, scanOne_nil] at h ⊢
    obtain h | h := h
    · cases h
    · simp [h]
  · simp only [hne, ne_eq, not_false_eq_true, if_true]
    cases hs : scanOne r.buf r.prevCrc with
    | frame | corrupt => rfl
    | endOfData | torn =>
      rw [hs] at h
      obtain h | h := h
      · cases h
      · simp [h]

theorem examine_pending (heof : r.eof = false) (h : final (scanOne r.buf r.prevCrc) = false) :
    r.examine = none := by
  unfold examine
  by_cases hne : r.buf = []
  · simp [hne, heof]
  simp only [hne, ne_eq, not_false_eq_true, if_true]
  cases hs : scanOne r.buf r.prevCrc with
  | frame | corrupt => rw [hs] at h; cases h
  | endOfData | torn => simp [heof]

/-- With one pass per unread chunk and two to spare the loop comes to a verdict on
the pulled buffer. -/
theorem nextFrameLoop_eq (chunks : List Bytes) :
    ∀ (r : SegReader) (n : Nat), r.unread = chunks → (∀ c ∈ chunks, c ≠ []) →
      (r.eof = true → r.unread = []) → chunks.length + 2 ≤ n →
      r.nextFrameLoop n = conclude (pulled r) := by
  induction chunks with
  | nil =>
    intro r n hun _ _ hn
    obtain ⟨n, rfl⟩ : ∃ k, n = k + 2 := ⟨n - 2, by simp at hn; omega⟩
    have hp : pulled r =
        { r with eof := r.eof || !final (scanOne r.buf r.prevCrc) } := by
      simp [pulled, hun, pull]
    by_cases hc : final (scanOne r.buf r.prevCrc) = true ∨ r.eof = true
    · have hpr : pulled r = r := by
        obtain hf | he := hc
        · rw [hp, hf]; simp
        · have : (r.eof || !final (scanOne r.buf r.prevCrc)) = r.eof := by simp [he]
          rw [hp, this]
      rw [nextFrameLoop, examine_certain hc, hpr]
    · obtain ⟨hf, he⟩ := not_or.mp hc
      rw [Bool.not_eq_true] at hf he
      have hre : r.refill = pulled r := by
        rw [hp, hf]
        simp [refill, hun]
      have hpe : (pulled r).eof = true := by rw [hp, hf]; simp
      rw [nextFrameLoop, examine_pending he hf]
      rw [hre, nextFrameLoop, examine_certain (Or.inr hpe)]
  | cons c cs ih =>
    intro r n hun hne heof hn
    obtain ⟨n, rfl⟩ : ∃ k, n = k + 1 := ⟨n - 1, by simp at hn; omega⟩
    have he : r.eof = false := by
      cases h : r.eof with
      | false => rfl
      | true => rw [heof h] at hun; cases hun
    cases hf : final (scanOne r.buf r.prevCrc) with
    | true =>
      have hpr : pulled r = r := by
        have hpull : pull (scanOne · r.prevCrc) final r.buf r.unread =
            (r.buf, r.unread) := by
          rw [hun]; simp [pull, hf]
        simp only [pulled, hpull, hf, Bool.not_true, Bool.or_false]
      rw [nextFrameLoop, examine_certain (Or.inl hf), hpr]
    | false =>
      have hc : c ≠ [] := hne c (by simp)
      have hre : r.refill = { r with unread := cs, buf := r.buf ++ c } := by
        unfold refill
        rw [hun]
        cases c with
        | nil => exact absurd rfl hc
        | cons b bs => rfl
      have hpr : pulled r = pulled r.refill := by
        rw [hre]
        simp [pulled, hun, pull, hf]
      rw [nextFrameLoop, examine_pending he hf, hpr]
      refine ih r.refill n ?_ (fun x hx => hne x (by simp [hx])) ?_ (by simp at hn; omega)
      · rw [hre]
      · rw [hre]; simp [he]

def link (crc : UInt32) : UInt64 := UInt64.ofNat crc.toNat

def frameAt (off : Nat) (h : FrameHeader) (payload : Bytes) : ScannedFrame :=
  ⟨⟨h.lsn, h.rtype, h.flags, off, h.len, h.crc⟩, payload⟩

/-- **`next_frame` depends only on the bytes ahead of the cursor.** -/
theorem nextFrame_spec {ahead : Bytes} (h : At r off prev ahead) :
    match scanOne ahead prev with
    | .frame hd payload n =>
      r.nextFrame.2 = .ok (some (frameAt off hd payload)) ∧
      At r.nextFrame.1 (off + n) (link hd.crc) (ahead.drop n)
    | .endOfData =>
      r.nextFrame.2 = .ok none ∧ r.nextFrame.1.validEnd = off
    | .torn need got =>
      r.nextFrame.2 = .error (.tornTail off need got) ∧
      r.nextFrame.1.validEnd = off
    | .corrupt e =>
      r.nextFrame.2 = .error (.corrupt e) ∧
      r.nextFrame.1.validEnd = off := by
  obtain ⟨hstart, hvalid, hprev, hahead, hchunks, heof⟩ := h
  have hloop : r.nextFrame = conclude (pulled r) :=
    nextFrameLoop_eq r.unread r _ rfl hchunks heof (Nat.le_refl _)
  have hverdict : scanOne (pulled r).buf (pulled r).prevCrc =
      scanOne ahead prev := by
    rw [← hahead, ← hprev]
    exact pull_verdict _ _ (scanOne_stable r.prevCrc) r.buf r.unread
  rw [hloop, conclude, hverdict]
  cases hs : scanOne ahead prev with
  | endOfData | corrupt => exact ⟨rfl, hvalid⟩
  | torn need got => exact ⟨by rw [← hstart]; rfl, hvalid⟩
  | frame hd payload n =>
    have hbuf : n ≤ (pulled r).buf.length :=
      (scanOne_consumed (hverdict.trans hs)).2
    have hflat : (pulled r).buf ++ (pulled r).unread.flatten = ahead := by
      rw [← hahead]
      exact pull_flatten _ _ r.buf r.unread
    have hfin : final (scanOne (pulled r).buf (pulled r).prevCrc) = true := by
      rw [hverdict, hs]; rfl
    refine ⟨by rw [← hstart]; rfl, ⟨?_, ?_, rfl, ?_, ?_, ?_⟩⟩
    · rw [← hstart]; rfl
    · rw [← hstart]; rfl
    · rw [← hflat, drop_append_of_le_length hbuf]; rfl
    · exact fun c hc => hchunks c (pull_rest_subset _ _ r.buf r.unread c hc)
    · -- the buffer settled the scan, so the end of file was known before the call
      intro he
      have hold : r.eof = true := by
        have : (r.eof || !final (scanOne (pulled r).buf (pulled r).prevCrc)) = true := he
        rw [hfin] at this
        simpa using this
      have hnil : (pulled r).unread = [] := by
        simp [pulled, heof hold, pull]
      exact hnil

/-- Opening a file that starts with a header puts the reader behind it. -/
theorem openFile_at (h : SegmentHeader) (body : Bytes) (chunks : List Bytes)
    (hne : ∀ c ∈ chunks, c ≠ []) (hbody : chunks.flatten = body) :
    ∃ r, openFile (h.encode ++ body) chunks = .ok r ∧ r.header = h ∧
      At r segHeaderSize h.chainSeed body := by
  have hlen : ¬ (h.encode ++ body).length < segHeaderSize := by simp
  have hhead : slice (h.encode ++ body) 0 segHeaderSize = h.encode :=
    slice_head (by simp)
  unfold openFile
  simp only [hlen, if_false, hhead, decode_encode]
  refine ⟨_, rfl, rfl, ⟨rfl, rfl, rfl, ?_, hne, ?_⟩⟩
  · simpa using hbody
  · intro he; cases he

/-! ## Reading a whole body -/

/-- How the reading of a segment ends. -/
inductive ScanEnd where
  | clean
  | torn (need got : Nat)
  | corrupt (e : FrameError)
  deriving DecidableEq, Repr

/-- The call of `next_frame` that ends the reading at offset `off`. -/
def ScanEnd.result (off : Nat) : ScanEnd → Except ScanError (Option ScannedFrame)
  | .clean => .ok none
  | .torn need got => .error (.tornTail off need got)
  | .corrupt e => .error (.corrupt e)

structure BodyScan where
  frames : List ScannedFrame
  validEnd : Nat
  verdict : ScanEnd
  deriving DecidableEq, Repr

def BodyScan.cons (f : ScannedFrame) (s : BodyScan) : BodyScan :=
  { s with frames := f :: s.frames }

def scanBodyLoop : Nat → UInt64 → Nat → Bytes → BodyScan
  | 0, _, off, _ => ⟨[], off, .clean⟩
  | n + 1, prev, off, body => match scanOne body prev with
    | .frame h payload k =>
      (scanBodyLoop n (link h.crc) (off + k) (body.drop k)).cons (frameAt off h payload)
    | .endOfData => ⟨[], off, .clean⟩
    | .torn need got => ⟨[], off, .torn need got⟩
    | .corrupt e => ⟨[], off, .corrupt e⟩

/-- The frames of the bytes `body` that start at offset `off`, and how they end. -/
def scanBody (prev : UInt64) (off : Nat) (body : Bytes) : BodyScan :=
  scanBodyLoop (body.length + 1) prev off body

theorem scanBodyLoop_fuel (n m : Nat) (prev : UInt64) (off : Nat) (body : Bytes)
    (hn : body.length < n) (hm : body.length < m) :
    scanBodyLoop n prev off body = scanBodyLoop m prev off body := by
  induction n generalizing m prev off body with
  | zero => omega
  | succ n ih =>
    cases m with
    | zero => omega
    | succ m =>
      simp only [scanBodyLoop]
      cases hs : scanOne body prev with
      | endOfData | torn | corrupt => rfl
      | frame h payload k =>
        -- every frame takes at least a header, so the rest is shorter
        obtain ⟨hk, hk'⟩ := scanOne_consumed hs
        have hdrop : (body.drop k).length < body.length := by
          simp only [length_drop, frameHeaderSize] at *
          omega
        dsimp only
        rw [ih m _ _ _ (by omega) (by omega)]

theorem scanBody_eq (prev : UInt64) (off : Nat) (body : Bytes) :
    scanBody prev off body = match scanOne body prev with
      | .frame h payload k =>
        (scanBody (link h.crc) (off + k) (body.drop k)).cons (frameAt off h payload)
      | .endOfData => ⟨[], off, .clean⟩
      | .torn need got => ⟨[], off, .torn need got⟩
      | .corrupt e => ⟨[], off, .corrupt e⟩ := by
  rw [scanBody, scanBodyLoop]
  cases hs : scanOne body prev with
  | endOfData | torn | corrupt => rfl
  | frame h payload k =>
    obtain ⟨hk, hk'⟩ := scanOne_consumed hs
    dsimp only
    rw [scanBody, scanBodyLoop_fuel body.length ((body.drop k).length + 1)]
    · simp only [length_drop, frameHeaderSize] at *
      omega
    · omega

/-- The results of `n` calls of `next_frame`. -/
def nextFrames : Nat → SegReader →
    List (Except ScanError (Option ScannedFrame)) × SegReader
  | 0, r => ([], r)
  | n + 1, r =>
    let out := r.nextFrame
    let more := nextFrames n out.1
    (out.2 :: more.1, more.2)

/-- **Calling `next_frame` until it stops is the scan of the bytes ahead.** -/
theorem nextFrames_scanBody (fs : List ScannedFrame) :
    ∀ (r : SegReader) (off : Nat) (prev : UInt64) (ahead : Bytes), At r off prev ahead →
      (scanBody prev off ahead).frames = fs →
      (nextFrames (fs.length + 1) r).1 = fs.map (fun f => .ok (some f)) ++
        [(scanBody prev off ahead).verdict.result (scanBody prev off ahead).validEnd] ∧
      (nextFrames (fs.length + 1) r).2.validEnd =
        (scanBody prev off ahead).validEnd := by
  rintro r off prev ahead hat rfl
  -- the bytes ahead get fewer with every frame
  induction hn : ahead.length using Nat.strong_induction_on generalizing r off prev ahead with
  | _ n ih =>
    have hspec := nextFrame_spec hat
    rw [scanBody_eq]
    cases hs : scanOne ahead prev with
    | endOfData | torn | corrupt =>
      rw [hs] at hspec
      exact ⟨by simp [nextFrames, hspec.1, ScanEnd.result], hspec.2⟩
    | frame h payload k =>
      rw [hs] at hspec
      obtain ⟨hout, hat'⟩ := hspec
      obtain ⟨hk, hk'⟩ := scanOne_consumed hs
      have hdrop : (ahead.drop k).length < n := by
        simp only [length_drop, frameHeaderSize] at *
        omega
      obtain ⟨hres, hend⟩ := ih _ hdrop _ _ _ _ hat' rfl
      exact ⟨congrArg₂ cons hout hres, hend⟩

/-! ## Frames laid end to end -/

/-- The bytes a frame takes on disk. -/
def frameSize (f : ScannedFrame) : Nat := frameHeaderSize + f.payload.length

def bodySize (fs : List ScannedFrame) : Nat := (fs.map frameSize).sum

/-- What follows `fs` links to the last frame, or to `prev` if there is none. -/
def lastLink (prev : UInt64) (fs : List ScannedFrame) : UInt64 :=
  fs.foldl (fun _ f => link f.fmeta.crc) prev

def frameBytes (prev : UInt64) (f : ScannedFrame) : Bytes :=
  (encodeFrame prev f.fmeta.rtype f.fmeta.flags f.fmeta.lsn f.payload).1

def encodeFrames : UInt64 → List ScannedFrame → Bytes
  | _, [] => []
  | prev, f :: fs => frameBytes prev f ++ encodeFrames (link f.fmeta.crc) fs

/-- The metadata of `f` describes its payload, placed at offset `off`. -/
structure Describes (off : Nat) (f : ScannedFrame) : Prop where
  short : f.payload.length < 2 ^ 32
  offset : f.fmeta.offset = off
  payloadLen : f.fmeta.payloadLen = UInt32.ofNat f.payload.length
  crc : f.fmeta.crc =
    computeFrameCrc f.fmeta.rtype.toU8 f.fmeta.flags f.fmeta.lsn f.payload

/-- Frames whose metadata is right for a body that starts at offset `off`. -/
def Described : Nat → List ScannedFrame → Prop
  | _, [] => True
  | off, f :: fs => Describes off f ∧ Described (off + frameSize f) fs

/-- The frame that `append` makes of a record at offset `off`. -/
def frameOf (off : Nat) (rtype : RecordType) (flags : UInt8) (lsn : UInt64) (payload : Bytes) :
    ScannedFrame :=
  ⟨⟨lsn, rtype, flags, off, UInt32.ofNat payload.length,
    computeFrameCrc rtype.toU8 flags lsn payload⟩, payload⟩

theorem describes_frameOf (off : Nat) (rtype : RecordType) (flags : UInt8) (lsn : UInt64)
    {payload : Bytes} (h : payload.length < 2 ^ 32) :
    Describes off (frameOf off rtype flags lsn payload) := ⟨h, rfl, rfl, rfl⟩

theorem frameBytes_length (prev : UInt64) (f : ScannedFrame) :
    (frameBytes prev f).length = frameSize f := by
  simp [frameBytes, encodeFrame, frameSize]

theorem encodeFrames_length (prev : UInt64) (fs : List ScannedFrame) :
    (encodeFrames prev fs).length = bodySize fs := by
  induction fs generalizing prev with
  | nil => rfl
  | cons f fs ih => simp [encodeFrames, bodySize, frameBytes_length, ih]

theorem encodeFrames_append (prev : UInt64) (fs gs : List ScannedFrame) :
    encodeFrames prev (fs ++ gs) =
      encodeFrames prev fs ++ encodeFrames (lastLink prev fs) gs := by
  induction fs generalizing prev with
  | nil => rfl
  | cons f fs ih => simp [encodeFrames, lastLink, ih, append_assoc]

theorem described_append (off : Nat) (fs gs : List ScannedFrame) :
    Described off (fs ++ gs) ↔
      Described off fs ∧ Described (off + bodySize fs) gs := by
  induction fs generalizing off with
  | nil => simp [Described, bodySize]
  | cons f fs ih => simp [Described, bodySize, ih, and_assoc, Nat.add_assoc]

theorem scanOne_frameBytes {f : ScannedFrame} (hf : Describes off f) (prev : UInt64)
    (rest : Bytes) :
    scanOne (frameBytes prev f ++ rest) prev =
      .frame ⟨prev, f.fmeta.crc, f.fmeta.payloadLen, f.fmeta.rtype, f.fmeta.flags, f.fmeta.lsn⟩
        f.payload (frameSize f) := by
  rw [frameBytes, scanOne_encodeFrame _ _ _ _ _ _ hf.short, hf.crc, hf.payloadLen]
  rfl

/-- **Frames laid end to end are read back, and then what follows them is.** -/
theorem scanBody_encodeFrames (fs : List ScannedFrame) (prev : UInt64) (off : Nat) (rest : Bytes)
    (h : Described off fs) :
    scanBody prev off (encodeFrames prev fs ++ rest) =
      let s := scanBody (lastLink prev fs) (off + bodySize fs) rest
      { s with frames := fs ++ s.frames } := by
  induction fs generalizing prev off with
  | nil => rfl
  | cons f fs ih =>
    obtain ⟨hf, hfs⟩ := h
    have hdrop : (frameBytes prev f ++ (encodeFrames (link f.fmeta.crc) fs ++
        rest)).drop (frameSize f) = encodeFrames (link f.fmeta.crc) fs ++ rest := by
      rw [← frameBytes_length prev f, drop_left]
    have hat : frameAt off ⟨prev, f.fmeta.crc, f.fmeta.payloadLen, f.fmeta.rtype, f.fmeta.flags,
        f.fmeta.lsn⟩ f.payload = f := by
      rw [frameAt, ← hf.offset]
    rw [encodeFrames, append_assoc, scanBody_eq, scanOne_frameBytes hf]
    dsimp only
    rw [hdrop, hat, ih _ _ hfs]
    simp [BodyScan.cons, bodySize, lastLink, Nat.add_assoc]

theorem scanBody_zeros (prev : UInt64) (off n : Nat) :
    scanBody prev off (zeros n) = ⟨[], off, .clean⟩ := by
  have hs : scanOne (zeros n) prev = .endOfData := by
    unfold scanOne
    by_cases hn : (zeros n).length < frameHeaderSize
    · simp only [hn, if_true, allZero_zeros]
    have hlen : 26 ≤ n := by simp [zeros, frameHeaderSize] at hn; omega
    have hget : (zeros n).getD 16 0 = 0 := by
      simp [zeros, show 16 < n by omega]
    have hslice : slice (zeros n) 0 frameHeaderSize = zeros 26 := by
      simp [slice, zeros, frameHeaderSize, take_replicate, Nat.min_eq_left hlen]
    simp only [hn, if_false, decodeHeader, hget]
    simp [RecordType.fromU8, hslice]
  rw [scanBody_eq, hs]

/-- A body of frames and unused preallocation is read to its end. -/
theorem scanBody_frames_zeros (prev : UInt64) (off : Nat) (fs : List ScannedFrame) (slack : Nat)
    (h : Described off fs) :
    scanBody prev off (encodeFrames prev fs ++ zeros slack) =
      ⟨fs, off + bodySize fs, .clean⟩ := by
  rw [scanBody_encodeFrames fs _ _ _ h, scanBody_zeros]
  simp

end PowerFS.Wal.SegmentScan
