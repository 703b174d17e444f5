import PowerFS.Wal.Frame

/-! # Segment files

`wal/segment.rs`: the 68-byte segment header, the appending `SegWriter` and the
streaming `SegReader`. A file is its bytes. The reader sees the file as the list
of chunks its successive reads return, so that every way a file can be cut into
reads is a value of the model; reading stops at the first empty read. -/
namespace PowerFS.Wal.Segment
open Lib.ByteString Wal.Frame Checksum

/-- "PFWLSEG\0" -/
def segMagic : Bytes := [0x50, 0x46, 0x57, 0x4C, 0x53, 0x45, 0x47, 0x00]
def segHeaderFieldSize : Nat := 64
def segHeaderSize : Nat := 68
def segFlagSealed : UInt32 := 0x01

inductive ScanError where
  | tornTail (offset need got : Nat)
  | corrupt (e : FrameError)
  deriving DecidableEq, Repr

inductive SegmentError where
  | unexpectedEof
  | badMagic (got : Nat)
  | headerCrcMismatch (expected got : UInt32)
  | formatVersion (got : Nat)
  | segmentFull (needed remaining : Nat)
  | headerTooSmall (got : Nat)
  | scan (e : ScanError)
  | badFileName (segId headerSegId : Nat)
  | sealed
  deriving DecidableEq, Repr

structure SegmentHeader where
  segId : UInt64
  volumeId : UInt64
  baseLsn : UInt64
  createdTs : Int64
  flags : UInt32
  deriving DecidableEq, Repr

section Files

variable [Checksum]

namespace SegmentHeader

def isSealed (h : SegmentHeader) : Bool := h.flags &&& segFlagSealed != 0

/-- Bytes `[0..44)`, which sealing does not change. -/
def immutablePart (h : SegmentHeader) : Bytes :=
  segMagic ++ (toLE 2 1 ++ (toLE 2 segHeaderFieldSize ++ (toLE 8 h.segId.toNat ++
    (toLE 8 h.volumeId.toNat ++ (toLE 8 h.baseLsn.toNat ++ toLE 8 h.createdTs.toUInt64.toNat)))))

/-- Bytes `[0..64)`, which the header CRC covers. -/
def fieldPart (h : SegmentHeader) : Bytes :=
  h.immutablePart ++ (toLE 4 h.flags.toNat ++ zeros 16)

def encode (h : SegmentHeader) : Bytes :=
  h.fieldPart ++ toLE 4 (crc32c h.fieldPart).toNat

def decode (buf : Bytes) : Except SegmentError SegmentHeader :=
  if buf.length < segHeaderSize then .error (.headerTooSmall buf.length)
  else if slice buf 0 8 ≠ segMagic then .error (.badMagic (ofLE (slice buf 0 8)))
  else
    let ver := ofLE (slice buf 8 10)
    if ver ≠ 1 then .error (.formatVersion ver)
    else
      let storedCrc := UInt32.ofNat (ofLE (slice buf segHeaderFieldSize segHeaderSize))
      let gotCrc := crc32c (slice buf 0 segHeaderFieldSize)
      if storedCrc ≠ gotCrc then .error (.headerCrcMismatch storedCrc gotCrc)
      else .ok {
        segId := UInt64.ofNat (ofLE (slice buf 12 20))
        volumeId := UInt64.ofNat (ofLE (slice buf 20 28))
        baseLsn := UInt64.ofNat (ofLE (slice buf 28 36))
        createdTs := (UInt64.ofNat (ofLE (slice buf 36 44))).toInt64
        flags := UInt32.ofNat (ofLE (slice buf 44 48)) }

/-- The CRC of the immutable 44 bytes, extended to 64 bits. -/
def chainSeed (h : SegmentHeader) : UInt64 :=
  UInt64.ofNat (crc32c (slice h.encode 0 44)).toNat

end SegmentHeader

structure FrameMeta where
  lsn : UInt64
  rtype : RecordType
  flags : UInt8
  offset : Nat
  payloadLen : UInt32
  crc : UInt32
  deriving DecidableEq, Repr

structure ScannedFrame where
  fmeta : FrameMeta
  payload : Bytes
  deriving DecidableEq, Repr

structure ScanSummary where
  frameCount : Nat
  validEnd : Nat
  lastLsn : Option UInt64
  lastCrc : Option UInt32
  tornTail : Bool
  deriving DecidableEq, Repr

/-! ## SegReader -/

structure SegReader where
  header : SegmentHeader
  fileSize : Nat
  /-- What the reads still to come return. -/
  unread : List Bytes
  bufStart : Nat
  buf : Bytes
  prevCrc : UInt64
  eof : Bool
  frameCount : Nat
  validEnd : Nat
  lastMeta : Option FrameMeta

namespace SegReader

/-- Open a file whose body (from byte 68 on) will be read as `chunks`. -/
def openFile (file : Bytes) (chunks : List Bytes) : Except SegmentError SegReader :=
  if file.length < segHeaderSize then .error .unexpectedEof
  else match SegmentHeader.decode (slice file 0 segHeaderSize) with
    | .error e => .error e
    | .ok header => .ok {
        header := header, fileSize := file.length, unread := chunks
        bufStart := segHeaderSize, buf := [], prevCrc := header.chainSeed
        eof := false, frameCount := 0, validEnd := segHeaderSize, lastMeta := none }

/-- The cursor update after a complete frame. -/
def advance (r : SegReader) (fmeta : FrameMeta) (consumed : Nat) : SegReader :=
  { r with
    bufStart := r.bufStart + consumed
    buf := r.buf.drop consumed
    prevCrc := UInt64.ofNat fmeta.crc.toNat
    frameCount := r.frameCount + 1
    validEnd := r.bufStart + consumed
    lastMeta := some fmeta }

def metaOf (r : SegReader) (h : FrameHeader) : FrameMeta :=
  ⟨h.lsn, h.rtype, h.flags, r.bufStart, h.len, h.crc⟩

/-- The loop body of `next_frame` up to its refill; `none` asks for a refill. -/
def examine (r : SegReader) : Option (SegReader × Except ScanError (Option ScannedFrame)) :=
  if r.buf ≠ [] then
    match scanOne r.buf r.prevCrc with
    | .frame header payload consumed =>
      some (r.advance (r.metaOf header) consumed, .ok (some ⟨r.metaOf header, payload⟩))
    | .endOfData => if r.eof then some (r, .ok none) else none
    | .torn need got =>
      if r.eof then some (r, .error (.tornTail r.bufStart need got)) else none
    | .corrupt e => some (r, .error (.corrupt e))
  else if r.eof then some (r, .ok none) else none

def refill (r : SegReader) : SegReader :=
  match r.unread with
  | [] => { r with eof := true }
  | [] :: rest => { r with unread := rest, eof := true }
  | chunk :: rest => { r with unread := rest, buf := r.buf ++ chunk }

/-- The loop of `next_frame`. Every pass without a verdict uses up a chunk or sets
`eof`, after which a verdict is certain, so `unread.length + 2` passes suffice. -/
def nextFrameLoop : Nat → SegReader → SegReader × Except ScanError (Option ScannedFrame)
  | 0, r => (r, .ok none)
  | n + 1, r => match r.examine with
    | some out => out
    | none => nextFrameLoop n r.refill

def nextFrame (r : SegReader) : SegReader × Except ScanError (Option ScannedFrame) :=
  nextFrameLoop (r.unread.length + 2) r

/-- The loop of `scan_summary`; a frame takes at least 26 bytes, so the file size
bounds the number of passes. -/
def scanSummaryLoop : Nat → SegReader → Except ScanError ScanSummary
  | 0, r => .ok ⟨r.frameCount, r.validEnd, r.lastMeta.map (·.lsn), r.lastMeta.map (·.crc), false⟩
  | n + 1, r => match r.nextFrame with
    | (r', .ok (some _)) => scanSummaryLoop n r'
    | (r', .ok none) => .ok
        ⟨r'.frameCount, r'.validEnd, r'.lastMeta.map (·.lsn), r'.lastMeta.map (·.crc), false⟩
    | (r', .error (.tornTail _ _ _)) => .ok
        ⟨r'.frameCount, r'.validEnd, r'.lastMeta.map (·.lsn), r'.lastMeta.map (·.crc), true⟩
    | (_, .error e) => .error e

def scanSummary (r : SegReader) : Except ScanError ScanSummary :=
  scanSummaryLoop (r.fileSize + 1) r

end SegReader

/-! ## SegWriter -/

structure SegWriter where
  file : Bytes
  header : SegmentHeader
  segSize : Nat
  writePos : Nat
  prevCrc : UInt64
  frameCount : Nat
  lastMeta : Option FrameMeta

namespace SegWriter

def create (segId volumeId baseLsn : UInt64) (segSize : Nat) (preallocate : Bool)
    (now : Int64) : Except SegmentError SegWriter :=
  if segSize < segHeaderSize + frameHeaderSize then
    .error (.segmentFull (segHeaderSize + frameHeaderSize) segSize)
  else
    let file := if preallocate then zeros segSize else []
    let header : SegmentHeader := ⟨segId, volumeId, baseLsn, now, 0⟩
    .ok {
      file := pwrite file 0 header.encode, header := header, segSize := segSize
      writePos := segHeaderSize, prevCrc := header.chainSeed
      frameCount := 0, lastMeta := none }

def isSealed (w : SegWriter) : Bool := w.header.isSealed

def remaining (w : SegWriter) : Nat := w.segSize - w.writePos

/-- Put a frame at the write position and move the cursor to `newPos`. -/
def putFrame (w : SegWriter) (bytes : Bytes) (fmeta : FrameMeta) (newPos : Nat) : SegWriter :=
  { w with
    file := pwrite w.file w.writePos bytes
    writePos := newPos
    prevCrc := UInt64.ofNat fmeta.crc.toNat
    frameCount := w.frameCount + 1
    lastMeta := some fmeta }

def padToEnd (w : SegWriter) (lsn : UInt64) : SegWriter × Option FrameMeta :=
  let remaining := w.remaining
  if remaining < frameHeaderSize then (w, none)
  else
    let (bytes, crc) := encodePadFrame w.prevCrc lsn remaining
    let fmeta : FrameMeta :=
      ⟨lsn, .pad, 0, w.writePos, UInt32.ofNat (remaining - frameHeaderSize), crc⟩
    (w.putFrame bytes fmeta w.segSize, some fmeta)

def append (w : SegWriter) (rtype : RecordType) (flags : UInt8) (lsn : UInt64)
    (payload : Bytes) : SegWriter × Except SegmentError FrameMeta :=
  if w.isSealed then (w, .error .sealed)
  else
    let total := frameHeaderSize + payload.length
    let remaining := w.remaining
    if remaining < total then
      -- the rest of the segment becomes one PAD frame when a header fits
      let w' := if frameHeaderSize ≤ remaining then (w.padToEnd lsn).1 else w
      (w', .error (.segmentFull total remaining))
    else
      let (bytes, crc) := encodeFrame w.prevCrc rtype flags lsn payload
      let fmeta : FrameMeta :=
        ⟨lsn, rtype, flags, w.writePos, UInt32.ofNat payload.length, crc⟩
      (w.putFrame bytes fmeta (w.writePos + total), .ok fmeta)

/-- Set the sealed flag and write the header back. -/
def sealSegment (w : SegWriter) : SegWriter :=
  if w.isSealed then w
  else
    let header := { w.header with flags := w.header.flags ||| segFlagSealed }
    { w with header := header, file := pwrite w.file 0 header.encode }

/-- Reopen an existing file for appending: find the valid end, cut what follows. -/
def reopen (file : Bytes) (chunks : List Bytes) (segSize : Nat) :
    Except SegmentError (SegWriter × ScanSummary) :=
  match SegReader.openFile file chunks with
  | .error e => .error e
  | .ok reader => match reader.scanSummary with
    | .error e => .error (.scan e)
    | .ok summary =>
      let kept := if summary.tornTail ∨ summary.validEnd < file.length
        then file.take summary.validEnd else file
      .ok ({
        file := kept, header := reader.header, segSize := segSize
        writePos := summary.validEnd
        prevCrc := match summary.lastCrc with
          | some c => UInt64.ofNat c.toNat
          | none => reader.header.chainSeed
        frameCount := summary.frameCount, lastMeta := none }, summary)

end SegWriter

end Files

/-! ## Headers round-trip -/

section

variable (h : SegmentHeader)

open SegmentHeader

@[simp] theorem immutablePart_length : h.immutablePart.length = 44 := by
  simp [immutablePart, segMagic]

@[simp] theorem fieldPart_length : h.fieldPart.length = 64 := by
  simp [fieldPart]

@[simp] theorem encode_length [Checksum] : h.encode.length = segHeaderSize := by
  simp [encode, segHeaderSize]

theorem slice_fieldPart :
    slice h.fieldPart 0 8 = segMagic ∧ slice h.fieldPart 8 10 = toLE 2 1 ∧
    slice h.fieldPart 12 20 = toLE 8 h.segId.toNat ∧
    slice h.fieldPart 20 28 = toLE 8 h.volumeId.toNat ∧
    slice h.fieldPart 28 36 = toLE 8 h.baseLsn.toNat ∧
    slice h.fieldPart 36 44 = toLE 8 h.createdTs.toUInt64.toNat ∧
    slice h.fieldPart 44 48 = toLE 4 h.flags.toNat := by
  unfold fieldPart immutablePart
  have hmagic : segMagic.length = 8 := rfl
  simp only [List.append_assoc]
  refine ⟨?_, ?_, ?_, ?_, ?_, ?_, ?_⟩ <;> simp [slice_skip, slice_head, hmagic]

theorem decode_encode [Checksum] : decode h.encode = .ok h := by
  obtain ⟨h1, h2, h3, h4, h5, h6, h7⟩ := slice_fieldPart h
  have hleft : ∀ i j, j ≤ 64 → slice h.encode i j = slice h.fieldPart i j := by
    intro i j hj
    exact slice_left (by simpa using hj)
  have hcrc : slice h.encode 64 68 = toLE 4 (crc32c h.fieldPart).toNat := by
    rw [encode, slice_skip (by simp)]
    simp [slice]
  have hfield : slice h.fieldPart 0 64 = h.fieldPart := by
    rw [← fieldPart_length h]; exact slice_self _
  have hver : ofLE (toLE 2 1) = 1 := by decide
  unfold decode
  simp only [encode_length, Nat.lt_irrefl, if_false, segHeaderFieldSize, segHeaderSize, hcrc,
    hleft 0 8 (by omega), hleft 8 10 (by omega), hleft 12 20 (by omega), hleft 20 28 (by omega),
    hleft 28 36 (by omega), hleft 36 44 (by omega), hleft 44 48 (by omega), hleft 0 64 (by omega),
    hfield, h1, h2, h3, h4, h5, h6, h7, hver, ofLE_toLE_u64, ofLE_toLE_u32,
    UInt64.ofNat_toNat, UInt32.ofNat_toNat]
  simp

end

end PowerFS.Wal.Segment
