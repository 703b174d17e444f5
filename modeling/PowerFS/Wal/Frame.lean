import PowerFS.Lib.ByteString

/-! # Record frames

The frame codec of `wal/frame.rs`: a 26-byte header (`prev_crc`, `crc`, `len`,
`rtype`, `flags`, `lsn`) followed by the payload, chained through the CRC of the
previous frame. Nothing here depends on which function the checksum is. -/
namespace PowerFS.Wal

/-- The checksum function of the crate that the source links against. -/
class Checksum where
  crc32c : List UInt8 → UInt32

namespace Frame
open Lib.ByteString Checksum

def frameHeaderSize : Nat := 26
def flagSyncBarrier : UInt8 := 0x01

inductive RecordType where
  | data | delete | attr | snapTake | snapDrop | ckptAnchor | volumeMeta
  | gcMigrate | tombPurge | pad
  deriving DecidableEq, Repr

def RecordType.toU8 : RecordType → UInt8
  | .data => 0x01
  | .delete => 0x02
  | .attr => 0x03
  | .snapTake => 0x04
  | .snapDrop => 0x05
  | .ckptAnchor => 0x06
  | .volumeMeta => 0x07
  | .gcMigrate => 0x08
  | .tombPurge => 0x09
  | .pad => 0x7F

def RecordType.fromU8 (v : UInt8) : Option RecordType :=
  if v = 0x01 then some .data
  else if v = 0x02 then some .delete
  else if v = 0x03 then some .attr
  else if v = 0x04 then some .snapTake
  else if v = 0x05 then some .snapDrop
  else if v = 0x06 then some .ckptAnchor
  else if v = 0x07 then some .volumeMeta
  else if v = 0x08 then some .gcMigrate
  else if v = 0x09 then some .tombPurge
  else if v = 0x7F then some .pad
  else none

@[simp] theorem RecordType.fromU8_toU8 (t : RecordType) : fromU8 t.toU8 = some t := by
  cases t <;> rfl

theorem RecordType.toU8_ne_zero (t : RecordType) : t.toU8 ≠ 0 := by cases t <;> decide

inductive FrameError where
  | tooSmall (need got : Nat)
  | crcMismatch (lsn : UInt64) (expected got : UInt32)
  | chainMismatch (lsn expected got : UInt64)
  | unknownType (rtype : UInt8) (offset : Nat)
  | invalidPayload (rtype : UInt8) (reason : String)
  deriving DecidableEq, Repr

structure FrameHeader where
  prevCrc : UInt64
  crc : UInt32
  len : UInt32
  rtype : RecordType
  flags : UInt8
  lsn : UInt64
  deriving DecidableEq, Repr

def FrameHeader.totalSize (h : FrameHeader) : Nat := frameHeaderSize + h.len.toNat

/-- `crc32c(rtype | flags | lsn | payload)`. -/
def computeFrameCrc [Checksum] (rtype flags : UInt8) (lsn : UInt64) (payload : Bytes) : UInt32 :=
  crc32c (rtype :: flags :: (toLE 8 lsn.toNat ++ payload))

def encodeHeader (h : FrameHeader) : Bytes :=
  toLE 8 h.prevCrc.toNat ++ (toLE 4 h.crc.toNat ++ (toLE 4 h.len.toNat ++
    (h.rtype.toU8 :: h.flags :: toLE 8 h.lsn.toNat)))

/-- The frame and its CRC, which the next frame links to. The length field keeps
the low 32 bits of the payload length. -/
def encodeFrame [Checksum] (prevCrc : UInt64) (rtype : RecordType) (flags : UInt8) (lsn : UInt64)
    (payload : Bytes) : Bytes × UInt32 :=
  let crc := computeFrameCrc rtype.toU8 flags lsn payload
  let header : FrameHeader := ⟨prevCrc, crc, UInt32.ofNat payload.length, rtype, flags, lsn⟩
  (encodeHeader header ++ payload, crc)

/-- A PAD frame of `totalLen` bytes, which the caller keeps at 26 or more. -/
def encodePadFrame [Checksum] (prevCrc lsn : UInt64) (totalLen : Nat) : Bytes × UInt32 :=
  encodeFrame prevCrc .pad 0 lsn (zeros (totalLen - frameHeaderSize))

def decodeHeader (buf : Bytes) (offset : Nat) : Except FrameError FrameHeader :=
  if buf.length < frameHeaderSize then .error (.tooSmall frameHeaderSize buf.length)
  else
    let rt := buf.getD 16 0
    match RecordType.fromU8 rt with
    | none => .error (.unknownType rt offset)
    | some rtype => .ok {
        prevCrc := UInt64.ofNat (ofLE (slice buf 0 8))
        crc := UInt32.ofNat (ofLE (slice buf 8 12))
        len := UInt32.ofNat (ofLE (slice buf 12 16))
        rtype := rtype
        flags := buf.getD 17 0
        lsn := UInt64.ofNat (ofLE (slice buf 18 26)) }

inductive ScanOne where
  | frame (header : FrameHeader) (payload : Bytes) (consumed : Nat)
  | endOfData
  | torn (need got : Nat)
  | corrupt (e : FrameError)
  deriving DecidableEq, Repr

def scanOne [Checksum] (buf : Bytes) (expectedPrevCrc : UInt64) : ScanOne :=
  if buf.length < frameHeaderSize then
    -- a tail too short for a header is slack when it is all zero, torn otherwise
    if allZero buf then .endOfData else .torn frameHeaderSize buf.length
  else match decodeHeader buf 0 with
    | .error (.unknownType rt off) =>
      if allZero (slice buf 0 frameHeaderSize) then .endOfData
      else .corrupt (.unknownType rt off)
    | .error e => .corrupt e
    | .ok header =>
      let total := header.totalSize
      if buf.length < total then .torn total buf.length
      else
        let payload := slice buf frameHeaderSize total
        let gotCrc := computeFrameCrc header.rtype.toU8 header.flags header.lsn payload
        if gotCrc ≠ header.crc then .corrupt (.crcMismatch header.lsn header.crc gotCrc)
        else if header.prevCrc ≠ expectedPrevCrc then
          .corrupt (.chainMismatch header.lsn expectedPrevCrc header.prevCrc)
        else .frame header payload total

/-! ## Headers round-trip -/

@[simp] theorem encodeHeader_length (h : FrameHeader) :
    (encodeHeader h).length = frameHeaderSize := by
  simp [encodeHeader, frameHeaderSize]

theorem slice_encodeHeader (h : FrameHeader) (rest : Bytes) :
    slice (encodeHeader h ++ rest) 0 8 = toLE 8 h.prevCrc.toNat ∧
    slice (encodeHeader h ++ rest) 8 12 = toLE 4 h.crc.toNat ∧
    slice (encodeHeader h ++ rest) 12 16 = toLE 4 h.len.toNat ∧
    (encodeHeader h ++ rest).getD 16 0 = h.rtype.toU8 ∧
    (encodeHeader h ++ rest).getD 17 0 = h.flags ∧
    slice (encodeHeader h ++ rest) 18 26 = toLE 8 h.lsn.toNat := by
  unfold encodeHeader
  refine ⟨?_, ?_, ?_, ?_, ?_, ?_⟩
  · simp [slice_head]
  · simp [slice_skip, slice_head]
  · simp [slice_skip, slice_head]
  · simp [List.getElem?_append_right]
  · simp [List.getElem?_append_right]
  · simp [slice_skip, slice_cons, slice_head]

theorem decodeHeader_encodeHeader (h : FrameHeader) (rest : Bytes) (offset : Nat) :
    decodeHeader (encodeHeader h ++ rest) offset = .ok h := by
  obtain ⟨h1, h2, h3, h4, h5, h6⟩ := slice_encodeHeader h rest
  have hlen : ¬ (encodeHeader h ++ rest).length < frameHeaderSize := by simp
  unfold decodeHeader
  simp only [hlen, if_false, h1, h2, h3, h4, h5, h6, RecordType.fromU8_toU8,
    ofLE_toLE_u64, ofLE_toLE_u32, UInt64.ofNat_toNat, UInt32.ofNat_toNat]

/-- A frame whose length field is exact is read back whole, whatever follows it. -/
theorem scanOne_encodeFrame [Checksum] (prevCrc : UInt64) (rtype : RecordType) (flags : UInt8)
    (lsn : UInt64) (payload rest : Bytes) (hlen : payload.length < 2 ^ 32) :
    scanOne ((encodeFrame prevCrc rtype flags lsn payload).1 ++ rest) prevCrc =
      .frame ⟨prevCrc, (encodeFrame prevCrc rtype flags lsn payload).2,
        UInt32.ofNat payload.length, rtype, flags, lsn⟩ payload
        (frameHeaderSize + payload.length) := by
  have hn : (UInt32.ofNat payload.length).toNat = payload.length :=
    UInt32.toNat_ofNat_of_lt' hlen
  simp only [encodeFrame, List.append_assoc]
  set hd : FrameHeader := ⟨prevCrc, computeFrameCrc rtype.toU8 flags lsn payload,
    UInt32.ofNat payload.length, rtype, flags, lsn⟩ with hhd
  have htot : hd.totalSize = frameHeaderSize + payload.length := by
    simp [FrameHeader.totalSize, hhd, hn]
  have h26 : ¬ (encodeHeader hd ++ (payload ++ rest)).length < frameHeaderSize := by simp
  have hfit : ¬ (encodeHeader hd ++ (payload ++ rest)).length < hd.totalSize := by
    rw [htot]; simp
  have hpay : slice (encodeHeader hd ++ (payload ++ rest)) frameHeaderSize hd.totalSize =
      payload := by
    rw [htot, slice_skip (by simp)]
    exact slice_head (by simp)
  unfold scanOne
  simp only [h26, if_false, decodeHeader_encodeHeader, hfit, hpay]
  simp [hhd, FrameHeader.totalSize, hn]

end Frame

end PowerFS.Wal
