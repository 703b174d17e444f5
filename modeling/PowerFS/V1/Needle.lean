import PowerFS.Lib.ByteString

/-! # Needle records

`needle.rs`: a needle is stored as its id, the length of its data, the data and a
checksum, with numbers in big-endian order. The checksum functions are those of other
crates and are a parameter; the header holds the low 32 bits of the length. -/
namespace PowerFS.V1.Needle
open Lib.ByteString

def needleIdSize : Nat := 8
def needleHeaderSize : Nat := 12
def needleFooterSize : Nat := 8

inductive ChecksumAlgorithm where
  | crc32c
  | crc64
  | blake3
  deriving DecidableEq

/-- `Checksum::compute(..).as_u64()`, for every algorithm. -/
abbrev Checksum := ChecksumAlgorithm → Bytes → UInt64

inductive PowerFsError where
  | needleNotFound (id : Nat)
  | invalidVolumeState (message : String)
  | invalidRequest (message : String)
  | internal (message : String)
  | outOfSpace
  | permissionDenied
  | checksumMismatch
  | storage (message : String)
  deriving DecidableEq

abbrev Result (α : Type) : Type := Except PowerFsError α

def toBE (w n : Nat) : Bytes := (toLE w n).reverse

def ofBE (bs : Bytes) : Nat := ofLE bs.reverse

@[simp] theorem toBE_length (w n : Nat) : (toBE w n).length = w := by simp [toBE]

theorem ofBE_toBE (w n : Nat) : ofBE (toBE w n) = n % 256 ^ w := by
  simp [ofBE, toBE, ofLE_toLE]

/-- The size of a record with `n` bytes of data. -/
def recordSize (n : Nat) : Nat := needleHeaderSize + n + needleFooterSize

/-- `Needle::to_bytes` -/
def toBytes (id : Nat) (data : Bytes) (checksum : UInt64) : Bytes :=
  toBE 8 id ++ toBE 4 data.length ++ data ++ toBE 8 checksum.toNat

@[simp] theorem toBytes_length (id : Nat) (data : Bytes) (checksum : UInt64) :
    (toBytes id data checksum).length = recordSize data.length := by
  simp [toBytes, recordSize, needleHeaderSize, needleFooterSize]
  omega

theorem toBytes_ne_nil (id : Nat) (data : Bytes) (checksum : UInt64) :
    toBytes id data checksum ≠ [] := by
  apply List.ne_nil_of_length_pos
  rw [toBytes_length]
  simp [recordSize, needleHeaderSize]

/-- `Needle::from_bytes`, of which the callers use the data. -/
def fromBytes (checksum : Checksum) (bytes : Bytes) (algorithm : ChecksumAlgorithm) :
    Result Bytes :=
  if bytes.length < needleHeaderSize + needleFooterSize then
    .error (.invalidRequest "needle data too short")
  else
    let dataSize := ofBE (slice bytes needleIdSize needleHeaderSize)
    if bytes.length ≠ needleHeaderSize + dataSize + needleFooterSize then
      .error (.invalidRequest "needle data size mismatch")
    else
      let data := slice bytes needleHeaderSize (needleHeaderSize + dataSize)
      let stored := ofBE (slice bytes (needleHeaderSize + dataSize)
        (needleHeaderSize + dataSize + needleFooterSize))
      if stored ≠ (checksum algorithm data).toNat then .error .checksumMismatch
      else .ok data

section

variable (id : Nat) (data : Bytes) (checksum : UInt64)

theorem slice_header :
    slice (toBytes id data checksum) needleIdSize needleHeaderSize = toBE 4 data.length := by
  simp only [toBytes, needleIdSize, needleHeaderSize, List.append_assoc]
  rw [slice_skip (by simp), toBE_length, slice_head (by simp)]

theorem slice_data :
    slice (toBytes id data checksum) needleHeaderSize (needleHeaderSize + data.length) = data := by
  simp only [toBytes, needleHeaderSize, List.append_assoc]
  rw [slice_skip (by simp), toBE_length, slice_skip (by simp), toBE_length, slice_head (by omega)]

theorem slice_footer :
    slice (toBytes id data checksum) (needleHeaderSize + data.length)
      (needleHeaderSize + data.length + needleFooterSize) = toBE 8 checksum.toNat := by
  simp only [toBytes, needleHeaderSize, needleFooterSize, List.append_assoc]
  rw [slice_skip (by simp; omega), toBE_length, slice_skip (by simp; omega), toBE_length,
    slice_skip (by omega)]
  have hlo : 12 + data.length - 8 - 4 - data.length = 0 := by omega
  have hhi : 12 + data.length + 8 - 8 - 4 - data.length = 8 := by omega
  rw [hlo, hhi]
  simp [slice]

end

/-- **A stored record is read back**, as long as its length fits the header. -/
theorem fromBytes_toBytes (checksum : Checksum) (algorithm : ChecksumAlgorithm) (id : Nat)
    {data : Bytes} (h : data.length < 2 ^ 32) :
    fromBytes checksum (toBytes id data (checksum algorithm data)) algorithm = .ok data := by
  have hsize : ofBE (toBE 4 data.length) = data.length := by
    rw [ofBE_toBE, Nat.mod_eq_of_lt (by norm_num at h ⊢; omega)]
  have hsum : ofBE (toBE 8 (checksum algorithm data).toNat) = (checksum algorithm data).toNat := by
    rw [ofBE_toBE, Nat.mod_eq_of_lt]
    have := (checksum algorithm data).toNat_lt
    norm_num at this ⊢
    omega
  unfold fromBytes
  rw [slice_header, hsize, toBytes_length]
  dsimp only
  rw [slice_data, slice_footer, hsum]
  rw [if_neg (by simp [recordSize])]
  simp [recordSize]

theorem ofBE_lt (bs : Bytes) : ofBE bs < 256 ^ bs.length := by
  unfold ofBE
  rw [← List.length_reverse]
  exact ofLE_lt _

/-- What a record holds has a 32-bit length. -/
theorem fromBytes_length {checksum : Checksum} {bytes data : Bytes}
    {algorithm : ChecksumAlgorithm} (h : fromBytes checksum bytes algorithm = .ok data) :
    data.length < 2 ^ 32 := by
  unfold fromBytes at h
  split at h
  case isTrue => cases h
  case isFalse =>
    dsimp only at h
    split at h
    case isTrue => cases h
    case isFalse =>
      split at h
      case isTrue => cases h
      case isFalse =>
        cases h
        have hsize := ofBE_lt (slice bytes needleIdSize needleHeaderSize)
        have hfour : (slice bytes needleIdSize needleHeaderSize).length ≤ 4 := by
          rw [slice_length]
          simp [needleIdSize, needleHeaderSize]
        have hpow := Nat.pow_le_pow_right (show 0 < 256 by omega) hfour
        rw [slice_length]
        omega

end PowerFS.V1.Needle
