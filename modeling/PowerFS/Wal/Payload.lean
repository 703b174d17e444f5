import PowerFS.Wal.Frame

/-! # Record payloads

The payload codecs of `wal/frame.rs` for the records the engine writes. -/
namespace PowerFS.Wal.Payload
open Lib.ByteString Wal.Frame

/-- `needle_id u64 | data_len u32 | data` -/
structure DataPayload where
  needleId : UInt64
  data : Bytes

def DataPayload.encode (p : DataPayload) : Bytes :=
  toLE 8 p.needleId.toNat ++ (toLE 4 p.data.length ++ p.data)

/-- `needle_id u64 | deleted_at i64 | retention_until i64` -/
structure DeletePayload where
  needleId : UInt64
  deletedAt : Int64
  retentionUntil : Int64

def DeletePayload.encode (p : DeletePayload) : Bytes :=
  toLE 8 p.needleId.toNat ++ (toLE 8 p.deletedAt.toUInt64.toNat ++
    toLE 8 p.retentionUntil.toUInt64.toNat)

/-- `ckpt_seq u64 | applied_lsn u64` -/
structure CkptAnchorPayload where
  ckptSeq : UInt64
  appliedLsn : UInt64

def CkptAnchorPayload.encode (p : CkptAnchorPayload) : Bytes :=
  toLE 8 p.ckptSeq.toNat ++ toLE 8 p.appliedLsn.toNat

def volumeMetaFieldVolumeSize : UInt32 := 0x01

/-- `field_mask u32 | values` -/
structure VolumeMetaPayload where
  fieldMask : UInt32
  values : Bytes

namespace VolumeMetaPayload

def encode (p : VolumeMetaPayload) : Bytes := toLE 4 p.fieldMask.toNat ++ p.values

/-- The payload that carries only a new volume size. -/
def volumeSize (newSize : UInt64) : Bytes :=
  encode ⟨volumeMetaFieldVolumeSize, toLE 8 newSize.toNat⟩

def decode (buf : Bytes) : Except FrameError VolumeMetaPayload :=
  if buf.length < 4 then
    .error (.invalidPayload RecordType.volumeMeta.toU8
      ("need >= 4 bytes, got " ++ toString buf.length))
  else .ok ⟨UInt32.ofNat (ofLE (slice buf 0 4)), buf.drop 4⟩

def takeVolumeSize (p : VolumeMetaPayload) : Option Nat :=
  if p.fieldMask &&& volumeMetaFieldVolumeSize ≠ 0 ∧ 8 ≤ p.values.length then
    some (ofLE (slice p.values 0 8))
  else none

end VolumeMetaPayload

/-- `needle_id u64 | expect_version u64 | data_len u32 | data` -/
structure GcMigratePayload where
  needleId : UInt64
  expectVersion : UInt64
  data : Bytes

def GcMigratePayload.encode (p : GcMigratePayload) : Bytes :=
  toLE 8 p.needleId.toNat ++ (toLE 8 p.expectVersion.toNat ++ (toLE 4 p.data.length ++ p.data))

end PowerFS.Wal.Payload
