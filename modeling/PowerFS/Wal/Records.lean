import PowerFS.Wal.Index

/-! # Applying well-formed records

What the parsing operations of the index do on payloads that the codecs wrote. -/
namespace PowerFS.Wal.Records
open Lib.ByteString Index Payload

theorem applyData_encode (idx : WalIndex) (p : WalIndex.Place) (q : DataPayload)
    (h : q.data.length < 2 ^ 32) (now : Int64) :
    idx.applyData p q.encode now =
      (idx.applyDataRecord p q.needleId.toNat q.data.length now, .ok ()) := by
  have hlen : q.encode.length = 12 + q.data.length := by
    simp [DataPayload.encode]
    omega
  have hid : ofLE (slice q.encode 0 8) = q.needleId.toNat := by
    rw [DataPayload.encode, slice_head (by simp), ofLE_toLE_u64]
  have hdata : ofLE (slice q.encode 8 12) = q.data.length := by
    have hslice : slice q.encode 8 12 = toLE 4 q.data.length := by
      simp [DataPayload.encode, slice_skip, slice_head]
    rw [hslice, ofLE_toLE_of_lt (by simpa using h)]
  unfold WalIndex.applyData
  simp only [hlen, hid, hdata, ne_eq, not_true_eq_false, if_false]
  rw [if_neg (by omega)]

theorem int64_bytes (x : Int64) : (UInt64.ofNat (ofLE (toLE 8 x.toUInt64.toNat))).toInt64 = x := by
  rw [ofLE_toLE_u64, UInt64.ofNat_toNat]
  rfl

theorem deletePayload_slices (q : DeletePayload) :
    slice q.encode 0 8 = toLE 8 q.needleId.toNat ∧
    slice q.encode 8 16 = toLE 8 q.deletedAt.toUInt64.toNat ∧
    slice q.encode 16 24 = toLE 8 q.retentionUntil.toUInt64.toNat := by
  refine ⟨?_, ?_, ?_⟩
  · rw [DeletePayload.encode, slice_head (by simp)]
  · simp [DeletePayload.encode, slice_skip, slice_head]
  · have hskip : slice q.encode 16 24 = slice (toLE 8 q.retentionUntil.toUInt64.toNat) 0 8 := by
      simp [DeletePayload.encode, slice_skip]
    rw [hskip]
    simp [slice]

theorem applyDelete_encode (idx : WalIndex) (lsn : Nat) (q : DeletePayload) :
    idx.applyDelete lsn q.encode =
      (idx.applyDeleteRecord lsn q.needleId.toNat q.deletedAt q.retentionUntil, .ok ()) := by
  have hlen : q.encode.length = 24 := by simp [DeletePayload.encode]
  obtain ⟨hid, hat, huntil⟩ := deletePayload_slices q
  unfold WalIndex.applyDelete
  simp only [hlen, hid, hat, huntil, ne_eq, not_true_eq_false, if_false, ofLE_toLE_u64]
  rw [← ofLE_toLE_u64 q.deletedAt.toUInt64, ← ofLE_toLE_u64 q.retentionUntil.toUInt64,
    int64_bytes, int64_bytes]

theorem applyGcMigrate_encode (idx : WalIndex) (p : WalIndex.Place) (q : GcMigratePayload)
    (h : q.data.length < 2 ^ 32) (now : Int64) :
    idx.applyGcMigrate p q.encode now =
      ((idx.applyGcMigrateRecord p q.needleId.toNat q.expectVersion.toNat q.data.length now).1,
        .ok (idx.applyGcMigrateRecord p q.needleId.toNat q.expectVersion.toNat
          q.data.length now).2) := by
  have hlen : q.encode.length = 20 + q.data.length := by
    simp [GcMigratePayload.encode]
    omega
  have hid : ofLE (slice q.encode 0 8) = q.needleId.toNat := by
    rw [GcMigratePayload.encode, slice_head (by simp), ofLE_toLE_u64]
  have hexp : ofLE (slice q.encode 8 16) = q.expectVersion.toNat := by
    have hslice : slice q.encode 8 16 = toLE 8 q.expectVersion.toNat := by
      simp [GcMigratePayload.encode, slice_skip, slice_head]
    rw [hslice, ofLE_toLE_u64]
  have hdata : ofLE (slice q.encode 16 20) = q.data.length := by
    have hslice : slice q.encode 16 20 = toLE 4 q.data.length := by
      simp [GcMigratePayload.encode, slice_skip, slice_head]
    rw [hslice, ofLE_toLE_of_lt (by simpa using h)]
  unfold WalIndex.applyGcMigrate
  simp only [hlen, hid, hexp, hdata, ne_eq, not_true_eq_false, if_false]
  rw [if_neg (by omega)]

end PowerFS.Wal.Records
