import PowerFS.Wal.IndexAccounting
import PowerFS.Wal.LogContents

/-! # What a frame says

What a record does to an index depends on the frame only through the numbers in its
header and payload. `Effect` is a record as those numbers; a frame whose payload is
refused says nothing. Facts about applying records are proved once per kind of
record here. -/
namespace PowerFS.Wal.Effects
open Lib.ByteString Segment Payload Index IndexAccounting Replay

inductive Effect where
  | data (p : WalIndex.Place) (needleId dataLen : Nat)
  | delete (lsn needleId : Nat) (deletedAt retentionUntil : Int64)
  | migrate (p : WalIndex.Place) (needleId expectVersion dataLen : Nat)
  | purge (lsn needleId : Nat)
  | volume (lsn newSize : Nat)
  | anchor (lsn ckptSeq appliedLsn : Nat)
  | nothing
  deriving DecidableEq

def Effect.apply (idx : WalIndex) (now : Int64) : Effect → WalIndex
  | .data p needleId dataLen => idx.applyDataRecord p needleId dataLen now
  | .delete lsn needleId deletedAt retentionUntil =>
    idx.applyDeleteRecord lsn needleId deletedAt retentionUntil
  | .migrate p needleId expectVersion dataLen =>
    (idx.applyGcMigrateRecord p needleId expectVersion dataLen now).1
  | .purge lsn needleId => idx.applyTombPurgeRecord lsn needleId
  | .volume lsn newSize => (idx.setVolumeSize newSize).seen lsn
  | .anchor lsn ckptSeq appliedLsn => idx.applyCkptAnchor ckptSeq appliedLsn lsn
  | .nothing => idx

def effectOf (segId : Nat) (f : ScannedFrame) : Effect :=
  let b := f.payload
  let lsn := f.fmeta.lsn.toNat
  match f.fmeta.rtype with
  | .data =>
    if b.length < 12 then .nothing
    else if b.length ≠ 12 + ofLE (slice b 8 12) then .nothing
    else .data (placeOf segId f.fmeta) (ofLE (slice b 0 8)) (ofLE (slice b 8 12))
  | .delete =>
    if b.length ≠ 24 then .nothing
    else .delete lsn (ofLE (slice b 0 8)) (UInt64.ofNat (ofLE (slice b 8 16))).toInt64
      (UInt64.ofNat (ofLE (slice b 16 24))).toInt64
  | .gcMigrate =>
    if b.length < 20 then .nothing
    else if b.length ≠ 20 + ofLE (slice b 16 20) then .nothing
    else .migrate (placeOf segId f.fmeta) (ofLE (slice b 0 8)) (ofLE (slice b 8 16))
      (ofLE (slice b 16 20))
  | .tombPurge => if b.length ≠ 16 then .nothing else .purge lsn (ofLE (slice b 0 8))
  | .volumeMeta => match VolumeMetaPayload.decode b with
    | .error _ => .nothing
    | .ok parsed => match parsed.takeVolumeSize with
      | none => .nothing
      | some newSize => .volume lsn newSize
  | .ckptAnchor =>
    if b.length = 16 then .anchor lsn (ofLE (slice b 0 8)) (ofLE (slice b 8 16)) else .nothing
  | .pad | .attr | .snapTake | .snapDrop => .nothing

/-- **Replay applies what the frame says.** -/
theorem applyFrame_effect (idx : WalIndex) (segId : Nat) (f : ScannedFrame) (now : Int64) :
    (applyFrame idx segId f now).1 = (effectOf segId f).apply idx now := by
  unfold applyFrame effectOf
  cases hr : f.fmeta.rtype with
  | pad | attr | snapTake | snapDrop => rfl
  | data =>
    dsimp only
    unfold WalIndex.applyData
    split
    · rfl
    dsimp only
    split <;> rfl
  | delete =>
    dsimp only
    unfold WalIndex.applyDelete
    split <;> rfl
  | gcMigrate =>
    dsimp only
    unfold WalIndex.applyGcMigrate
    split
    · rfl
    dsimp only
    split <;> rfl
  | tombPurge =>
    dsimp only
    unfold WalIndex.applyTombPurge
    split <;> rfl
  | volumeMeta =>
    dsimp only
    unfold WalIndex.applyVolumeMeta
    cases VolumeMetaPayload.decode f.payload with
    | error e => rfl
    | ok parsed =>
      dsimp only
      cases parsed.takeVolumeSize with
      | none => rfl
      | some newSize => rfl
  | ckptAnchor =>
    dsimp only
    split <;> rfl

/-! ## The LSN and the id -/

def Effect.lsn : Effect → Nat
  | .data p _ _ => p.lsn
  | .delete lsn _ _ _ => lsn
  | .migrate p _ _ _ => p.lsn
  | .purge lsn _ => lsn
  | .volume lsn _ => lsn
  | .anchor lsn _ _ => lsn
  | .nothing => 0

/-- The id a record makes known to the index. -/
def Effect.named : Effect → Nat
  | .data _ needleId _ => needleId
  | .migrate _ needleId _ _ => needleId
  | _ => 0

/-- Every record is seen and makes one move; a volume record sets the capacity before. -/
theorem Effect.recorded (d : Effect) (idx : WalIndex) (now : Int64) :
    ∃ size, WalIndex.Recorded d.lsn d.named (idx.setVolumeSize size) (d.apply idx now) := by
  cases d with
  | data => exact ⟨_, idx.applyDataRecord_recorded ..⟩
  | delete => exact ⟨_, idx.applyDeleteRecord_recorded ..⟩
  | migrate => exact ⟨_, idx.applyGcMigrateRecord_recorded ..⟩
  | purge => exact ⟨_, idx.applyTombPurgeRecord_recorded ..⟩
  | volume lsn size => exact ⟨size, _, WalIndex.sees_seen .., .nothing⟩
  | anchor => exact ⟨_, idx.applyCkptAnchor_recorded ..⟩
  | nothing =>
    exact ⟨_, idx, ⟨rfl, rfl, rfl, rfl, rfl, (Nat.max_zero _).symm, (Nat.max_zero _).symm,
      fun _ _ => Or.inl⟩, .nothing⟩

theorem Effect.apply_lastLsn (d : Effect) (idx : WalIndex) (now : Int64) :
    (d.apply idx now).lastLsn = max idx.lastLsn d.lsn := by
  obtain ⟨_, h⟩ := d.recorded idx now
  exact h.lastLsn

theorem Effect.apply_maxNeedleId (d : Effect) (idx : WalIndex) (now : Int64) :
    (d.apply idx now).maxNeedleId = max idx.maxNeedleId d.named := by
  obtain ⟨_, h⟩ := d.recorded idx now
  exact h.maxNeedleId

/-! ## Consistency -/

theorem Effect.apply_consistent (d : Effect) {idx : WalIndex} (h : Consistent idx)
    (now : Int64) : Consistent (d.apply idx now) := by
  obtain ⟨size, hrec⟩ := d.recorded idx now
  have hsized : Consistent (idx.setVolumeSize size) := h
  exact hsized.record hrec

end PowerFS.Wal.Effects
