import PowerFS.Wal.Recovery

/-! # Records that have to fit a segment

What `SegSink::append` does with a record that no segment can take, and which needles the
size checks of `write` and `migrate_write` let through. -/
namespace PowerFS.Wal.RecordSizes
open Lib.ByteString Lib.Calls Wal.Frame Payload Segment Replay Directory Engine EngineOpen
  EngineDisk Recovery

variable (clock : Nat → Int64)

local instance : Checksum := ⟨Lib.Crc32c.crc32c⟩

theorem sample_opens : ∃ e, openEngine ReadSplit.whole sampleClock sampleClock
    sampleConfig Volume.fresh 0 = some (.ok e) ∧ Active e ∧ e.config = sampleConfig := by
  have hsome : ((openEngine ReadSplit.whole sampleClock sampleClock sampleConfig
      Volume.fresh 0).bind Except.toOption).isSome = true := by decide +kernel
  obtain ⟨e, he⟩ := Option.isSome_iff_exists.mp hsome
  obtain ⟨_ | e, hopen, hok⟩ := Option.bind_eq_some_iff.mp he
  · cases hok
  obtain ⟨hconfig, _, _, _, htr, _⟩ := open_fresh_traced hopen
  exact ⟨e, hopen, htr.running.stored.active, hconfig⟩

/-- **The append loop ends iff the record fits an empty segment**, and then after at most
one roll. A failed append pads the segment, so the test for a fresh one never holds. -/
theorem append_ends_iff [Checksum] (e : { e : WalEngine // Active e }) (lsn : Nat)
    (rtype : RecordType) (flags : UInt8) (payload : Bytes) :
    ((∃ n out e', appendLoop clock lsn rtype flags payload n e.1 = some (out, e')) ↔
      frameHeaderSize + payload.length ≤ e.1.config.segSize - segHeaderSize) ∧
    (frameHeaderSize + payload.length ≤ e.1.config.segSize - segHeaderSize →
      ∃ p e', appendLoop clock lsn rtype flags payload 2 e.1 = some (.ok p, e')) := by
  obtain ⟨e, h⟩ := e
  have hends : frameHeaderSize + payload.length ≤ e.config.segSize - segHeaderSize →
      ∃ p e', appendLoop clock lsn rtype flags payload 2 e = some (.ok p, e') := by
    intro hfits
    by_cases hroom : frameHeaderSize + payload.length ≤ e.sink.writer.remaining
    · exact h.appends hroom 1
    obtain ⟨e₁, h₁, hconfig, hstart, hpass⟩ :=
      @Active.rolls _ clock e rtype flags lsn payload h (not_le.mp hroom)
    rw [hpass]
    refine h₁.appends ?_ 0
    rw [SegWriter.remaining, h₁.segSize, hconfig, hstart]
    exact hfits
  refine ⟨⟨?_, fun hfits => ?_⟩, hends⟩
  · rintro ⟨n, out, e', hloop⟩
    by_contra hsmall
    rw [h.stuck n e (not_le.mp hsmall)] at hloop
    cases hloop
  · obtain ⟨p, e', hloop⟩ := hends hfits
    exact ⟨2, _, e', hloop⟩

/-- A payload of 87 bytes, one more than a segment of 180 can take. -/
theorem oversized_append_hangs : ∃ e, openEngine ReadSplit.whole sampleClock
      sampleClock sampleConfig Volume.fresh 0 = some (.ok e) ∧
    ∀ n, appendLoop sampleClock 1 .data 0 (zeros 87) n e = none := by
  obtain ⟨e, hopen, hactive, hconfig⟩ := sample_opens
  refine ⟨e, hopen, fun n => hactive.stuck n e ?_⟩
  rw [hconfig]
  simp [sampleConfig, segHeaderSize, frameHeaderSize]

/-! ## Migration -/

def admitMigrate (data : Bytes) : EngineM Unit := do
  let e ← Call.get
  let need := frameHeaderSize + 20 + data.length
  if e.config.segSize - segHeaderSize < need then
    Call.fail (.recordTooLarge need e.config.segSize)
  else pure ()

/-- `migrate_write`: a copy of the needle in the active segment, and whether the index
took it. -/
def migrateWrite [Checksum] (needleId expectVersion : UInt64) (data : Bytes) :
    EngineM (CommitReceipt × Bool) := do
  admitMigrate data
  let payload := GcMigratePayload.encode ⟨needleId, expectVersion, data⟩
  let receipt ← enqueue clock .gcMigrate payload
  let t ← now clock
  let applied ← applyIndex fun idx => idx.applyGcMigrate receipt.place payload t
  pure (receipt, applied)

/-- The call is refused since the record would not fit a segment. -/
def TooLarge {α : Type} (x : EngineM α) (e : WalEngine) : Prop :=
  ∃ need segSize, Returns x e (.error (.recordTooLarge need segSize)) e

variable {data : Bytes} {e : WalEngine}

theorem tooLarge_iff {x : WalEngine → EngineM Unit} (hx : ¬ TooLarge (x e) e) (need : Nat) :
    TooLarge (Call.get >>= fun e => if e.config.segSize - segHeaderSize < need then
      Call.fail (.recordTooLarge need e.config.segSize) else x e) e ↔
      e.config.segSize - segHeaderSize < need := by
  constructor
  · rintro ⟨a, b, h⟩
    by_contra hfits
    have h := h.get_bind
    rw [if_neg hfits] at h
    exact hx ⟨a, b, h⟩
  · intro hsmall
    refine ⟨need, e.config.segSize, ?_⟩
    show (if e.config.segSize - segHeaderSize < need then _ else x e : EngineM Unit) e = _
    rw [if_pos hsmall]
    rfl

theorem tooLarge_write : TooLarge (admitWrite data) e ↔
    e.config.segSize - segHeaderSize < frameHeaderSize + 12 + data.length := by
  refine tooLarge_iff ?_ _
  rintro ⟨a, b, h⟩
  split at h
  · cases h.fail.1
  · cases h.pure.1

theorem tooLarge_migrate : TooLarge (admitMigrate data) e ↔
    e.config.segSize - segHeaderSize < frameHeaderSize + 20 + data.length := by
  refine tooLarge_iff ?_ _
  rintro ⟨a, b, h⟩
  cases h.pure.1

/-- **A needle that can be written can be migrated iff it is not among the eight longest**:
the record of a migration has eight bytes more than the record of a write. -/
theorem migratable_iff (e : WalEngine) (data : Bytes) :
    (¬ TooLarge (admitWrite data) e →
      ∀ e' : WalEngine, e'.config = e.config → ¬ TooLarge (admitMigrate data) e') ↔
    (data.length + 8 ≤ e.config.segSize - (segHeaderSize + frameHeaderSize + 12) ∨
      e.config.segSize < segHeaderSize + frameHeaderSize + 12 + data.length) := by
  simp only [tooLarge_write, tooLarge_migrate]
  constructor
  · intro h
    have := fun hw => h hw e rfl
    omega
  · intro h hw e' hconfig
    rw [hconfig]
    omega

/-- A needle of 74 bytes is stored in a segment of 180, and stays there. -/
theorem longest_needle_stays : ∃ e, openEngine ReadSplit.whole sampleClock
      sampleClock sampleConfig Volume.fresh 0 = some (.ok e) ∧
    ¬ TooLarge (admitWrite (zeros 74)) e ∧
    TooLarge (migrateWrite sampleClock 1 1 (zeros 74)) e := by
  obtain ⟨e, hopen, _, hconfig⟩ := sample_opens
  refine ⟨e, hopen, ?_, ?_⟩
  · rw [tooLarge_write, hconfig]
    simp [sampleConfig, segHeaderSize, frameHeaderSize]
  · have hlarge : TooLarge (admitMigrate (zeros 74)) e := by
      rw [tooLarge_migrate, hconfig]
      simp [sampleConfig, segHeaderSize, frameHeaderSize]
    obtain ⟨need, size, h⟩ := hlarge
    exact ⟨need, size, Returns.bind_error h⟩

end PowerFS.Wal.RecordSizes
