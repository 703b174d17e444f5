import PowerFS.Lib.FinTable
import PowerFS.Wal.Payload

/-! # The in-memory index

`wal/index.rs`: live needles, tombstones, the ledger of dead copies, purge markers
and the space statistics that every operation keeps in step with them.

Identifiers, sequence numbers, offsets and byte counts are natural numbers here.
The source subtracts machine words without a check, and `IndexStats.underflow`
records whether any subtraction went below zero; its additions are unchecked too,
and stand for words as long as the bytes and records counted stay below `2 ^ 64`.

A hash map is a `Table`. Where the source iterates over one, the order is not
determined by its contents: a `HashOrder` is one such order. -/
namespace PowerFS.Wal.Index
open Lib.ByteString Lib.FinTable Wal.Frame Payload

def needleFlagMigrated : UInt32 := 0x01

structure NeedleEntry where
  needleId : Nat
  segId : Nat
  /-- Start of the payload: the frame offset plus the frame header. -/
  offset : Nat
  dataLen : Nat
  crc : UInt32
  versionLsn : Nat
  createdAt : Int64
  flags : UInt32
  deriving DecidableEq

structure TombstoneEntry where
  needleId : Nat
  segId : Nat
  offset : Nat
  dataLen : Nat
  crc : UInt32
  /-- The LSN of the DELETE record. -/
  versionLsn : Nat
  deletedAt : Int64
  retentionUntil : Int64
  deriving DecidableEq

structure DeadCopy where
  segId : Nat
  offset : Nat
  dataLen : Nat
  crc : UInt32
  versionLsn : Nat
  deriving DecidableEq

def NeedleEntry.toDead (e : NeedleEntry) : DeadCopy :=
  ⟨e.segId, e.offset, e.dataLen, e.crc, e.versionLsn⟩

def TombstoneEntry.toDead (t : TombstoneEntry) : DeadCopy :=
  ⟨t.segId, t.offset, t.dataLen, t.crc, t.versionLsn⟩

/-! ## Statistics

Bytes move between the accounts `used`, `staging` and `garbage`; each move is one
operation here. -/

structure IndexStats where
  usedBytes : Nat
  stagingBytes : Nat
  garbageBytes : Nat
  pinnedBytes : Nat
  activeCount : Nat
  deletedCount : Nat
  /-- Some subtraction so far had a larger subtrahend, saturating or not. -/
  underflow : Bool
  deriving DecidableEq

namespace IndexStats

def zero : IndexStats := ⟨0, 0, 0, 0, 0, 0, false⟩

def addLive (s : IndexStats) (n : Nat) : IndexStats :=
  { s with usedBytes := s.usedBytes + n, activeCount := s.activeCount + 1 }

def dropLive (s : IndexStats) (n : Nat) : IndexStats :=
  { s with
    usedBytes := s.usedBytes - n
    activeCount := s.activeCount - 1
    underflow := s.underflow || decide (s.usedBytes < n) || decide (s.activeCount < 1) }

def addStaged (s : IndexStats) (n : Nat) : IndexStats :=
  { s with stagingBytes := s.stagingBytes + n, deletedCount := s.deletedCount + 1 }

def dropStaged (s : IndexStats) (n : Nat) : IndexStats :=
  { s with
    deletedCount := s.deletedCount - 1
    stagingBytes := s.stagingBytes - n
    underflow := s.underflow || decide (s.deletedCount < 1) || decide (s.stagingBytes < n) }

def addGarbage (s : IndexStats) (n : Nat) : IndexStats :=
  { s with garbageBytes := s.garbageBytes + n }

def dropGarbage (s : IndexStats) (n : Nat) : IndexStats :=
  { s with
    garbageBytes := s.garbageBytes - n
    underflow := s.underflow || decide (s.garbageBytes < n) }

/-- An overwrite: the old version turns to garbage, the new one is used. -/
def replaceLive (s : IndexStats) (old new : Nat) : IndexStats :=
  { s with
    garbageBytes := s.garbageBytes + old
    usedBytes := s.usedBytes - old + new
    underflow := s.underflow || decide (s.usedBytes < old) }

end IndexStats

inductive IndexError where
  | shortPayload (op : String) (got : Nat)
  deriving DecidableEq, Repr

structure WalIndex where
  needles : Table NeedleEntry
  tombstones : Table TombstoneEntry
  deadCopies : List DeadCopy
  stats : IndexStats
  lastLsn : Nat
  maxNeedleId : Nat
  lastCkptAnchor : Option (Nat × Nat)
  purged : Table Nat
  volumeSize : Nat

/-- An order in which hash maps are iterated. -/
structure HashOrder where
  entries : {V : Type} → Table V → List (Nat × V)
  perm : ∀ {V : Type} (m : Table V), (entries m).Perm (toList m)

def HashOrder.values (o : HashOrder) {V : Type} (m : Table V) : List V :=
  (o.entries m).map Prod.snd

/-- Iteration in key order. -/
def HashOrder.byKey : HashOrder := ⟨toList, fun _ => List.Perm.refl _⟩

namespace WalIndex

def empty : WalIndex := ⟨∅, ∅, [], .zero, 0, 0, none, ∅, 0⟩

/-- Where a record was found: its segment and frame. -/
structure Place where
  segId : Nat
  frameOffset : Nat
  crc : UInt32
  lsn : Nat
  deriving DecidableEq

def entryAt (p : Place) (needleId dataLen : Nat) (now : Int64) (flags : UInt32) : NeedleEntry :=
  ⟨needleId, p.segId, p.frameOffset + frameHeaderSize, dataLen, p.crc, p.lsn, now, flags⟩

def seen (idx : WalIndex) (lsn : Nat) : WalIndex := { idx with lastLsn := max idx.lastLsn lsn }

def seenNeedle (idx : WalIndex) (needleId lsn : Nat) : WalIndex :=
  { idx with lastLsn := max idx.lastLsn lsn, maxNeedleId := max idx.maxNeedleId needleId }

/-- The version guard: the record is not newer than what the index has for the id. -/
def stale (idx : WalIndex) (needleId lsn : Nat) : Bool :=
  (match idx.needles.lookup needleId with
    | some cur => decide (lsn ≤ cur.versionLsn)
    | none => false) ||
  (match idx.tombstones.lookup needleId with
    | some tb => decide (lsn ≤ tb.versionLsn)
    | none => false)

/-- A purge marker covers the record. -/
def suppressed (idx : WalIndex) (needleId lsn : Nat) : Bool :=
  match idx.purged.lookup needleId with
  | some purgeLsn => decide (lsn ≤ purgeLsn)
  | none => false

/-- Move the copy a tombstone refers to into the ledger of dead copies. -/
def buryTombstone (idx : WalIndex) (needleId : Nat) (tb : TombstoneEntry) : WalIndex :=
  { idx with
    tombstones := idx.tombstones.erase needleId
    deadCopies := idx.deadCopies ++ [tb.toDead]
    stats := (idx.stats.dropStaged tb.dataLen).addGarbage tb.dataLen }

def addNeedle (idx : WalIndex) (entry : NeedleEntry) : WalIndex :=
  { idx with
    needles := idx.needles.insert entry.needleId entry
    stats := idx.stats.addLive entry.dataLen }

def replaceNeedle (idx : WalIndex) (old entry : NeedleEntry) : WalIndex :=
  { idx with
    needles := idx.needles.insert entry.needleId entry
    deadCopies := idx.deadCopies ++ [old.toDead]
    stats := idx.stats.replaceLive old.dataLen entry.dataLen }

/-- The part of `apply_data` behind the purge check. -/
def installData (idx : WalIndex) (entry : NeedleEntry) : WalIndex :=
  if idx.stale entry.needleId entry.versionLsn then idx
  else match idx.tombstones.lookup entry.needleId with
    | some tb => (idx.buryTombstone entry.needleId tb).addNeedle entry
    | none => match idx.needles.lookup entry.needleId with
      | none => idx.addNeedle entry
      | some old => idx.replaceNeedle old entry

/-- `apply_data` on a payload that has been taken apart. -/
def applyDataRecord (idx : WalIndex) (p : Place) (needleId dataLen : Nat) (now : Int64) :
    WalIndex :=
  let idx := idx.seenNeedle needleId p.lsn
  if idx.suppressed needleId p.lsn then idx
  -- a newer DATA starts a new generation: the marker, if there is one, goes
  else { idx with purged := idx.purged.erase needleId }.installData
    (entryAt p needleId dataLen now 0)

def applyData (idx : WalIndex) (p : Place) (payload : Bytes) (now : Int64) :
    WalIndex × Except IndexError Unit :=
  if payload.length < 12 then (idx, .error (.shortPayload "DATA" payload.length))
  else
    let needleId := ofLE (slice payload 0 8)
    let dataLen := ofLE (slice payload 8 12)
    if payload.length ≠ 12 + dataLen then (idx, .error (.shortPayload "DATA" payload.length))
    else (idx.applyDataRecord p needleId dataLen now, .ok ())

def tombstoneOf (e : NeedleEntry) (needleId lsn : Nat) (deletedAt retentionUntil : Int64) :
    TombstoneEntry :=
  ⟨needleId, e.segId, e.offset, e.dataLen, e.crc, lsn, deletedAt, retentionUntil⟩

/-- Turn a live needle into a tombstone. -/
def entomb (idx : WalIndex) (needleId : Nat) (active : NeedleEntry) (tb : TombstoneEntry) :
    WalIndex :=
  { idx with
    needles := idx.needles.erase needleId
    tombstones := idx.tombstones.insert needleId tb
    stats := (idx.stats.dropLive active.dataLen).addStaged active.dataLen }

def applyDeleteRecord (idx : WalIndex) (lsn needleId : Nat) (deletedAt retentionUntil : Int64) :
    WalIndex :=
  let idx := idx.seen lsn
  if idx.stale needleId lsn then idx
  else match idx.needles.lookup needleId with
    -- a DELETE of an id that is not live is ignored
    | none => idx
    | some active =>
      idx.entomb needleId active (tombstoneOf active needleId lsn deletedAt retentionUntil)

def applyDelete (idx : WalIndex) (lsn : Nat) (payload : Bytes) :
    WalIndex × Except IndexError Unit :=
  if payload.length ≠ 24 then (idx, .error (.shortPayload "DELETE" payload.length))
  else
    let needleId := ofLE (slice payload 0 8)
    let deletedAt := (UInt64.ofNat (ofLE (slice payload 8 16))).toInt64
    let retentionUntil := (UInt64.ofNat (ofLE (slice payload 16 24))).toInt64
    (idx.applyDeleteRecord lsn needleId deletedAt retentionUntil, .ok ())

/-- `apply_gc_migrate` on a payload that has been taken apart; the result says
whether the record was applied. -/
def applyGcMigrateRecord (idx : WalIndex) (p : Place) (needleId expectVersion dataLen : Nat)
    (now : Int64) : WalIndex × Bool :=
  let idx := idx.seenNeedle needleId p.lsn
  let entry := entryAt p needleId dataLen now needleFlagMigrated
  if idx.suppressed needleId p.lsn then (idx, false)
  else match idx.tombstones.lookup needleId with
    | some _ => (idx, false)
    | none => match idx.needles.lookup needleId with
      -- the originals were reclaimed: this record is the only copy left
      | none => (idx.addNeedle entry, true)
      | some cur =>
        if cur.versionLsn = expectVersion then (idx.replaceNeedle cur entry, true)
        else (idx, false)

def applyGcMigrate (idx : WalIndex) (p : Place) (payload : Bytes) (now : Int64) :
    WalIndex × Except IndexError Bool :=
  if payload.length < 20 then (idx, .error (.shortPayload "GC_MIGRATE" payload.length))
  else
    let needleId := ofLE (slice payload 0 8)
    let expectVersion := ofLE (slice payload 8 16)
    let dataLen := ofLE (slice payload 16 20)
    if payload.length ≠ 20 + dataLen then
      (idx, .error (.shortPayload "GC_MIGRATE" payload.length))
    else
      let out := idx.applyGcMigrateRecord p needleId expectVersion dataLen now
      (out.1, .ok out.2)

def applyCkptAnchor (idx : WalIndex) (ckptSeq appliedLsn frameLsn : Nat) : WalIndex :=
  let idx := idx.seen frameLsn
  -- the source compares with the applied LSN of the anchor it holds
  let newer := match idx.lastCkptAnchor with
    | some (_, l) => decide (l < frameLsn)
    | none => true
  if newer then { idx with lastCkptAnchor := some (ckptSeq, appliedLsn) } else idx

def setVolumeSize (idx : WalIndex) (size : Nat) : WalIndex := { idx with volumeSize := size }

def applyVolumeMeta (idx : WalIndex) (lsn : Nat) (payload : Bytes) :
    WalIndex × Except IndexError Nat :=
  match VolumeMetaPayload.decode payload with
  | .error _ => (idx, .error (.shortPayload "volume_meta" payload.length))
  | .ok parsed => match parsed.takeVolumeSize with
    | none => (idx, .error (.shortPayload "volume_meta.size" payload.length))
    | some newSize => ((idx.setVolumeSize newSize).seen lsn, .ok newSize)

def advanceReplayCursor (idx : WalIndex) (appliedLsn : Nat) : WalIndex := idx.seen appliedLsn

def restore (idx : WalIndex) (needleId : Nat) : WalIndex × Except IndexError Unit :=
  match idx.tombstones.lookup needleId with
  | none => (idx, .ok ())
  | some tb =>
    ({ idx with
      tombstones := idx.tombstones.erase needleId
      needles := idx.needles.insert needleId
        ⟨tb.needleId, tb.segId, tb.offset, tb.dataLen, tb.crc, tb.versionLsn, tb.deletedAt, 0⟩
      stats := (idx.stats.dropStaged tb.dataLen).addLive tb.dataLen }, .ok ())

def expiredTombstones (o : HashOrder) (idx : WalIndex) (now : Int64) : List TombstoneEntry :=
  (o.values idx.tombstones).filter fun tb => decide (tb.retentionUntil ≤ now)

/-- The marker of an id is the largest purge LSN seen for it. -/
def markPurged (purged : Table Nat) (needleId lsn : Nat) : Table Nat :=
  purged.insert needleId (max ((purged.lookup needleId).getD 0) lsn)

/-- Bury the tombstone of an id, if it has one. -/
def bury (idx : WalIndex) (needleId : Nat) : WalIndex :=
  match idx.tombstones.lookup needleId with
  | some tb => idx.buryTombstone needleId tb
  | none => idx

def applyTombPurgeRecord (idx : WalIndex) (lsn needleId : Nat) : WalIndex :=
  let idx := (idx.seen lsn).bury needleId
  { idx with purged := markPurged idx.purged needleId lsn }

def applyTombPurge (idx : WalIndex) (lsn : Nat) (payload : Bytes) :
    WalIndex × Except IndexError Unit :=
  if payload.length ≠ 16 then (idx, .error (.shortPayload "TOMB_PURGE" payload.length))
  else (idx.applyTombPurgeRecord lsn (ofLE (slice payload 0 8)), .ok ())

def purgeExpired (o : HashOrder) (idx : WalIndex) (now : Int64) : WalIndex × Nat :=
  let expired := (expiredTombstones o idx now).map (·.needleId)
  (expired.foldl bury idx, expired.length)

def loadNeedle (idx : WalIndex) (n : NeedleEntry) : WalIndex :=
  (idx.seenNeedle n.needleId n.versionLsn).addNeedle n

def loadTombstone (idx : WalIndex) (t : TombstoneEntry) : WalIndex :=
  { idx with
    lastLsn := max idx.lastLsn t.versionLsn
    stats := idx.stats.addStaged t.dataLen
    tombstones := idx.tombstones.insert t.needleId t }

def loadDead (idx : WalIndex) (d : DeadCopy) : WalIndex :=
  { idx with
    stats := idx.stats.addGarbage d.dataLen
    deadCopies := idx.deadCopies ++ [d] }

def loadPurged (idx : WalIndex) (e : Nat × Nat) : WalIndex :=
  { idx with
    lastLsn := max idx.lastLsn e.2
    purged := markPurged idx.purged e.1 e.2 }

def loadFrom (idx : WalIndex) (needles : List NeedleEntry) (tombstones : List TombstoneEntry)
    (dead : List DeadCopy) (purged : List (Nat × Nat)) : WalIndex :=
  let idx := needles.foldl loadNeedle idx
  let idx := tombstones.foldl loadTombstone idx
  let idx := dead.foldl loadDead idx
  purged.foldl loadPurged idx

/-- Drop the dead copies of a reclaimed segment; the bytes reclaimed are returned. -/
def removeSegGarbage (idx : WalIndex) (segId : Nat) : WalIndex × Nat :=
  let doomed := idx.deadCopies.filter fun d => decide (d.segId = segId)
  let reclaimed := (doomed.map (·.dataLen)).sum
  ({ idx with
    deadCopies := idx.deadCopies.filter fun d => decide (d.segId ≠ segId)
    stats := idx.stats.dropGarbage reclaimed }, reclaimed)

/-! ## What a record does -/

/-- A record at `lsn` that names `id` has been seen: nothing has changed but the cursors, the
anchor and the markers. -/
structure Sees (lsn id : Nat) (idx idx' : WalIndex) : Prop where
  needles : idx'.needles = idx.needles
  tombstones : idx'.tombstones = idx.tombstones
  deadCopies : idx'.deadCopies = idx.deadCopies
  stats : idx'.stats = idx.stats
  volumeSize : idx'.volumeSize = idx.volumeSize
  lastLsn : idx'.lastLsn = max idx.lastLsn lsn
  maxNeedleId : idx'.maxNeedleId = max idx.maxNeedleId id
  purged : ∀ k l, idx'.purged.lookup k = some l →
    idx.purged.lookup k = some l ∨ l = max ((idx.purged.lookup k).getD 0) lsn

/-- What the record does to the tables after that. -/
inductive Move (lsn : Nat) (idx : WalIndex) : WalIndex → Prop
  | nothing : Move lsn idx idx
  | add (e : NeedleEntry) (hn : idx.needles.lookup e.needleId = none)
    (ht : idx.tombstones.lookup e.needleId = none) (hv : e.versionLsn = lsn)
    (hid : e.needleId ≤ idx.maxNeedleId) : Move lsn idx (idx.addNeedle e)
  | replace (old e : NeedleEntry) (hn : idx.needles.lookup e.needleId = some old)
    (hv : e.versionLsn = lsn) (hid : e.needleId ≤ idx.maxNeedleId) :
    Move lsn idx (idx.replaceNeedle old e)
  | bury (id : Nat) (tb : TombstoneEntry) (ht : idx.tombstones.lookup id = some tb) :
    Move lsn idx (idx.buryTombstone id tb)
  | revive (tb : TombstoneEntry) (e : NeedleEntry)
    (ht : idx.tombstones.lookup e.needleId = some tb) (hv : e.versionLsn = lsn)
    (hid : e.needleId ≤ idx.maxNeedleId) :
    Move lsn idx ((idx.buryTombstone e.needleId tb).addNeedle e)
  | entomb (id : Nat) (active : NeedleEntry) (tb : TombstoneEntry)
    (hn : idx.needles.lookup id = some active) (hkey : tb.needleId = id)
    (hlen : tb.dataLen = active.dataLen) (hv : tb.versionLsn = lsn) :
    Move lsn idx (idx.entomb id active tb)

def Recorded (lsn id : Nat) (idx out : WalIndex) : Prop :=
  ∃ idx', Sees lsn id idx idx' ∧ Move lsn idx' out

variable {lsn id : Nat} {idx out : WalIndex}

theorem Recorded.lastLsn (h : Recorded lsn id idx out) : out.lastLsn = max idx.lastLsn lsn := by
  obtain ⟨idx', hs, hm⟩ := h
  rw [← hs.lastLsn]
  cases hm <;> rfl

theorem Recorded.maxNeedleId (h : Recorded lsn id idx out) :
    out.maxNeedleId = max idx.maxNeedleId id := by
  obtain ⟨idx', hs, hm⟩ := h
  rw [← hs.maxNeedleId]
  cases hm <;> rfl

theorem Recorded.volumeSize (h : Recorded lsn id idx out) : out.volumeSize = idx.volumeSize := by
  obtain ⟨idx', hs, hm⟩ := h
  rw [← hs.volumeSize]
  cases hm <;> rfl

section

variable (idx : WalIndex)

theorem sees_seen (lsn : Nat) : Sees lsn 0 idx (idx.seen lsn) :=
  ⟨rfl, rfl, rfl, rfl, rfl, rfl, (Nat.max_zero _).symm, fun _ _ => Or.inl⟩

theorem sees_seenNeedle (k lsn : Nat) : Sees lsn k idx (idx.seenNeedle k lsn) :=
  ⟨rfl, rfl, rfl, rfl, rfl, rfl, rfl, fun _ _ => Or.inl⟩

theorem installData_move (e : NeedleEntry) (hid : e.needleId ≤ idx.maxNeedleId) :
    Move e.versionLsn idx (idx.installData e) := by
  fun_cases installData with
  | case1 => exact .nothing
  | case2 _ tb ht => exact .revive tb e ht rfl hid
  | case3 _ ht hn => exact .add e hn ht rfl hid
  | case4 _ _ old hn => exact .replace old e hn rfl hid

theorem applyDataRecord_recorded (p : Place) (k dataLen : Nat) (now : Int64) :
    Recorded p.lsn k idx (idx.applyDataRecord p k dataLen now) := by
  have herased : Sees p.lsn k idx { idx.seenNeedle k p.lsn with purged := idx.purged.erase k } :=
    ⟨rfl, rfl, rfl, rfl, rfl, rfl, rfl, fun _ _ hl => Or.inl (lookup_erase_some hl)⟩
  unfold applyDataRecord
  dsimp only
  split
  · exact ⟨_, sees_seenNeedle idx k p.lsn, .nothing⟩
  · exact ⟨_, herased, installData_move _ (entryAt p k dataLen now 0) (le_max_right _ _)⟩

theorem applyGcMigrateRecord_recorded (p : Place) (k expectVersion dataLen : Nat) (now : Int64) :
    Recorded p.lsn k idx (idx.applyGcMigrateRecord p k expectVersion dataLen now).1 := by
  refine ⟨_, sees_seenNeedle idx k p.lsn, ?_⟩
  fun_cases applyGcMigrateRecord with
  | case3 _ entry _ ht hn => exact .add entry hn ht rfl (le_max_right _ _)
  | case4 _ entry _ _ cur hn => exact .replace cur entry hn rfl (le_max_right _ _)
  | _ => exact .nothing

theorem applyTombPurgeRecord_recorded (lsn k : Nat) :
    Recorded lsn 0 idx (idx.applyTombPurgeRecord lsn k) := by
  have hmarked : Sees lsn 0 idx { idx.seen lsn with purged := markPurged idx.purged k lsn } := by
    refine ⟨rfl, rfl, rfl, rfl, rfl, rfl, (Nat.max_zero _).symm, fun x l hl => ?_⟩
    by_cases hx : x = k
    · subst hx
      exact .inr (Option.some.inj ((Finmap.lookup_insert _).symm.trans hl)).symm
    · exact .inl ((Finmap.lookup_insert_of_ne _ hx).symm.trans hl)
  refine ⟨_, hmarked, ?_⟩
  unfold applyTombPurgeRecord bury
  split
  · rename_i tb ht
    exact .bury k tb ht
  · exact .nothing

/-- An anchor moves the cursor and nothing that a record depends on. -/
theorem applyCkptAnchor_eq (ckptSeq appliedLsn frameLsn : Nat) :
    ∃ anchor, idx.applyCkptAnchor ckptSeq appliedLsn frameLsn =
      { idx.seen frameLsn with lastCkptAnchor := anchor } := by
  unfold applyCkptAnchor
  dsimp only
  split
  · split <;> exact ⟨_, rfl⟩
  · exact ⟨_, rfl⟩

theorem applyCkptAnchor_recorded (ckptSeq appliedLsn lsn : Nat) :
    Recorded lsn 0 idx (idx.applyCkptAnchor ckptSeq appliedLsn lsn) := by
  obtain ⟨anchor, h⟩ := idx.applyCkptAnchor_eq ckptSeq appliedLsn lsn
  exact ⟨{ idx.seen lsn with lastCkptAnchor := anchor }, { sees_seen idx lsn with }, h ▸ .nothing⟩

theorem applyDeleteRecord_cases (lsn needleId : Nat) (deletedAt retentionUntil : Int64) :
    ((idx.stale needleId lsn = true ∨ idx.needles.lookup needleId = none) ∧
      idx.applyDeleteRecord lsn needleId deletedAt retentionUntil = idx.seen lsn) ∨
    (idx.stale needleId lsn = false ∧ ∃ active, idx.needles.lookup needleId = some active ∧
      idx.applyDeleteRecord lsn needleId deletedAt retentionUntil = (idx.seen lsn).entomb needleId
        active (tombstoneOf active needleId lsn deletedAt retentionUntil)) := by
  fun_cases applyDeleteRecord with
  | case1 _ hs => exact .inl ⟨.inl hs, rfl⟩
  | case2 _ _ hn => exact .inl ⟨.inr hn, rfl⟩
  | case3 _ hs active hn => exact .inr ⟨Bool.eq_false_iff.mpr hs, active, hn, rfl⟩

theorem applyDeleteRecord_recorded (lsn k : Nat) (deletedAt retentionUntil : Int64) :
    Recorded lsn 0 idx (idx.applyDeleteRecord lsn k deletedAt retentionUntil) := by
  refine ⟨_, sees_seen idx lsn, ?_⟩
  obtain ⟨_, h⟩ | ⟨_, active, hn, h⟩ := idx.applyDeleteRecord_cases lsn k deletedAt retentionUntil
  · rw [h]
    exact .nothing
  · rw [h]
    exact .entomb k active _ hn rfl rfl rfl

/-! ## What the operations can do -/

theorem applyData_cases (p : Place) (payload : Bytes) (now : Int64) :
    (∃ e, idx.applyData p payload now = (idx, .error e)) ∨
    (payload.length = 12 + ofLE (slice payload 8 12) ∧
      idx.applyData p payload now =
        (idx.applyDataRecord p (ofLE (slice payload 0 8)) (ofLE (slice payload 8 12)) now,
          .ok ())) := by
  unfold applyData
  split
  · exact .inl ⟨_, rfl⟩
  dsimp only
  split
  · exact .inl ⟨_, rfl⟩
  · rename_i hlen
    exact .inr ⟨not_not.mp hlen, rfl⟩

theorem applyDelete_cases (lsn : Nat) (payload : Bytes) :
    (∃ e, idx.applyDelete lsn payload = (idx, .error e)) ∨
    (payload.length = 24 ∧ idx.applyDelete lsn payload =
      (idx.applyDeleteRecord lsn (ofLE (slice payload 0 8))
        (UInt64.ofNat (ofLE (slice payload 8 16))).toInt64
        (UInt64.ofNat (ofLE (slice payload 16 24))).toInt64, .ok ())) := by
  unfold applyDelete
  split
  · exact .inl ⟨_, rfl⟩
  · rename_i hlen
    exact .inr ⟨not_not.mp hlen, rfl⟩

theorem applyGcMigrate_cases (p : Place) (payload : Bytes) (now : Int64) :
    (∃ e, idx.applyGcMigrate p payload now = (idx, .error e)) ∨
    (payload.length = 20 + ofLE (slice payload 16 20) ∧
      ∃ out, out = idx.applyGcMigrateRecord p (ofLE (slice payload 0 8))
        (ofLE (slice payload 8 16)) (ofLE (slice payload 16 20)) now ∧
      idx.applyGcMigrate p payload now = (out.1, .ok out.2)) := by
  unfold applyGcMigrate
  split
  · exact .inl ⟨_, rfl⟩
  dsimp only
  split
  · exact .inl ⟨_, rfl⟩
  · rename_i hlen
    exact .inr ⟨not_not.mp hlen, _, rfl, rfl⟩

theorem applyTombPurge_cases (lsn : Nat) (payload : Bytes) :
    (∃ e, idx.applyTombPurge lsn payload = (idx, .error e)) ∨
    (payload.length = 16 ∧ idx.applyTombPurge lsn payload =
      (idx.applyTombPurgeRecord lsn (ofLE (slice payload 0 8)), .ok ())) := by
  unfold applyTombPurge
  split
  · exact .inl ⟨_, rfl⟩
  · rename_i hlen
    exact .inr ⟨not_not.mp hlen, rfl⟩

theorem applyVolumeMeta_cases (lsn : Nat) (payload : Bytes) :
    (∃ e, idx.applyVolumeMeta lsn payload = (idx, .error e)) ∨
    (∃ newSize, idx.applyVolumeMeta lsn payload =
      ((idx.setVolumeSize newSize).seen lsn, .ok newSize)) := by
  unfold applyVolumeMeta
  split
  · exact .inl ⟨_, rfl⟩
  split
  · exact .inl ⟨_, rfl⟩
  · exact .inr ⟨_, rfl⟩

end

end WalIndex

end PowerFS.Wal.Index
