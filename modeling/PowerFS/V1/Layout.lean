import PowerFS.Lib.Extents
import PowerFS.V1.Compaction

/-! # Where the records of a volume lie

The records of all needles, live or deleted, lie apart from each other and below the
append offset, which is inside the file. A write lands above them. What a read returns
depends on the dirty entry of the needle, and else on the index entry and the bytes of
its record, wherever they are. -/
namespace PowerFS.V1.Layout
open Lib.ByteString Lib.FinTable Lib.Calls Lib.SparseFiles Lib.Extents Needle Metadata Coalescer
  State Operations Outcomes Requests Compaction Function VolumeMetadata

variable {v v' w : Volume} {info : NeedleInfo} {id lo hi : Nat} {m : VolumeMetadata} {data : Bytes}
  {r : Result Unit}

/-! ## The layout -/

def extentOf (info : NeedleInfo) : Extent := ⟨info.offset, info.size⟩

/-- The ranges of the live and of the deleted needles. -/
def place (m : VolumeMetadata) (p : Bool × Nat) : Option Extent :=
  ((if p.1 then m.needles else m.deleted).lookup p.2).map extentOf

structure Placed (v : Volume) : Prop where
  keyed : Keyed v.index
  live : ∀ id info, v.index.needles.lookup id = some info → info.deletedAt = none
  packed : Packed (place v.index) volumeDataOffset (appendOffset v)
  start : volumeDataOffset ≤ appendOffset v
  inFile : appendOffset v ≤ v.data.file.len
  inSize : appendOffset v ≤ v.data.totalSize
  total : v.data.totalSize = v.info.size + volumeDataOffset

theorem readSize_le (info : NeedleInfo) : readSize info ≤ info.size := Nat.mod_le _ _

theorem size_pos (info : NeedleInfo) : 0 < info.size := by
  unfold NeedleInfo.size recordSize needleHeaderSize
  omega

theorem place_live (h : m.needles.lookup id = some info) :
    place m (true, id) = some (extentOf info) := by
  unfold place
  rw [if_pos rfl, h]
  rfl

theorem place_dead (m : VolumeMetadata) (id : Nat) :
    place m (false, id) = (m.deleted.lookup id).map extentOf := rfl

theorem place_written (m : VolumeMetadata) (info : NeedleInfo) (s : AllocationStats) :
    place (m.written info s) =
      update (place m) (true, info.id) (some (extentOf info)) := by
  funext ⟨b, id⟩
  cases b with
  | false =>
    rw [update_of_ne (by simp)]
    rfl
  | true =>
    by_cases hid : id = info.id
    · subst hid
      rw [update_self]
      exact place_live (Finmap.lookup_insert _)
    rw [update_of_ne (fun he => hid (Prod.mk.inj he).2)]
    show ((m.needles.insert info.id info).lookup id).map extentOf = _
    rw [Finmap.lookup_insert_of_ne _ hid]
    rfl

/-- A needle that is deleted or restored keeps its range. -/
theorem packed_handOver {m' : VolumeMetadata} (b : Bool) (info' : NeedleInfo)
    (h : Packed (place m) lo hi) (hold : place m (b, id) = some (extentOf info'))
    (hgone : Writes (if b then m.needles else m.deleted) (if b then m'.needles else m'.deleted) id
      none)
    (hnew : Writes (if !b then m.needles else m.deleted) (if !b then m'.needles else m'.deleted) id
      (some info')) : Packed (place m') lo hi := by
  refine h.handOver b id ?_ ?_ fun c x hx => ?_
  · exact congrArg (Option.map extentOf) hgone.own
  · exact (congrArg (Option.map extentOf) hnew.own).trans hold.symm
  · rcases Bool.eq_or_eq_not c b with rfl | rfl
    · exact congrArg (Option.map extentOf) (hgone.other hx)
    · exact congrArg (Option.map extentOf) (hnew.other hx)

/-- The deleted family only shrinks. -/
theorem packed_deleted_sub {d : Table NeedleInfo} {s : Option AllocationStats}
    (h : Packed (place m) lo hi)
    (hsub : ∀ k info, d.lookup k = some info → m.deleted.lookup k = some info) :
    Packed (place { m with deleted := d, allocation := s }) lo hi := by
  refine h.sub fun ⟨b, x⟩ e he => ?_
  cases b with
  | true => exact he
  | false =>
    obtain ⟨info, hinfo, rfl⟩ := Option.map_eq_some_iff.mp he
    rw [place_dead, hsub x info hinfo]
    rfl

theorem syncAllocation_empty (size : Nat) (now : Int) :
    empty.syncAllocation size now = ⟨∅, ∅, some ⟨0, size, 1, volumeDataOffset, 0, 0,
      0, timestamp now⟩⟩ := by
  unfold syncAllocation
  have hrebuilt : empty.rebuildAllocationStats = (0, volumeDataOffset, 0, 0) := by
    simp [rebuildAllocationStats, listNeedles, listDeleted, empty, maxEnd]
  have hstats : empty.getAllocation = .default := rfl
  have hmark : max (max 0 volumeDataOffset) volumeDataOffset = volumeDataOffset := by simp
  rw [hrebuilt, hstats]
  simp only [AllocationStats.default, hmark, Nat.sub_self, Nat.sub_zero]
  rw [if_pos]
  · rfl
  · have hdiff : (0 : Nat) ≠ volumeDataOffset := by
      unfold volumeDataOffset
      omega
    exact .inr (.inr (.inr (.inr (.inl hdiff))))

/-- A new volume. -/
theorem placed_new (config : CoalescerConfig) (id size : Nat) (file : SparseFile) (now : Int) :
    Placed (openVolume config id size .empty file now) := by
  have hindex : (openVolume config id size .empty file now).index = _ :=
    syncAllocation_empty size now
  have happ : appendOffset (openVolume config id size .empty file now) = volumeDataOffset := by
    unfold appendOffset
    rw [hindex]
    rfl
  refine ⟨?_, ?_, ?_, ?_, ?_, ?_, rfl⟩
  · exact Keyed.empty.syncAllocation size now
  · intro x info hx
    rw [hindex, Finmap.lookup_empty] at hx
    cases hx
  · rw [hindex]
    refine (packed_none _ _).sub fun ⟨b, x⟩ e he => ?_
    cases b <;> exact absurd he (by simp [place])
  · exact happ.ge
  · rw [happ]
    exact Nat.le_add_left _ _
  · rw [happ]
    exact Nat.le_add_left _ _

/-- An index entry without its offset, and the bytes of its record. -/
def recordOf (v : Volume) (id : Nat) : Option (NeedleInfo × Bytes) :=
  (v.index.needles.lookup id).map fun info => ({ info with offset := 0 }, rawOf v info)

theorem recordOf_found (hold : v.index.needles.lookup id = some info) :
    recordOf v id = some ({ info with offset := 0 }, rawOf v info) := by
  unfold recordOf
  rw [hold]
  rfl

theorem recordOf_eq (hlookup : v'.index.needles.lookup id = v.index.needles.lookup id)
    (hraw : ∀ info, v.index.needles.lookup id = some info → rawOf v' info = rawOf v info) :
    recordOf v' id = recordOf v id := by
  unfold recordOf
  rw [hlookup]
  cases hold : v.index.needles.lookup id with
  | none => rfl
  | some info =>
    show some (_, rawOf v' info) = some (_, rawOf v info)
    rw [hraw info hold]

theorem recordOf_congr (hneedles : v'.index.needles = v.index.needles)
    (hraw : ∀ id info, v.index.needles.lookup id = some info → rawOf v' info = rawOf v info) :
    recordOf v' = recordOf v :=
  funext fun id => recordOf_eq (congrArg _ hneedles) (hraw id)

/-- The record of a needle of the index is inside the file. -/
def InFile (v : Volume) (info : NeedleInfo) : Prop :=
  info.offset + readSize info ≤ v.data.totalSize ∧ info.offset + readSize info ≤ v.data.file.len

section

variable (h : Placed v)
include h

section

variable (hold : v.index.needles.lookup id = some info)
include hold

theorem Placed.stop_le : info.offset + info.size ≤ appendOffset v :=
  (h.packed.inside _ _ (place_live hold)).2

theorem Placed.raw_le : info.offset + readSize info ≤ appendOffset v :=
  (Nat.add_le_add_left (readSize_le info) _).trans (h.stop_le hold)

theorem Placed.inFile_of_lookup : InFile v info :=
  ⟨(h.raw_le hold).trans h.inSize, (h.raw_le hold).trans h.inFile⟩

/-- Bytes behind the append offset touch no record. -/
theorem Placed.raw_append (bytes : Bytes) :
    (v.data.file.write (appendOffset v) bytes).range info.offset (readSize info) =
      rawOf v info :=
  SparseFile.range_write_beside _ (.inl (h.raw_le hold))

end

/-- An entry may be replaced by one for the same record. -/
theorem Placed.putNeedle {info' : NeedleInfo}
    (hold : v.index.needles.lookup id = some info) (hid : info'.id = info.id)
    (hext : extentOf info' = extentOf info) (hlive : info'.deletedAt = none) :
    Placed (v.setIndex (v.index.putNeedle info')) := by
  have hkey : info'.id = id := hid.trans (h.keyed.live id info hold)
  refine { h with
    keyed := h.keyed.insert info' _
    live := fun x i hx => ?_
    packed := h.packed.sub fun ⟨b, x⟩ e he => ?_ }
  · rcases lookup_insert_some hx with ⟨_, rfl⟩ | hx
    · exact hlive
    · exact h.live x i hx
  · change place (v.index.putNeedle info') (b, x) = some e at he
    cases b with
    | false => exact he
    | true =>
      by_cases hx : x = id
      · subst hx
        rw [show place (v.index.putNeedle info') (true, x) = some (extentOf info') from
          place_live (by rw [← hkey]; exact Finmap.lookup_insert _)] at he
        cases he
        rw [hext]
        exact place_live hold
      · rwa [show place (v.index.putNeedle info') (true, x) = place v.index (true, x) by
          show ((v.index.needles.insert info'.id info').lookup x).map extentOf = _
          rw [Finmap.lookup_insert_of_ne _ (by rw [hkey]; exact hx)]
          rfl] at he

end

/-! ## What can be read -/

variable [Env]

/-- Read the content of a record. -/
def decode (info : NeedleInfo) (raw : Bytes) : Result Bytes :=
  match fromBytes Env.checksum raw info.checksumAlgorithm with
  | .ok bytes => .ok bytes
  | .error e =>
    if e = sizeMismatch then
      .ok (slice raw needleHeaderSize (min (needleHeaderSize + info.dataSize) raw.length))
    else .error e

/-- What is read of a needle that is not dirty. -/
def readRecord (id : Nat) : Option (NeedleInfo × Bytes) → Result Bytes
  | none => .error (.needleNotFound id)
  | some (info, raw) =>
    if info.deletedAt.isSome then .error (.needleNotFound id) else decode info raw

theorem readStored_eq (h : InFile v info) :
    readStored v.data info = decode info (rawOf v info) := by
  unfold readStored
  rw [if_neg (by have := h.1; omega), SparseFile.read_eq_some h.2]
  rfl

theorem readNeedle_eq (h : ∀ info, v.index.needles.lookup id = some info → InFile v info) :
    readNeedle v id = match v.coalescer.held id with
      | some (merged, _) => .ok merged
      | none => readRecord id (recordOf v id) := by
  unfold readNeedle WriteCoalescer.held WriteCoalescer.heldIn recordOf
  cases v.coalescer.entries.lookup id with
  | some e => rfl
  | none =>
    cases hold : v.index.needles.lookup id with
    | none => rfl
    | some info =>
      dsimp only [Option.map_none, Option.map_some, readRecord]
      rw [readStored_eq (h info hold)]
      rfl

section

variable (h : Placed v)
include h

/-- **A read of a placed volume** is a read of its dirty entry or of its record. -/
theorem Placed.readNeedle (id : Nat) :
    readNeedle v id = match v.coalescer.held id with
      | some (merged, _) => .ok merged
      | none => readRecord id (recordOf v id) :=
  readNeedle_eq fun _ hold => h.inFile_of_lookup hold

/-! ## Writing above the append offset -/

theorem Placed.torn (ht : Torn v id data v') : Placed v' := by
  obtain ⟨n, m, s, _, rfl⟩ := ht
  exact { h with inFile := h.inFile.trans (SparseFile.len_le_write _ _ _) }

theorem Placed.recordOf_torn (ht : Torn v id data v') : recordOf v' = recordOf v := by
  obtain ⟨n, m, s, _, rfl⟩ := ht
  exact recordOf_congr rfl fun x info hold => h.raw_append hold _

variable {n fileKey : Nat} {known good : Prop} {log : List Attempt}

theorem Placed.published (hfits : appendOffset v + recordSize data.length ≤ v.data.totalSize)
    (hinfo : Describes info id data (appendOffset v)) (now : Int) :
    Placed (entered (appended v id data n) ⟨info, recordSize data.length⟩ now) := by
  have hmark : ∀ old, (v.index.getAllocation.afterWrite old info.id (recordSize data.length)
      v.info.size now).appendOffset = appendOffset v + recordSize data.length := by
    intro old
    cases old with
    | none | some => rfl
  have happ : appendOffset (entered (appended v id data n)
      ⟨info, recordSize data.length⟩ now) = appendOffset v + recordSize data.length := hmark _
  refine ⟨h.keyed.insert info _, ?_, ?_, ?_, ?_, ?_, h.total⟩
  · intro x i hx
    rcases lookup_insert_some hx with ⟨_, rfl⟩ | hx
    · exact hinfo.live
    · exact h.live x i hx
  · rw [happ]
    show Packed (place (v.index.written info _)) _ _
    rw [place_written, show extentOf info = ⟨appendOffset v, info.size⟩ by
      rw [← hinfo.offset_eq]; rfl]
    exact h.packed.append h.start _ hinfo.size_le
  · rw [happ]
    exact h.start.trans (Nat.le_add_right _ _)
  · rw [happ, ← toBytes_length id data (contentSum data)]
    exact SparseFile.end_le_write _ _ (toBytes_ne_nil _ _ _)
  · rw [happ]
    exact hfits

/-- The record that a write leaves for its needle. -/
def recordFor (info : NeedleInfo) (id : Nat) (data : Bytes) : NeedleInfo × Bytes :=
  ({ info with offset := 0 }, (toBytes id data (contentSum data)).take (readSize info))

theorem Placed.recordOf_published (hinfo : Describes info id data (appendOffset v)) (now : Int) :
    recordOf (entered (appended v id data n) ⟨info, recordSize data.length⟩ now) =
      update (recordOf v) id (some (recordFor info id data)) := by
  have hid : info.id = id := hinfo.id_eq
  subst hid
  funext x
  by_cases hx : x = info.id
  · subst hx
    have hlookup : (entered (appended v info.id data n) ⟨info, recordSize data.length⟩
        now).index.needles.lookup info.id = some info := Finmap.lookup_insert _
    have hraw : rawOf (entered (appended v info.id data n) ⟨info, recordSize data.length⟩ now)
        info = (toBytes info.id data (contentSum data)).take (readSize info) := by
      show (v.data.file.write (appendOffset v) _).range info.offset (readSize info) = _
      rw [hinfo.offset_eq, SparseFile.range_write_take]
      rw [toBytes_length]
      exact (readSize_le info).trans hinfo.size_le
    rw [update_self]
    rw [recordOf_found hlookup, hraw]
    rfl
  · rw [update_of_ne hx]
    exact recordOf_eq (Finmap.lookup_insert_of_ne _ hx) fun i hold => h.raw_append hold _

theorem Placed.wrote {r : Result NeedleInfo} (hw : Wrote known good v id data r v') :
    Placed v' := by
  cases hw with
  | skipped n => exact { h with }
  | failed _ _ htorn => exact h.torn htorn
  | published n now _ _ hfits hinfo => exact h.published hfits hinfo now

/-- A write changes the record of its needle, if any. -/
theorem Placed.recordOf_wrote {x : Nat} {r : Result NeedleInfo}
    (hw : Wrote known good v id data r v') (hx : x ≠ id) : recordOf v' x = recordOf v x := by
  cases hw with
  | skipped n => rfl
  | failed _ _ htorn => rw [h.recordOf_torn htorn]
  | published n now _ _ hfits hinfo =>
    rw [h.recordOf_published hinfo now, update_of_ne hx]

/-! ## The other changes of the index -/

theorem Placed.begun (fileKey : Nat) : Placed (begun v fileKey) := { h with }

theorem Placed.target {k : Nat} (ht : FlushTarget v id w k) : Placed w := by
  obtain ⟨n, ⟨rfl, _⟩ | ⟨rfl, _⟩⟩ := ht <;> exact { h with }

theorem Placed.flushEntry {merged : Bytes} {isNew : Bool}
    (hf : Returns (flushCoalescerEntry id merged isNew) v r v') : Placed v' := by
  rcases flushCoalescerEntry_returns hf with ⟨_, _, n, rfl⟩ | ⟨_, w, k, r₀, ht, _, hw⟩
  · exact { h with }
  · exact (h.target ht).wrote hw

omit h in
theorem Placed.flushed {ids : List Nat} (hf : Flushed ids v log v') (h : Placed v) : Placed v' := by
  induction hf with
  | nil => exact h
  | nothing _ _ ih => exact ih h
  | @entry id ids v v₁ v' log c e r _ _ hflush _ ih =>
    have htaken : Placed (v.setCoalescer c) := { h with }
    exact ih (htaken.flushEntry hflush)

omit h in
theorem Placed.drained {es : List (Nat × DirtyEntry)} (hd : Drained es v log v') (h : Placed v) :
    Placed v' := by
  induction hd with
  | nil => exact h
  | cons hflush _ ih => exact ih (h.flushEntry hflush)

theorem Placed.delete (hd : Returns (deleteNeedle id) v r v') : Placed v' := by
  rcases deleteNeedle_returns hd with ⟨_, n, _, rfl⟩ | ⟨info, now, n, hold, _, _, k, s, u, rfl⟩
  · exact { h with }
  exact { h with
    keyed := h.keyed.removed now hold _
    live := fun x i hx => h.live x i (lookup_erase_some hx)
    packed := packed_handOver true (buried info now) h.packed
      (congrArg (Option.map extentOf) hold) writes_erase writes_insert }

theorem Placed.restore (hr : Returns (restoreNeedle id) v r v') : Placed v' := by
  rcases restoreNeedle_returns hr with ⟨n, rfl⟩ | ⟨info, now, n, hold, rfl⟩
  · exact { h with }
  refine { h with
    keyed := h.keyed.restored hold _
    live := fun x i hx => ?_
    packed := packed_handOver false (revived info) h.packed
      (congrArg (Option.map extentOf) hold) writes_erase writes_insert }
  rcases lookup_insert_some hx with ⟨_, rfl⟩ | hx
  · rfl
  · exact h.live x i hx

theorem Placed.lock {retentionDays : Int}
    (hl : Returns (wormLock id retentionDays) v r v') : Placed v' := by
  rcases wormLock_returns hl with ⟨_, n, _, rfl⟩ | ⟨info, hold, hlive, _, ⟨_, rfl⟩ | ⟨_, rfl⟩⟩
  · exact { h with }
  · have hput : Placed (v.setIndex (v.index.putNeedle { info with
        wormRetentionUntil := some (retentionEnd (v.calls + 1) retentionDays) })) :=
      h.putNeedle hold rfl rfl hlive
    exact { hput with }
  · exact { h with }

theorem Placed.purge {r : Result Nat} (hp : Returns purgeExpiredDeleted v r v') : Placed v' := by
  obtain ⟨d, ⟨⟨hsub, n, rfl⟩, _⟩ | ⟨hsub, n, p, now, _, rfl⟩⟩ := purgeExpiredDeleted_returns hp <;>
    exact { h with
      keyed := ⟨h.keyed.live, fun x i hx => h.keyed.buried x i (hsub x i hx)⟩
      packed := packed_deleted_sub h.packed hsub }

theorem Placed.blob {offset size : Int}
    (hb : Returns (writeNeedleBlob fileKey offset size data) v r v') : Placed v' := by
  rcases writeNeedleBlob_returns hb with
    ⟨_, _, n, _, rfl⟩ | ⟨_, _, n, hint, existing, _, hrec⟩
  · exact { h with }
  rcases recordBlob_returns hrec with ⟨_, _, c, _, rfl, _⟩ | ⟨_, hflush⟩
  · exact { h with }
  · have hlater : Placed ((v.ticks n).ticks 1) := { h with }
    exact hlater.flushEntry hflush

theorem Placed.write {cookie : Nat} {r : Result NeedleInfo}
    (hw : Returns (writeNeedleWithCookie fileKey cookie data) v r v') : Placed v' := by
  replace hw := hw.get_bind
  split at hw
  · obtain ⟨_, rfl⟩ := hw.fail
    exact h
  rcases writeNeedleNowait_returns hw with ⟨_, _, rfl⟩ | ⟨_, hwrote⟩
  · exact h
  · exact (h.begun fileKey).wrote hwrote

end

end PowerFS.V1.Layout
