import PowerFS.V1.Operations

/-! # How the operations of a volume end

One inversion lemma per operation. A write of a content ends in one of three ways: the
content is stored already, or something failed and at most some bytes behind the append
offset have changed, or the record is in the file and in the index. Which of the three
depends on the state before and on the calls to the outside, and is said exactly. -/
namespace PowerFS.V1.Outcomes
open Lib.ByteString Lib.FinTable Lib.Calls Lib.SparseFiles Needle Metadata Coalescer State
  Operations

@[simp] theorem ticks_ticks (v : Volume) (m n : Nat) : (v.ticks m).ticks n = v.ticks (m + n) := by
  simp [Volume.ticks, Nat.add_assoc]

theorem putBytes_nil (v : Volume) (offset : Nat) : v.putBytes offset [] = v := by
  have hfile : v.data.file.write offset [] = v.data.file := by
    unfold SparseFile.write
    simp
  unfold Volume.putBytes
  rw [hfile]

theorem putBytes_ticks (v : Volume) (offset : Nat) (bytes : Bytes) (n : Nat) :
    (v.putBytes offset bytes).ticks n = (v.ticks n).putBytes offset bytes := rfl

/-! ## Calls to the outside -/

variable [Env] {v v' : Volume} {α : Type} {r : Result Unit} {id n cookie fileKey : Nat}
  {info : NeedleInfo} {data : Bytes} {known good : Prop} {w : Result NeedleInfo}

/-- A call that is made between two states fails. -/
def CallFails (v v' : Volume) : Prop :=
  ∃ k, v.calls ≤ k ∧ k < v'.calls ∧ fault k ≠ none

instance : Decidable (CallFails v v') :=
  decidable_of_iff (∃ k < v'.calls, v.calls ≤ k ∧ fault k ≠ none)
    (exists_congr fun _ => and_left_comm)

theorem CallFails.within {w w' : Volume} (h : CallFails w w') (hfirst : v.calls ≤ w.calls)
    (hlast : w'.calls ≤ v'.calls) : CallFails v v' := by
  obtain ⟨k, hge, hlt, hfault⟩ := h
  exact ⟨k, hfirst.trans hge, hlt.trans_le hlast, hfault⟩

theorem dbRead_returns {what : String} {f : VolumeMetadata → α} {r : Result α}
    (h : Returns (dbRead what f) v r v') :
    v' = v.ticks 1 ∧ ((fault v.calls = none ∧ r = .ok (f v.index)) ∨
      (fault v.calls ≠ none ∧ r = .error (dbError what))) := by
  unfold Returns dbRead at h
  split at h
  case h_1 n hn =>
    cases h
    exact ⟨rfl, .inr ⟨by rw [hn]; exact Option.some_ne_none _, rfl⟩⟩
  case h_2 hn =>
    cases h
    exact ⟨rfl, .inl ⟨hn, rfl⟩⟩

theorem dbWrite_returns {what : String} {f : VolumeMetadata → VolumeMetadata}
    (h : Returns (dbWrite what f) v r v') :
    (fault v.calls = none ∧ r = .ok () ∧ v' = (v.ticks 1).setIndex (f v.index)) ∨
      (fault v.calls ≠ none ∧ r = .error (dbError what) ∧ v' = v.ticks 1) := by
  unfold Returns dbWrite at h
  split at h
  case h_1 n hn =>
    cases h
    exact .inr ⟨by rw [hn]; exact Option.some_ne_none _, rfl, rfl⟩
  case h_2 hn =>
    cases h
    exact .inl ⟨hn, rfl, rfl⟩

section Sequences

variable {α β : Type} {what : String} {r : Result β}

/-- A sequence goes on with what was read. -/
theorem dbRead_bind {g : VolumeMetadata → α} {f : α → Op β}
    (h : Returns (dbRead what g >>= f) v r v') :
    (fault v.calls = none ∧ Returns (f (g v.index)) (v.ticks 1) r v') ∨
    (fault v.calls ≠ none ∧ r = .error (dbError what) ∧ v' = v.ticks 1) := by
  obtain ⟨r₀, v₁, hread, h⟩ := h.parts
  obtain ⟨rfl, ⟨hquiet, rfl⟩ | ⟨hfault, rfl⟩⟩ := dbRead_returns hread
  · exact .inl ⟨hquiet, h⟩
  · exact .inr ⟨hfault, h⟩

theorem dbWrite_bind {g : VolumeMetadata → VolumeMetadata} {f : Unit → Op β}
    (h : Returns (dbWrite what g >>= f) v r v') :
    (fault v.calls = none ∧ Returns (f ()) ((v.ticks 1).setIndex (g v.index)) r v') ∨
    (fault v.calls ≠ none ∧ r = .error (dbError what) ∧ v' = v.ticks 1) := by
  obtain ⟨r₀, v₁, hwrite, h⟩ := h.parts
  obtain ⟨hquiet, rfl, rfl⟩ | ⟨hfault, rfl, rfl⟩ := dbWrite_returns hwrite
  · exact .inl ⟨hquiet, h⟩
  · exact .inr ⟨hfault, h⟩

theorem utcNow_bind {f : Int → Op β} (h : Returns (utcNow >>= f) v r v') :
    Returns (f (utc v.calls)) (v.ticks 1) r v' := h

theorem instantNow_bind {f : Nat → Op β} (h : Returns (instantNow >>= f) v r v') :
    Returns (f (instant v.calls)) (v.ticks 1) r v' := h

end Sequences

/-- What a lookup in the index reports. -/
def seen (v : Volume) (id : Nat) : Option NeedleInfo :=
  match fault v.calls with
  | some _ => none
  | none => v.index.needles.lookup id

theorem seen_lookup (h : seen v id = some info) : v.index.needles.lookup id = some info := by
  unfold seen at h
  split at h
  · cases h
  · exact h

theorem seen_of_quiet (h : fault v.calls = none) (id : Nat) :
    seen v id = v.index.needles.lookup id := by
  unfold seen
  rw [h]

theorem indexGet_eq (v : Volume) (id : Nat) :
    indexGet id v = some (.ok (seen v id), v.ticks 1) := by
  have hget : Call.attempt (getNeedle id) v = some (.ok (match fault v.calls with
      | some _ => .error (dbError "get needle")
      | none => .ok (v.index.needles.lookup id)), v.ticks 1) := by
    unfold Call.attempt getNeedle dbRead
    cases fault v.calls with
    | some | none => rfl
  unfold indexGet seen
  rw [bind_eq hget]
  cases fault v.calls with
  | some | none => rfl

/-- Go on with what the lookup reported. -/
theorem indexGet_bind {f : Option NeedleInfo → Op α} {r : Result α}
    (h : Returns (indexGet id >>= f) v r v') :
    Returns (f (seen v id)) (v.ticks 1) r v' := by
  unfold Returns at h
  rwa [bind_eq (indexGet_eq v id)] at h

variable {offset space : Nat} {p : Option Nat} {old : NeedleInfo} {merged : Bytes} {isNew : Bool}

/-- A write to the file takes place, or leaves a part of the bytes. -/
theorem backendWrite_returns {bytes : Bytes} (h : Returns (backendWrite offset bytes) v r v') :
    (offset + bytes.length ≤ v.data.totalSize ∧ fault v.calls = none ∧ r = .ok () ∧
      v' = (v.ticks 1).putBytes offset bytes) ∨
    (¬ (offset + bytes.length ≤ v.data.totalSize ∧ fault v.calls = none) ∧
      ∃ e n m, (offset + bytes.length ≤ v.data.totalSize → n = 1) ∧
        (m = 0 ∨ fault v.calls = some m) ∧ r = .error e ∧
        v' = (v.ticks n).putBytes offset (bytes.take m)) := by
  unfold Returns backendWrite at h
  split at h
  case isTrue hlt =>
    cases h
    refine .inr ⟨fun hin => absurd hin.1 (by omega), _, 0, 0, fun hin => absurd hin (by omega),
      .inl rfl, rfl, ?_⟩
    rw [List.take_zero, putBytes_nil]
    rfl
  case isFalse hle =>
    split at h
    case h_1 n hn =>
      cases h
      exact .inr ⟨fun hin => absurd (hn.symm.trans hin.2) (Option.some_ne_none _), _, 1, n,
        fun _ => rfl, .inr hn, rfl, rfl⟩
    case h_2 hn =>
      cases h
      exact .inl ⟨by omega, hn, rfl, rfl⟩

/-! ## Appending a record -/

/-- What the index says of a content that has just been appended. -/
structure Describes (info : NeedleInfo) (id : Nat) (data : Bytes) (offset : Nat) : Prop where
  id_eq : info.id = id
  size_eq : info.dataSize = u32 data.length
  offset_eq : info.offset = offset
  sum_eq : info.checksum = contentSum data
  algorithm_eq : info.checksumAlgorithm = Env.algorithm
  live : info.deletedAt = none

/-- The size in the index is not more than the space that was taken. -/
theorem Describes.size_le (h : Describes info id data offset) :
    info.size ≤ recordSize data.length := by
  unfold NeedleInfo.size
  rw [h.size_eq]
  unfold recordSize u32
  have := Nat.mod_le data.length (2 ^ 32)
  omega

def appendOffset (v : Volume) : Nat := v.index.getAllocation.appendOffset

/-- Space and the two calls for an append. -/
structure CanAppend (v : Volume) (physicalSize : Option Nat) (space : Nat) : Prop where
  stats : fault v.calls = none
  free : space ≤ v.index.getAllocation.freeBytes
  physical : exceeds physicalSize (appendOffset v + space) = false
  fits : appendOffset v + space ≤ v.data.totalSize
  write : fault (v.calls + 1) = none

/-- Some bytes behind the append offset have changed, and the volume may be full. -/
def torn (v : Volume) (id : Nat) (data : Bytes) (n m : Nat) (s : VolumeState) :
    Volume :=
  ((v.ticks n).putBytes (appendOffset v) ((toBytes id data (contentSum data)).take m)).setState s

def appended (v : Volume) (id : Nat) (data : Bytes) (n : Nat) : Volume :=
  (v.ticks n).putBytes (appendOffset v) (toBytes id data (contentSum data))

theorem torn_untouched (v : Volume) (id : Nat) (data : Bytes) (n : Nat) (s : VolumeState) :
    torn v id data n 0 s = (v.ticks n).setState s := by
  unfold torn
  rw [List.take_zero, putBytes_nil]

/-- What a failed append has changed. -/
def Torn (v : Volume) (id : Nat) (data : Bytes) (v' : Volume) : Prop :=
  ∃ n m s, (s = v.info.state ∨ s = .full) ∧ v' = torn v id data n m s

omit [Env] in
theorem outOfSpace_returns {r : Result α} (h : Returns (outOfSpace : Op α) v r v') :
    r = .error .outOfSpace ∧ v' = v.setState .full := by
  cases h
  exact ⟨rfl, rfl⟩

theorem appendRecord_returns {r : Result Nat} (h : Returns (appendRecord p id data) v r v') :
    (CanAppend v p (recordSize data.length) ∧ r = .ok (appendOffset v) ∧
      v' = appended v id data 2) ∨
    (¬ CanAppend v p (recordSize data.length) ∧ (∃ e, r = .error e) ∧
      Torn v id data v') := by
  rcases dbRead_bind h with ⟨hquiet, h⟩ | ⟨hfault, rfl, rfl⟩
  case inr =>
    refine .inr ⟨fun hc => hfault hc.stats, ⟨_, rfl⟩, 1, 0, v.info.state, .inl rfl, ?_⟩
    rw [torn_untouched]
    rfl
  case inl =>
    split at h
    case isTrue hfree =>
      obtain ⟨rfl, rfl⟩ := outOfSpace_returns h
      refine .inr ⟨fun hc => absurd hc.free (by omega), ⟨_, rfl⟩, 1, 0, .full, .inr rfl, ?_⟩
      rw [torn_untouched]
    case isFalse hfree =>
      split at h
      case isTrue hphys =>
        obtain ⟨rfl, rfl⟩ := outOfSpace_returns h
        refine .inr ⟨fun hc => ?_, ⟨_, rfl⟩, 1, 0, .full, .inr rfl, ?_⟩
        · exact Bool.noConfusion (hphys.symm.trans hc.physical)
        · rw [torn_untouched]
      case isFalse hphys =>
        obtain ⟨r₀, v₂, hwrite, h⟩ := h.parts
        rcases backendWrite_returns hwrite with
          ⟨hfits, hw, rfl, rfl⟩ | ⟨hno, e, n, m, _, _, rfl, rfl⟩
        · rw [toBytes_length] at hfits
          obtain ⟨rfl, rfl⟩ := h.ok.pure
          exact .inl ⟨⟨hquiet, by omega, Bool.eq_false_iff.mpr hphys, hfits, hw⟩, rfl, rfl⟩
        obtain ⟨rfl, rfl⟩ := h
        refine .inr ⟨fun hc => hno ⟨?_, hc.write⟩, ⟨e, rfl⟩, 1 + n, m, v.info.state, .inl rfl, ?_⟩
        · rw [toBytes_length]
          exact hc.fits
        · rw [ticks_ticks]
          rfl

/-! ## Publishing a record -/

/-- The record is in the index. -/
def entered (v : Volume) (a : Appended) (now : Int) : Volume :=
  let stats := v.index.getAllocation.afterWrite (v.index.needles.lookup a.info.id) a.info.id
    a.space v.info.size now
  { (v.setIndex (v.index.written a.info stats)).setUsed stats.usedBytes with
    maxNeedleId := max v.maxNeedleId a.info.id }

/-- The three calls to the database of a publication. -/
structure CanPublish (calls : Nat) : Prop where
  stats : fault calls = none
  needle : fault (calls + 1) = none
  write : fault (calls + 3) = none

theorem writeNeedleAtomic_returns {size : Nat} {r : Result AllocationStats}
    (h : Returns (writeNeedleAtomic info space size) v r v') :
    (∃ now, CanPublish v.calls ∧
      r = .ok (v.index.getAllocation.afterWrite (v.index.needles.lookup info.id) info.id space
        size now) ∧
      v' = (v.ticks 4).setIndex (v.index.written info
        (v.index.getAllocation.afterWrite (v.index.needles.lookup info.id) info.id space size
          now))) ∨
    (¬ CanPublish v.calls ∧ ∃ e n, r = .error e ∧ v' = v.ticks n) := by
  rcases dbRead_bind h with ⟨hq, h⟩ | ⟨hfault, rfl, rfl⟩
  case inr => exact .inr ⟨fun hc => hfault hc.stats, _, 1, rfl, rfl⟩
  rcases dbRead_bind h with ⟨hq', h⟩ | ⟨hfault, rfl, rfl⟩
  case inr => exact .inr ⟨fun hc => hfault hc.needle, _, 2, rfl, rfl⟩
  rcases dbWrite_bind (utcNow_bind h) with ⟨hq'', h⟩ | ⟨hfault, rfl, rfl⟩
  case inr => exact .inr ⟨fun hc => hfault hc.write, _, 4, rfl, rfl⟩
  obtain ⟨rfl, rfl⟩ := h.pure
  exact .inl ⟨_, ⟨hq, hq', hq''⟩, rfl, rfl⟩

theorem publish_returns {a : Appended} (h : Returns (publish a) v w v') :
    (∃ now, CanPublish v.calls ∧ w = .ok a.info ∧ v' = entered (v.ticks 4) a now) ∨
    (¬ CanPublish v.calls ∧ ∃ e n, w = .error e ∧ v' = v.ticks n) := by
  obtain ⟨r₀, v₁, hput, h⟩ := h.get_bind.parts
  rcases writeNeedleAtomic_returns hput with ⟨now, hyes, rfl, rfl⟩ | ⟨hno, e, n, rfl, rfl⟩
  · obtain ⟨rfl, rfl⟩ := h.ok.modify_bind.pure
    exact .inl ⟨now, hyes, rfl, rfl⟩
  · obtain ⟨rfl, rfl⟩ := h
    exact .inr ⟨hno, e, n, rfl, rfl⟩

/-! ## Writing a content -/

/-- How the write of a content for a needle ends: `known` says that it is found to be
stored already, `good` that there is space and that all calls to the outside succeed. -/
inductive Wrote (known good : Prop) (v : Volume) (id : Nat) (data : Bytes) :
    Result NeedleInfo → Volume → Prop
  | skipped {existing : NeedleInfo} (n : Nat) (hknown : known)
      (hold : v.index.needles.lookup id = some existing) (hsame : identical existing data) :
      Wrote known good v id data (.ok existing) (v.ticks n)
  | failed {e : PowerFsError} {w : Volume} (hnew : ¬ known) (hbad : ¬ good)
      (htorn : Torn v id data w) : Wrote known good v id data (.error e) w
  | published {info : NeedleInfo} (n : Nat) (now : Int) (hnew : ¬ known) (hgood : good)
      (hfits : appendOffset v + recordSize data.length ≤ v.data.totalSize)
      (hinfo : Describes info id data (appendOffset v)) :
      Wrote known good v id data (.ok info)
        (entered (appended v id data n) ⟨info, recordSize data.length⟩ now)

theorem Wrote.calls_le (h : Wrote known good v id data w v') : v.calls ≤ v'.calls := by
  cases h with
  | skipped n => exact Nat.le_add_right _ n
  | failed _ _ htorn =>
    obtain ⟨n, _, _, _, rfl⟩ := htorn
    exact Nat.le_add_right _ n
  | published n => exact Nat.le_add_right _ n

theorem Wrote.congr {known' good' : Prop} (hk : known ↔ known') (hg : good ↔ good')
    (h : Wrote known good v id data w v') : Wrote known' good' v id data w v' := by
  rw [← propext hk, ← propext hg]
  exact h

/-- Dirty entries, flags and the next key are as they were. -/
structure SameSide (v v' : Volume) : Prop where
  held : v'.coalescer.held = v.coalescer.held
  config : v'.coalescer.config = v.coalescer.config
  compacting : v'.compacting = v.compacting
  key : v'.info.nextFileKey = v.info.nextFileKey

omit [Env] in
theorem SameSide.trans {v₁ : Volume} (h : SameSide v v₁) (h' : SameSide v₁ v') : SameSide v v' :=
  ⟨h'.held.trans h.held, h'.config.trans h.config, h'.compacting.trans h.compacting,
    h'.key.trans h.key⟩

theorem Wrote.sameSide (h : Wrote known good v id data w v') : SameSide v v' := by
  cases h with
  | skipped | published => exact ⟨rfl, rfl, rfl, rfl⟩
  | failed _ _ htorn =>
    obtain ⟨_, _, _, _, rfl⟩ := htorn
    exact ⟨rfl, rfl, rfl, rfl⟩

/-- A volume that is not available refuses the write. -/
def Unavailable (v : Volume) (r : Result α) (v' : Volume) : Prop :=
  v.info.state ≠ .available ∧ r = .error (.invalidVolumeState "volume not available") ∧ v' = v

/-- A lookup finds the content. -/
def Known (v : Volume) (id : Nat) (data : Bytes) : Prop :=
  ∃ existing, seen v id = some existing ∧ identical existing data

instance : Decidable (Known v id data) :=
  inferInstanceAs (Decidable (∃ existing ∈ seen v id, _))

theorem not_known {existing : NeedleInfo} (hseen : seen v id = some existing)
    (hsame : ¬ identical existing data) : ¬ Known v id data := by
  rintro ⟨other, hother, hsame'⟩
  rw [hseen] at hother
  cases hother
  exact hsame hsame'

theorem not_known_of_none (hseen : seen v id = none) : ¬ Known v id data := by
  rintro ⟨other, hother, _⟩
  rw [hseen] at hother
  cases hother

theorem Torn.ticks (h : Torn (v.ticks n) id data v') : Torn v id data v' := by
  obtain ⟨k, m, s, hs, rfl⟩ := h
  refine ⟨n + k, m, s, hs, ?_⟩
  unfold torn
  rw [ticks_ticks]
  rfl

/-- The result of an operation that passes no value on. -/
def noValue (r : Result NeedleInfo) : Result Unit := r.map fun _ => ()

omit [Env] in
theorem noValue_bind {x : Op NeedleInfo} (h : Returns (x >>= fun _ => pure ()) v r v') :
    ∃ r₀, r = noValue r₀ ∧ Returns x v r₀ v' := by
  rcases h.bind with ⟨e, rfl, hx⟩ | ⟨info, v₁, hx, h⟩
  · exact ⟨.error e, rfl, hx⟩
  · obtain ⟨rfl, rfl⟩ := h.pure
    exact ⟨.ok info, rfl, hx⟩

/-- Publishing what has been appended ends the write, one way or the other. -/
theorem publish_appended (hnew : ¬ known) (hgood : good ↔ CanPublish (v.calls + n))
    (hfits : appendOffset v + recordSize data.length ≤ v.data.totalSize)
    (hinfo : Describes info id data (appendOffset v))
    (h : Returns (publish ⟨info, recordSize data.length⟩) (appended v id data n) w v') :
    Wrote known good v id data w v' := by
  rcases publish_returns h with ⟨now, hcan, rfl, rfl⟩ | ⟨hno, e, k, rfl, rfl⟩
  · have hlater : (appended v id data n).ticks 4 = appended v id data (n + 4) := by
      unfold appended
      rw [putBytes_ticks, ticks_ticks]
    simp only [hlater]
    exact .published (n + 4) now hnew (hgood.mpr hcan) hfits hinfo
  · refine .failed hnew (fun hg => hno (hgood.mp hg)) ⟨n + k, recordSize data.length,
      v.info.state, .inl rfl, ?_⟩
    unfold torn appended
    rw [putBytes_ticks, ticks_ticks, List.take_of_length_le (by rw [toBytes_length])]
    rfl

theorem appended_ticks (v : Volume) (id m n : Nat) (data : Bytes) :
    appended (v.ticks m) id data n = appended v id data (m + n) := by
  unfold appended
  rw [ticks_ticks]
  rfl

/-- A full write has taken its key and discarded the dirty entry. -/
def begun (v : Volume) (fileKey : Nat) : Volume :=
  Volume.discard { v with info := { v.info with
    nextFileKey := if fileKey = 0 then v.info.nextFileKey + 1 else v.info.nextFileKey } }
    Env.capacity (keyOf v fileKey)

theorem held_begun (v : Volume) (fileKey x : Nat) :
    (begun v fileKey).coalescer.held x =
      if x = keyOf v fileKey then none else v.coalescer.held x :=
  WriteCoalescer.held_invalidate Env.capacity v.coalescer (keyOf v fileKey) x

/-- Space and all calls of a full write. -/
def FullGood (v : Volume) (data : Bytes) : Prop :=
  CanAppend (v.ticks 1) (some (v.info.size + volumeDataOffset)) (recordSize data.length) ∧
    CanPublish (v.calls + 4)

/-- Space and all calls of a new version. -/
def VersionGood (v : Volume) (data : Bytes) : Prop :=
  CanAppend (v.ticks 1) none (recordSize data.length) ∧ CanPublish (v.calls + 3)

theorem appendNew_returns {r : Result (NeedleInfo ⊕ Appended)}
    (h : Returns (appendNew id cookie data) v r v') :
    (CanAppend v (some (v.info.size + volumeDataOffset)) (recordSize data.length) ∧
      (∃ info, Describes info id data (appendOffset v) ∧
        r = .ok (.inr ⟨info, recordSize data.length⟩)) ∧ v' = appended v id data 3) ∨
    (¬ CanAppend v (some (v.info.size + volumeDataOffset)) (recordSize data.length) ∧
      (∃ e, r = .error e) ∧ Torn v id data v') := by
  obtain ⟨r₀, v₁, happ, h⟩ := h.get_bind.parts
  rcases appendRecord_returns happ with ⟨hcan, rfl, rfl⟩ | ⟨hno, ⟨e, rfl⟩, htorn⟩
  case inr =>
    obtain ⟨rfl, rfl⟩ := h
    exact .inr ⟨hno, ⟨e, rfl⟩, htorn⟩
  obtain ⟨rfl, rfl⟩ := (utcNow_bind h.ok).pure
  refine .inl ⟨hcan, ⟨_, ⟨rfl, rfl, rfl, rfl, rfl, rfl⟩, rfl⟩, ?_⟩
  unfold appended
  rw [putBytes_ticks, ticks_ticks]

theorem appendVersion_returns {base : NeedleInfo} {r : Result (Option Appended)}
    (h : Returns (appendVersion id data base) v r v') :
    (CanAppend v none (recordSize data.length) ∧
      (∃ info, Describes info id data (appendOffset v) ∧
        r = .ok (some ⟨info, recordSize data.length⟩)) ∧ v' = appended v id data 2) ∨
    (¬ CanAppend v none (recordSize data.length) ∧ (∃ e, r = .error e) ∧
      Torn v id data v') := by
  obtain ⟨r₀, v₁, happ, h⟩ := h.parts
  rcases appendRecord_returns happ with ⟨hcan, rfl, rfl⟩ | ⟨hno, ⟨e, rfl⟩, htorn⟩
  case inr =>
    obtain ⟨rfl, rfl⟩ := h
    exact .inr ⟨hno, ⟨e, rfl⟩, htorn⟩
  obtain ⟨rfl, rfl⟩ := h.ok.pure
  exact .inl ⟨hcan, ⟨_, ⟨rfl, rfl, rfl, rfl, rfl, rfl⟩, rfl⟩, rfl⟩

/-- Taking a key and discarding a dirty entry do not matter to an append. -/
theorem canAppend_begun :
    CanAppend ((begun v fileKey).ticks n) p space ↔ CanAppend (v.ticks n) p space :=
  ⟨fun ⟨hs, hf, hp, ht, hw⟩ => ⟨hs, hf, hp, ht, hw⟩,
    fun ⟨hs, hf, hp, ht, hw⟩ => ⟨hs, hf, hp, ht, hw⟩⟩

/-- Where a full write stands once its record is in the file, or is not needed. -/
theorem prepareWrite_returns {r : Result (NeedleInfo ⊕ Appended)}
    (h : Returns (prepareWrite fileKey cookie data) v r v') :
    Unavailable v r v' ∨
    (v.info.state = .available ∧
      ((∃ existing, seen v (keyOf v fileKey) = some existing ∧
        identical existing data ∧ r = .ok (.inl existing) ∧
        v' = (begun v fileKey).ticks 1) ∨
      (¬ Known v (keyOf v fileKey) data ∧
        Returns (appendNew (keyOf v fileKey) cookie data) ((begun v fileKey).ticks 1) r v'))) := by
  replace h := h.get_bind
  split at h
  case isTrue hs =>
    obtain ⟨rfl, rfl⟩ := h.fail
    exact .inl ⟨hs, rfl, rfl⟩
  case isFalse hs =>
    refine .inr ⟨not_not.mp hs, ?_⟩
    replace h : Returns (indexGet (keyOf v fileKey) >>= _) (begun v fileKey) r v' := h
    replace h := indexGet_bind h
    split at h
    case h_1 existing hseen =>
      split at h
      case isTrue hsame =>
        obtain ⟨rfl, rfl⟩ := h.pure
        exact .inl ⟨existing, hseen, hsame, rfl, rfl⟩
      case isFalse hsame => exact .inr ⟨not_known hseen hsame, h⟩
    case h_2 hseen => exact .inr ⟨not_known_of_none hseen, h⟩

/-- **How a full write ends.** -/
theorem writeNeedleNowait_returns (h : Returns (writeNeedleNowait fileKey cookie data) v w v') :
    Unavailable v w v' ∨
    (v.info.state = .available ∧
      Wrote (Known v (keyOf v fileKey) data) (FullGood v data)
        (begun v fileKey) (keyOf v fileKey) data w v') := by
  obtain ⟨r₀, v₁, hprep, hrest⟩ := h.parts
  rcases prepareWrite_returns hprep with
    ⟨hs, rfl, rfl⟩ | ⟨hs, ⟨existing, hseen, hsame, rfl, rfl⟩ | ⟨hnew, happ⟩⟩
  · exact .inl ⟨hs, hrest⟩
  · obtain ⟨rfl, rfl⟩ := hrest.ok.pure
    exact .inr ⟨hs, .skipped 1 ⟨existing, hseen, hsame⟩ (seen_lookup hseen) hsame⟩
  rcases appendNew_returns happ with ⟨hcan, ⟨info, hinfo, rfl⟩, rfl⟩ | ⟨hno, ⟨e, rfl⟩, htorn⟩
  · rw [appended_ticks] at hrest
    exact .inr ⟨hs, publish_appended hnew
      ⟨fun hg => hg.2, fun hp => ⟨canAppend_begun.mp hcan, hp⟩⟩ hcan.fits hinfo hrest.ok⟩
  · obtain ⟨rfl, rfl⟩ := hrest
    exact .inr ⟨hs, .failed hnew (fun hg => hno (canAppend_begun.mpr hg.1)) htorn.ticks⟩

theorem prepareVersion_returns {r : Result (Option Appended)}
    (h : Returns (prepareVersion id data old) v r v') :
    Unavailable v r v' ∨
    (v.info.state = .available ∧
      ((∃ existing, seen v id = some existing ∧ identical existing data ∧ r = .ok none ∧
        v' = v.ticks 1) ∨
      (¬ Known v id data ∧
        ∃ base, Returns (appendVersion id data base) (v.ticks 1) r v'))) := by
  replace h := h.get_bind
  split at h
  case isTrue hs =>
    obtain ⟨rfl, rfl⟩ := h.fail
    exact .inl ⟨hs, rfl, rfl⟩
  case isFalse hs =>
    refine .inr ⟨not_not.mp hs, ?_⟩
    replace h := indexGet_bind h
    split at h
    case h_1 latest hseen =>
      split at h
      case isTrue hsame =>
        obtain ⟨rfl, rfl⟩ := h.pure
        exact .inl ⟨latest, hseen, hsame, rfl, rfl⟩
      case isFalse hsame => exact .inr ⟨not_known hseen hsame, _, h⟩
    case h_2 hseen => exact .inr ⟨not_known_of_none hseen, _, h⟩

/-- **How a version append ends.** -/
theorem appendNeedleVersion_returns (h : Returns (appendNeedleVersion id data old) v r v') :
    Unavailable v r v' ∨
    (v.info.state = .available ∧ ∃ r₀, r = noValue r₀ ∧
      Wrote (Known v id data) (VersionGood v data) v id data r₀ v') := by
  obtain ⟨r₁, v₁, hprep, hrest⟩ := h.parts
  rcases prepareVersion_returns hprep with
    ⟨hs, rfl, rfl⟩ | ⟨hs, ⟨existing, hseen, hsame, rfl, rfl⟩ | ⟨hnew, base, happ⟩⟩
  · exact .inl ⟨hs, hrest⟩
  · obtain ⟨rfl, rfl⟩ := hrest.ok.pure
    exact .inr ⟨hs, .ok existing, rfl,
      .skipped 1 ⟨existing, hseen, hsame⟩ (seen_lookup hseen) hsame⟩
  rcases appendVersion_returns happ with ⟨hcan, ⟨info, hinfo, rfl⟩, rfl⟩ | ⟨hno, ⟨e, rfl⟩, htorn⟩
  · rw [appended_ticks] at hrest
    obtain ⟨r₀, rfl, hpub⟩ := noValue_bind hrest.ok
    exact .inr ⟨hs, r₀, rfl, publish_appended hnew
      ⟨fun hg => hg.2, fun hp => ⟨hcan, hp⟩⟩ hcan.fits hinfo hpub⟩
  · obtain ⟨rfl, rfl⟩ := hrest
    exact .inr ⟨hs, .error e, rfl, .failed hnew (fun hg => hno hg.1) htorn.ticks⟩

/-! ## Flushing a dirty entry -/

/-- A dirty entry whose needle is in the index becomes a new version of it. -/
def takesVersion (v : Volume) (id : Nat) (isNew : Bool) : Prop :=
  isNew = false ∧ seen v id ≠ none

/-- The lookups before the write. -/
def lookups (isNew : Bool) : Nat := if isNew then 0 else 1

/-- The content of the entry is found to be stored already. -/
def FlushKnown (v : Volume) (id : Nat) (merged : Bytes) (isNew : Bool) : Prop :=
  (takesVersion v id isNew ∧ Known (v.ticks 1) id merged) ∨
  (¬ takesVersion v id isNew ∧ Known (v.ticks (lookups isNew)) (keyOf v id) merged)

/-- Space and all calls for the flush of the entry. -/
def FlushGood (v : Volume) (id : Nat) (merged : Bytes) (isNew : Bool) : Prop :=
  (takesVersion v id isNew ∧ VersionGood (v.ticks 1) merged) ∨
  (¬ takesVersion v id isNew ∧ FullGood (v.ticks (lookups isNew)) merged)

/-- The state and the needle that a flush writes to. -/
def FlushTarget (v : Volume) (id : Nat) (w : Volume) (k : Nat) : Prop :=
  ∃ n, (w = v.ticks n ∧ k = id) ∨ (w = begun (v.ticks n) id ∧ k = keyOf v id)

/-- How the flush of an entry ends: it is refused, or it is a write to its target. -/
def FlushEnds (v : Volume) (id : Nat) (merged : Bytes) (isNew : Bool)
    (r : Result Unit) (v' : Volume) : Prop :=
  (v.info.state ≠ .available ∧ (∃ e, r = .error e) ∧ ∃ n, v' = v.ticks n) ∨
  (v.info.state = .available ∧ ∃ w k r₀, FlushTarget v id w k ∧ r = noValue r₀ ∧
    Wrote (FlushKnown v id merged isNew) (FlushGood v id merged isNew) w k merged r₀ v')

theorem FlushEnds.calls_le (h : FlushEnds v id merged isNew r v') : v.calls ≤ v'.calls := by
  rcases h with ⟨_, _, n, rfl⟩ | ⟨_, w, k, r₀, ⟨n, ht⟩, _, hw⟩
  · exact Nat.le_add_right _ n
  · have hw' := hw.calls_le
    rcases ht with ⟨rfl, _⟩ | ⟨rfl, _⟩ <;> exact (Nat.le_add_right _ n).trans hw'

/-- The flush of an entry by a full write. -/
theorem flush_full_returns (hno : ¬ takesVersion v id isNew)
    (h : Returns (writeNeedleNowait id 0 merged >>= fun _ => pure ())
      (v.ticks (lookups isNew)) r v') : FlushEnds v id merged isNew r v' := by
  obtain ⟨r₀, rfl, hfull⟩ := noValue_bind h
  rcases writeNeedleNowait_returns hfull with ⟨hs, rfl, rfl⟩ | ⟨hs, hw⟩
  · exact .inl ⟨hs, ⟨_, rfl⟩, _, rfl⟩
  refine .inr ⟨hs, _, _, r₀, ⟨lookups isNew, .inr ⟨rfl, rfl⟩⟩, rfl, hw.congr ?_ ?_⟩
  · exact ⟨fun hk => .inr ⟨hno, hk⟩, fun hk => hk.elim (fun hv => absurd hv.1 hno) (·.2)⟩
  · exact ⟨fun hg => .inr ⟨hno, hg⟩, fun hg => hg.elim (fun hv => absurd hv.1 hno) (·.2)⟩

/-- **How the flush of a dirty entry ends.** -/
theorem flushCoalescerEntry_returns (h : Returns (flushCoalescerEntry id merged isNew) v r v') :
    FlushEnds v id merged isNew r v' := by
  cases isNew with
  | true => exact flush_full_returns (fun hv => Bool.noConfusion hv.1) h
  | false =>
    replace h := indexGet_bind h
    split at h
    case h_1 hseen => exact flush_full_returns (fun hv => hv.2 hseen) h
    case h_2 existing hseen =>
      have hyes : takesVersion v id false := ⟨rfl, by rw [hseen]; exact Option.some_ne_none _⟩
      rcases appendNeedleVersion_returns h with ⟨hs, rfl, rfl⟩ | ⟨hs, r₀, rfl, hw⟩
      · exact .inl ⟨hs, ⟨_, rfl⟩, 1, rfl⟩
      refine .inr ⟨hs, _, id, r₀, ⟨1, .inl ⟨rfl, rfl⟩⟩, rfl, hw.congr ?_ ?_⟩
      · exact ⟨fun hk => .inl ⟨hyes, hk⟩, fun hk => hk.elim (·.2) (fun hv => absurd hyes hv.1)⟩
      · exact ⟨fun hg => .inl ⟨hyes, hg⟩, fun hg => hg.elim (·.2) (fun hv => absurd hyes hv.1)⟩

end PowerFS.V1.Outcomes
