import PowerFS.Wal.Records
import PowerFS.Wal.Replay

/-! # Logs and what replay makes of them

A log is a list of segments, each a header, frames laid end to end and unused
preallocation. Replaying segments that are whole applies their records in order,
whatever the recovery mode. -/
namespace PowerFS.Wal.LogContents
open Lib.ByteString Wal.Frame Segment SegmentScan Index Payload Records Replay List
  VolumeMetaPayload

/-! ## Records of the engine -/

/-- A frame as the engine writes it: its payload comes from the codec of its type. -/
def EngineFrame (f : ScannedFrame) : Prop :=
  match f.fmeta.rtype with
  | .pad => True
  | .data => ∃ q : DataPayload, q.data.length < 2 ^ 32 ∧ f.payload = q.encode
  | .delete => ∃ q : DeletePayload, f.payload = q.encode
  | .ckptAnchor => ∃ q : CkptAnchorPayload, f.payload = q.encode
  | .volumeMeta => ∃ newSize : UInt64, f.payload = VolumeMetaPayload.volumeSize newSize
  | .gcMigrate => ∃ q : GcMigratePayload, q.data.length < 2 ^ 32 ∧ f.payload = q.encode
  | .tombPurge => ∃ needleId deleteLsn : UInt64,
      f.payload = toLE 8 needleId.toNat ++ toLE 8 deleteLsn.toNat
  | .attr | .snapTake | .snapDrop => False

def isRecord (f : ScannedFrame) : Bool := decide (f.fmeta.rtype ≠ .pad)

/-- A type that the engine writes and that is a record. -/
def EngineType (t : RecordType) : Prop :=
  t ≠ .pad ∧ t ≠ .attr ∧ t ≠ .snapTake ∧ t ≠ .snapDrop

variable {f : ScannedFrame}

theorem EngineFrame.engineType (h : EngineFrame f) (hr : isRecord f = true) :
    EngineType f.fmeta.rtype := by
  have hpad : f.fmeta.rtype ≠ .pad := by simpa [isRecord] using hr
  unfold EngineFrame at h
  refine ⟨hpad, ?_, ?_, ?_⟩
  · intro ht; rw [ht] at h; exact h
  · intro ht; rw [ht] at h; exact h
  · intro ht; rw [ht] at h; exact h

/-- A record is refused and leaves the index alone, or it moves the cursor. -/
theorem applyFrame_cases (idx : WalIndex) (segId : Nat) (f : ScannedFrame) (now : Int64)
    (ht : EngineType f.fmeta.rtype) :
    applyFrame idx segId f now = (idx, .error (malformed segId f.fmeta)) ∨
    ∃ idx', applyFrame idx segId f now = (idx', .ok ()) ∧
      idx'.lastLsn = max idx.lastLsn f.fmeta.lsn.toNat := by
  obtain ⟨hpad, hattr, htake, hdrop⟩ := ht
  unfold applyFrame
  dsimp only
  cases hr : f.fmeta.rtype with
  | pad => exact absurd hr hpad
  | attr => exact absurd hr hattr
  | snapTake => exact absurd hr htake
  | snapDrop => exact absurd hr hdrop
  | data =>
    obtain ⟨e, he⟩ | ⟨_, hok⟩ := idx.applyData_cases (placeOf segId f.fmeta) f.payload now
    · rw [he]; exact .inl rfl
    · rw [hok]; exact .inr ⟨_, rfl, (idx.applyDataRecord_recorded ..).lastLsn⟩
  | delete =>
    obtain ⟨e, he⟩ | ⟨_, hok⟩ := idx.applyDelete_cases f.fmeta.lsn.toNat f.payload
    · rw [he]; exact .inl rfl
    · rw [hok]; exact .inr ⟨_, rfl, (idx.applyDeleteRecord_recorded ..).lastLsn⟩
  | gcMigrate =>
    obtain ⟨e, he⟩ | ⟨_, out, hout, hok⟩ :=
      idx.applyGcMigrate_cases (placeOf segId f.fmeta) f.payload now
    · rw [he]; exact .inl rfl
    · rw [hok, hout]; exact .inr ⟨_, rfl, (idx.applyGcMigrateRecord_recorded ..).lastLsn⟩
  | tombPurge =>
    obtain ⟨e, he⟩ | ⟨_, hok⟩ := idx.applyTombPurge_cases f.fmeta.lsn.toNat f.payload
    · rw [he]; exact .inl rfl
    · rw [hok]; exact .inr ⟨_, rfl, (idx.applyTombPurgeRecord_recorded ..).lastLsn⟩
  | volumeMeta =>
    obtain ⟨e, he⟩ | ⟨newSize, hok⟩ := idx.applyVolumeMeta_cases f.fmeta.lsn.toNat f.payload
    · rw [he]; exact .inl rfl
    · rw [hok]; exact .inr ⟨_, rfl, rfl⟩
  | ckptAnchor =>
    dsimp only
    split
    · exact .inr ⟨_, rfl, (idx.applyCkptAnchor_recorded ..).lastLsn⟩
    · exact .inl rfl

theorem decode_volumeSize (newSize : UInt64) :
    decode (volumeSize newSize) =
      .ok ⟨volumeMetaFieldVolumeSize, toLE 8 newSize.toNat⟩ := by
  have hmask : slice (volumeSize newSize) 0 4 =
      toLE 4 volumeMetaFieldVolumeSize.toNat := slice_head (by simp)
  have hvalues : (volumeSize newSize).drop 4 = toLE 8 newSize.toNat := by
    simp [volumeSize, encode]
  have hlen : (volumeSize newSize).length = 12 := by
    simp [volumeSize, encode]
  rw [decode, hlen, if_neg (by decide), hmask, hvalues, ofLE_toLE_u32, UInt32.ofNat_toNat]

theorem takeVolumeSize_volumeSize (newSize : UInt64) : takeVolumeSize
    ⟨volumeMetaFieldVolumeSize, toLE 8 newSize.toNat⟩ = some newSize.toNat := by
  have hsize : slice (toLE 8 newSize.toNat) 0 8 = toLE 8 newSize.toNat := by simp [slice]
  have hbit : volumeMetaFieldVolumeSize &&& volumeMetaFieldVolumeSize ≠ 0 := by decide
  unfold takeVolumeSize
  rw [if_pos ⟨hbit, by simp⟩, hsize, ofLE_toLE_u64]

open WalIndex

theorem volumeSize_applies (idx : WalIndex) (lsn : Nat) (newSize : UInt64) :
    idx.applyVolumeMeta lsn (volumeSize newSize) =
      ((idx.setVolumeSize newSize.toNat).seen lsn, .ok newSize.toNat) := by
  unfold applyVolumeMeta
  rw [decode_volumeSize]
  dsimp only
  rw [takeVolumeSize_volumeSize]

/-- The records of the engine are never refused. -/
theorem applyFrame_engine (idx : WalIndex) (segId : Nat) (now : Int64) (h : EngineFrame f) :
    (applyFrame idx segId f now).2 = .ok () := by
  unfold EngineFrame at h
  unfold applyFrame
  dsimp only
  cases hr : f.fmeta.rtype with
  | pad | attr | snapTake | snapDrop => rfl
  | data =>
    rw [hr] at h
    obtain ⟨q, hq, hp⟩ := h
    rw [hp, applyData_encode _ _ _ hq]
    rfl
  | delete =>
    rw [hr] at h
    obtain ⟨q, hp⟩ := h
    rw [hp, applyDelete_encode]
    rfl
  | gcMigrate =>
    rw [hr] at h
    obtain ⟨q, hq, hp⟩ := h
    rw [hp, applyGcMigrate_encode _ _ _ hq]
    rfl
  | tombPurge =>
    rw [hr] at h
    obtain ⟨a, b, hp⟩ := h
    have hlen : f.payload.length = 16 := by rw [hp]; simp
    unfold applyTombPurge
    simp [hlen, reportAs]
  | volumeMeta =>
    rw [hr] at h
    obtain ⟨newSize, hp⟩ := h
    rw [hp, volumeSize_applies]
    rfl
  | ckptAnchor =>
    rw [hr] at h
    obtain ⟨q, hp⟩ := h
    have hlen : f.payload.length = 16 := by rw [hp]; simp [CkptAnchorPayload.encode]
    simp [hlen]

theorem applyFrame_engine_lastLsn (idx : WalIndex) (segId : Nat) (now : Int64) (h : EngineFrame f)
    (hr : isRecord f = true) :
    (applyFrame idx segId f now).1.lastLsn = max idx.lastLsn f.fmeta.lsn.toNat := by
  obtain herr | ⟨idx', hok, hlsn⟩ := applyFrame_cases idx segId f now (h.engineType hr)
  · have := applyFrame_engine idx segId now h
    rw [herr] at this
    cases this
  · rw [hok]; exact hlsn

/-! ## Logs -/

/-- A segment as its writer leaves it. -/
structure SegContents where
  segId : Nat
  header : SegmentHeader
  frames : List ScannedFrame
  slack : Nat

section Log

variable [Checksum]

def SegContents.body (s : SegContents) : Bytes :=
  encodeFrames s.header.chainSeed s.frames ++ zeros s.slack

def SegContents.file (s : SegContents) : SegFile :=
  ⟨s.segId, s.header.encode ++ s.body⟩

/-- A record and the segment it is in. -/
abbrev Located := Nat × ScannedFrame

def Located.lsn (r : Located) : Nat := r.2.fmeta.lsn.toNat

def recordsOf (segId : Nat) (fs : List ScannedFrame) : List Located :=
  (fs.filter isRecord).map fun f => (segId, f)

def SegContents.records (s : SegContents) : List Located := recordsOf s.segId s.frames

def records (segs : List SegContents) : List Located := segs.flatMap SegContents.records

/-- The frames of each segment are described by their metadata and written by the
engine; LSNs start above zero and increase over the whole log. -/
structure WellFormed (segs : List SegContents) : Prop where
  described : ∀ s ∈ segs, Described segHeaderSize s.frames
  engine : ∀ s ∈ segs, ∀ f ∈ s.frames, EngineFrame f
  increasing : (records segs).Pairwise fun a b => a.lsn < b.lsn
  positive : ∀ r ∈ records segs, 0 < r.lsn

end Log

/-- Apply records in order. -/
def applyRecords (clock : Nat → Int64) (idx : WalIndex) (rs : List Located) : WalIndex :=
  rs.foldl (fun idx r => (applyFrame idx r.1 r.2 (clock r.lsn)).1) idx

theorem applyRecords_append (clock : Nat → Int64) (idx : WalIndex) (rs qs : List Located) :
    applyRecords clock idx (rs ++ qs) = applyRecords clock (applyRecords clock idx rs) qs := by
  simp [applyRecords]

theorem recordsOf_cons (segId : Nat) (f : ScannedFrame) (fs : List ScannedFrame) :
    recordsOf segId (f :: fs) =
      if isRecord f then (segId, f) :: recordsOf segId fs else recordsOf segId fs := by
  unfold recordsOf
  rw [filter_cons]
  split <;> rfl

/-- The records that a replay from `skipLsn` applies. -/
def liveFrom (skipLsn : Nat) (rs : List Located) : List Located :=
  rs.filter fun r => decide (skipLsn < r.lsn)

/-! ## Replaying whole segments -/

/-- Replay got as far as `st'` from `st`: the index has the records, and nothing was
stopped or cut. -/
structure Advanced (clock : Nat → Int64) (st st' : ReplayState) (rs : List Located) : Prop where
  index : st'.index = applyRecords clock st.index rs
  stop : st'.stop = st.stop
  files : st'.files = st.files
  truncated : st'.truncated = st.truncated

theorem Advanced.trans {clock : Nat → Int64} {a b c : ReplayState} {rs qs : List Located}
    (h : Advanced clock a b rs) (h' : Advanced clock b c qs) : Advanced clock a c (rs ++ qs) :=
  ⟨by rw [h'.index, h.index, applyRecords_append], h'.stop.trans h.stop,
    h'.files.trans h.files, h'.truncated.trans h.truncated⟩

section Replaying

variable (clock : Nat → Int64) (mode : RecoveryMode) (skipLsn : Nat)

/-- A frame of the engine whose LSN is new is applied, or skipped below `skipLsn`. -/
theorem onFrame_engine (segId : Nat) (st : ReplayState) (hf : EngineFrame f)
    (hlsn : isRecord f = true → skipLsn < f.fmeta.lsn.toNat →
      st.index.lastLsn < f.fmeta.lsn.toNat) :
    ∃ st', onFrame clock mode skipLsn segId st f = .ok (.next st') ∧
      Advanced clock st st' (liveFrom skipLsn (recordsOf segId [f])) := by
  have happly := applyFrame_engine st.index segId (clock f.fmeta.lsn.toNat) hf
  unfold onFrame
  cases hr : isRecord f with
  | false =>
    have hpad : f.fmeta.rtype = .pad := by simpa [isRecord] using hr
    have hframe : applyFrame st.index segId f (clock f.fmeta.lsn.toNat) = (st.index, .ok ()) := by
      unfold applyFrame
      rw [hpad]
    rw [if_neg (by simp [hpad]), if_neg (by simp [hpad]), hframe]
    refine ⟨_, rfl, ⟨?_, rfl, rfl, rfl⟩⟩
    simp [recordsOf, hr, liveFrom, applyRecords]
  | true =>
    have hpad : f.fmeta.rtype ≠ .pad := by simpa [isRecord] using hr
    by_cases hskip : f.fmeta.lsn.toNat ≤ skipLsn
    · rw [if_pos ⟨hpad, hskip⟩]
      have hdead : ¬ skipLsn < f.fmeta.lsn.toNat := by omega
      refine ⟨_, rfl, ⟨?_, rfl, rfl, rfl⟩⟩
      simp [recordsOf, hr, liveFrom, Located.lsn, hdead, applyRecords]
    · have hnew := hlsn hr (by omega)
      rw [if_neg (by simp [hskip]), if_neg (by simp; intro _; omega)]
      generalize hout : applyFrame st.index segId f (clock f.fmeta.lsn.toNat) = out at happly ⊢
      obtain ⟨idx, res⟩ := out
      subst happly
      refine ⟨_, rfl, ⟨?_, rfl, rfl, rfl⟩⟩
      have hlive : skipLsn < f.fmeta.lsn.toNat := by omega
      simp [recordsOf, hr, liveFrom, Located.lsn, hlive, applyRecords, hout]

theorem liveFrom_append (rs qs : List Located) :
    liveFrom skipLsn (rs ++ qs) = liveFrom skipLsn rs ++ liveFrom skipLsn qs := by
  simp [liveFrom]

theorem recordsOf_append (segId : Nat) (fs gs : List ScannedFrame) :
    recordsOf segId (fs ++ gs) = recordsOf segId fs ++ recordsOf segId gs := by
  simp [recordsOf]

/-- Whole frames at the front of a well formed log are a well formed log. -/
theorem WellFormed.kept [Checksum] {front back : List SegContents}
    {s s' : SegContents} {lost : List ScannedFrame} (h : WellFormed (front ++ s :: back))
    (hid : s'.segId = s.segId) (hframes : s'.frames ++ lost = s.frames) :
    WellFormed (front ++ [s']) := by
  obtain ⟨hdesc, hengine, hsorted, hpos⟩ := h
  have hdesc' := hdesc s (by simp)
  have hengine' := hengine s (by simp)
  have hrecs : records (front ++ s :: back) =
      records (front ++ [s']) ++ (recordsOf s.segId lost ++ records back) := by
    simp [records, SegContents.records, ← hframes, hid, recordsOf_append]
  rw [← hframes] at hdesc' hengine'
  rw [hrecs] at hsorted hpos
  exact ⟨forall_mem_append.mpr ⟨(forall_mem_append.mp hdesc).1,
      forall_mem_singleton.mpr ((described_append _ _ _).mp hdesc').1⟩,
    forall_mem_append.mpr ⟨(forall_mem_append.mp hengine).1,
      forall_mem_singleton.mpr (forall_mem_append.mp hengine').1⟩,
    (pairwise_append.mp hsorted).1, (forall_mem_append.mp hpos).1⟩

/-- What a replay has applied leaves the cursor below the records to come. -/
theorem applyRecords_below (idx : WalIndex) (rs : List Located) (bound : Nat)
    (hidx : idx.lastLsn < bound) (hrs : ∀ r ∈ rs, r.lsn < bound)
    (hengine : ∀ r ∈ rs, EngineFrame r.2 ∧ isRecord r.2 = true) :
    (applyRecords clock idx rs).lastLsn < bound := by
  induction rs generalizing idx with
  | nil => exact hidx
  | cons r rs ih =>
    obtain ⟨hr, hrec⟩ := hengine r (by simp)
    refine ih _ ?_ (fun q hq => hrs q (by simp [hq])) (fun q hq => hengine q (by simp [hq]))
    rw [applyFrame_engine_lastLsn _ _ _ hr hrec]
    exact max_lt hidx (hrs r (by simp))

/-- The cursor is behind what has been applied. -/
theorem applyRecords_cursor (idx : WalIndex) (rs : List Located)
    (hengine : ∀ r ∈ rs, EngineFrame r.2 ∧ isRecord r.2 = true) :
    idx.lastLsn ≤ (applyRecords clock idx rs).lastLsn ∧
    ∀ r ∈ rs, r.lsn ≤ (applyRecords clock idx rs).lastLsn := by
  induction rs generalizing idx with
  | nil => exact ⟨le_refl _, fun r hr => by cases hr⟩
  | cons r rs ih =>
    obtain ⟨hr, hrec⟩ := hengine r (by simp)
    obtain ⟨hstart, hlater⟩ := ih (applyFrame idx r.1 r.2 (clock r.lsn)).1
      fun q hq => hengine q (by simp [hq])
    rw [applyFrame_engine_lastLsn _ _ _ hr hrec] at hstart
    exact ⟨le_trans (le_max_left _ _) hstart,
      forall_mem_cons.mpr ⟨le_trans (le_max_right _ _) hstart, hlater⟩⟩

/-- A replay that starts where `front` ends applies what comes behind it. -/
theorem liveFrom_split {front back : List Located}
    (hsorted : (front ++ back).Pairwise fun a b => a.lsn < b.lsn)
    (hpos : ∀ r ∈ front ++ back, 0 < r.lsn)
    (hengine : ∀ r ∈ front ++ back, EngineFrame r.2 ∧ isRecord r.2 = true) :
    liveFrom (applyRecords clock empty front).lastLsn (front ++ back) = back := by
  obtain ⟨_, _, hcross⟩ := pairwise_append.mp hsorted
  have hfront := (applyRecords_cursor clock empty front fun r hr =>
    hengine r (mem_append_left _ hr)).2
  have hnone : liveFrom (applyRecords clock empty front).lastLsn front = [] :=
    filter_eq_nil_iff.mpr fun r hr => by simpa using hfront r hr
  have hall : liveFrom (applyRecords clock empty front).lastLsn back = back := by
    refine filter_eq_self.mpr fun r hr => decide_eq_true ?_
    refine applyRecords_below clock empty front r.lsn
      (hpos r (mem_append_right _ hr)) (fun q hq => hcross q hq r hr) ?_
    exact fun q hq => hengine q (mem_append_left _ hq)
  rw [liveFrom_append, hnone, hall, nil_append]

/-- Feeding frames of the engine with new, increasing LSNs applies them all and comes
to the end of the segment. -/
theorem feed_engine (forcedStop : Option StopPoint) (isTail : Bool) (segId validEnd : Nat)
    (verdict : ScanEnd) (fs more : List ScannedFrame) :
    ∀ st : ReplayState, (∀ f ∈ fs, EngineFrame f) →
      (recordsOf segId fs).Pairwise (fun a b => a.lsn < b.lsn) →
      (∀ r ∈ recordsOf segId fs, skipLsn < r.lsn → st.index.lastLsn < r.lsn) →
      ∃ st', feed clock mode skipLsn forcedStop isTail segId validEnd verdict (fs ++ more) st =
          feed clock mode skipLsn forcedStop isTail segId validEnd verdict more st' ∧
        Advanced clock st st' (liveFrom skipLsn (recordsOf segId fs)) := by
  induction fs with
  | nil =>
    intro st _ _ _
    exact ⟨st, rfl, ⟨rfl, rfl, rfl, rfl⟩⟩
  | cons f fs ih =>
    intro st hengine hsorted hnew
    have hf := hengine f (by simp)
    obtain ⟨st₁, hstep, hadv⟩ := onFrame_engine clock mode skipLsn segId st hf (by
      intro hr hlive
      exact hnew (segId, f) (by rw [recordsOf_cons, hr]; simp) hlive)
    -- the cursor stays below the frames that follow
    have htail : (recordsOf segId fs).Pairwise (fun a b => a.lsn < b.lsn) ∧
        ∀ r ∈ recordsOf segId fs, skipLsn < r.lsn → st₁.index.lastLsn < r.lsn := by
      rw [recordsOf_cons] at hsorted hnew
      cases hr : isRecord f with
      | false =>
        rw [hr] at hsorted hnew
        have hidx : st₁.index = st.index := by
          rw [hadv.index]
          simp [recordsOf, hr, liveFrom, applyRecords]
        rw [hidx]
        exact ⟨hsorted, hnew⟩
      | true =>
        rw [hr, if_pos rfl, pairwise_cons] at hsorted
        rw [hr, if_pos rfl] at hnew
        refine ⟨hsorted.2, ?_⟩
        intro r hr' hlive
        rw [hadv.index]
        refine applyRecords_below clock st.index _ r.lsn (hnew r (by simp [hr']) hlive) ?_ ?_
        · intro q hq
          obtain ⟨hq, _⟩ := mem_filter.mp hq
          rw [recordsOf_cons, hr] at hq
          have : q = (segId, f) := by simpa [recordsOf] using hq
          rw [this]
          exact hsorted.1 r hr'
        · intro q hq
          obtain ⟨hq, _⟩ := mem_filter.mp hq
          rw [recordsOf_cons, hr] at hq
          have : q = (segId, f) := by simpa [recordsOf] using hq
          rw [this]
          exact ⟨hf, hr⟩
    obtain ⟨st₂, hfeed, hadv₂⟩ := ih st₁ (fun g hg => hengine g (by simp [hg])) htail.1 htail.2
    refine ⟨st₂, ?_, ?_⟩
    · rw [cons_append, feed, hstep]
      exact hfeed
    · have := hadv.trans hadv₂
      rwa [← liveFrom_append, ← recordsOf_append, singleton_append] at this

theorem mem_records {segs : List SegContents} {r : Located} (h : r ∈ records segs) :
    ∃ s ∈ segs, r.1 = s.segId ∧ r.2 ∈ s.frames ∧ isRecord r.2 = true := by
  obtain ⟨s, hs, hr⟩ := mem_flatMap.mp h
  obtain ⟨f, hf, rfl⟩ := mem_map.mp hr
  obtain ⟨hf, hrec⟩ := mem_filter.mp hf
  exact ⟨s, hs, rfl, hf, hrec⟩

theorem WellFormed.engineRecords [Checksum] {segs : List SegContents}
    (h : WellFormed segs) : ∀ r ∈ records segs, EngineFrame r.2 ∧ isRecord r.2 = true := by
  intro r hr
  obtain ⟨s, hs, _, hf, hrec⟩ := mem_records hr
  exact ⟨h.engine s hs r.2 hf, hrec⟩

open SegContents

/-- **Whole segments are applied in every mode**, and replay goes on behind them. -/
theorem replay_whole [Checksum] (reads : ReadSplit) (segs : List SegContents)
    (rest : List SegFile) :
    ∀ st : ReplayState, (∀ s ∈ segs, Described segHeaderSize s.frames) →
      (∀ s ∈ segs, ∀ f ∈ s.frames, EngineFrame f) →
      (records segs).Pairwise (fun a b => a.lsn < b.lsn) →
      (∀ r ∈ records segs, skipLsn < r.lsn → st.index.lastLsn < r.lsn) →
      ∃ st', replaySegments reads clock mode skipLsn none (segs.map file ++ rest) st =
          replaySegments reads clock mode skipLsn none rest st' ∧
        Advanced clock st st' (liveFrom skipLsn (records segs)) := by
  induction segs with
  | nil =>
    intro st _ _ _ _
    exact ⟨st, rfl, ⟨rfl, rfl, rfl, rfl⟩⟩
  | cons s segs ih =>
    intro st hdesc hengine hsorted hnew
    have hrecs : records (s :: segs) = recordsOf s.segId s.frames ++ records segs := rfl
    rw [hrecs] at hsorted hnew ⊢
    obtain ⟨hfirst, hlater, hcross⟩ := pairwise_append.mp hsorted
    obtain ⟨st₁, hfeed, hadv⟩ := feed_engine clock mode skipLsn none
      (segs.map file ++ rest).isEmpty s.segId
      (segHeaderSize + bodySize s.frames) .clean s.frames [] st
      (hengine s (by simp)) hfirst (fun r hr => hnew r (mem_append_left _ hr))
    have hbelow : ∀ r ∈ records segs, skipLsn < r.lsn → st₁.index.lastLsn < r.lsn := by
      intro r hr hlive
      rw [hadv.index]
      refine applyRecords_below clock st.index _ r.lsn (hnew r (mem_append_right _ hr) hlive) ?_ ?_
      · intro q hq
        exact hcross q (mem_filter.mp hq).1 r hr
      · intro q hq
        obtain ⟨f, hf, rfl⟩ := mem_map.mp (mem_filter.mp hq).1
        obtain ⟨hf, hrec⟩ := mem_filter.mp hf
        exact ⟨hengine s (by simp) f hf, hrec⟩
    obtain ⟨st₂, hrest, hadv₂⟩ := ih st₁ (fun t ht => hdesc t (by simp [ht]))
      (fun t ht => hengine t (by simp [ht])) hlater hbelow
    refine ⟨st₂, ?_, ?_⟩
    · have hscan := scanBody_frames_zeros s.header.chainSeed segHeaderSize
        s.frames s.slack (hdesc s (by simp))
      rw [map_cons, cons_append, file, body, replaySegments_cons, hscan]
      dsimp only
      rw [append_nil] at hfeed
      rw [hfeed]
      exact hrest
    · rw [liveFrom_append]
      exact hadv.trans hadv₂

/-- **Replay up to a damaged segment**: whole segments, then one that starts with whole
frames and goes on with the bytes `tail`. -/
theorem replay_to_tail [Checksum] (reads : ReadSplit) (segs : List SegContents)
    (last : SegContents) (tail : Bytes) (rest : List SegFile) (st : ReplayState)
    (hlog : WellFormed (segs ++ [last]))
    (hnew : ∀ r ∈ records (segs ++ [last]), skipLsn < r.lsn → st.index.lastLsn < r.lsn) :
    ∃ st', Advanced clock st st' (liveFrom skipLsn (records (segs ++ [last]))) ∧
      replaySegments reads clock mode skipLsn none
          (segs.map SegContents.file ++ ⟨last.segId, last.header.encode ++
            (encodeFrames last.header.chainSeed last.frames ++ tail)⟩ :: rest) st =
        let s := scanBody (lastLink last.header.chainSeed last.frames)
          (segHeaderSize + bodySize last.frames) tail
        afterSegment
          (feed clock mode skipLsn none rest.isEmpty last.segId s.validEnd s.verdict s.frames st')
          (replaySegments reads clock mode skipLsn none rest) := by
  obtain ⟨hdesc, hengine, hsorted, _⟩ := hlog
  have hrecs : records (segs ++ [last]) = records segs ++ recordsOf last.segId last.frames := by
    simp [records, SegContents.records]
  rw [hrecs] at hsorted hnew ⊢
  obtain ⟨hsegs, hlast, hcross⟩ := pairwise_append.mp hsorted
  have hmem : ∀ s ∈ segs, s ∈ segs ++ [last] := fun s hs => mem_append_left _ hs
  have hin : last ∈ segs ++ [last] := by simp
  obtain ⟨st₁, hwhole, hadv₁⟩ := replay_whole clock mode skipLsn reads segs
    (⟨last.segId, last.header.encode ++ (encodeFrames
      last.header.chainSeed last.frames ++ tail)⟩ :: rest) st
    (fun s hs => hdesc s (hmem s hs)) (fun s hs => hengine s (hmem s hs)) hsegs
    (fun r hr => hnew r (mem_append_left _ hr))
  set s := scanBody (lastLink last.header.chainSeed last.frames)
    (segHeaderSize + bodySize last.frames) tail with hs
  obtain ⟨st₂, hfeed, hadv₂⟩ := feed_engine clock mode skipLsn none rest.isEmpty last.segId
    s.validEnd s.verdict last.frames s.frames st₁ (hengine last hin) hlast (by
      intro r hr hlive
      rw [hadv₁.index]
      refine applyRecords_below clock _ _ r.lsn (hnew r (mem_append_right _ hr) hlive) ?_ ?_
      · intro q hq
        exact hcross q (mem_filter.mp hq).1 r hr
      · intro q hq
        obtain ⟨c, hc, _, hq, hrec⟩ := mem_records (mem_filter.mp hq).1
        exact ⟨hengine c (hmem c hc) _ hq, hrec⟩)
  refine ⟨st₂, ?_, ?_⟩
  · rw [liveFrom_append]
    exact hadv₁.trans hadv₂
  · rw [hwhole, replaySegments_cons,
      scanBody_encodeFrames last.frames _ _ tail (hdesc last hin), ← hs]
    dsimp only
    rw [hfeed]

end Replaying

theorem liveFrom_zero {rs : List Located} (h : ∀ r ∈ rs, 0 < r.lsn) : liveFrom 0 rs = rs :=
  filter_eq_self.mpr fun r hr => by simpa using h r hr

end PowerFS.Wal.LogContents
