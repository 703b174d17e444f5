import PowerFS.Wal.ApplyOrder
import PowerFS.Wal.Interleaving
import PowerFS.Wal.Recovery

/-! # What a checkpoint covers

A checkpoint names the largest LSN that has been applied. Records are applied after
they have been given their LSNs, so a smaller one may still be on its way. -/
namespace PowerFS.Wal.CkptCoverage
open Lib.ByteString Payload Index Checkpoint Replay Records LogContents Directory Engine
  EngineOpen EngineDisk EngineRun Effects Cells IndexAlike Recovery ApplyOrder Interleaving List
  WalIndex

/-! ## User records on disk -/

/-- The write or the deletion that a frame records, without the time of its application. -/
def userRecord (r : Located) : Option UserRecord :=
  let b := r.2.payload
  match r.2.fmeta.rtype with
  | .data =>
    if h : (b.drop 12).length < 2 ^ 32 then
      some (.data (placeOf r.1 r.2.fmeta) ⟨UInt64.ofNat (ofLE (slice b 0 8)), b.drop 12⟩ h 0)
    else none
  | .delete => some (.delete r.lsn ⟨UInt64.ofNat (ofLE (slice b 0 8)),
      (UInt64.ofNat (ofLE (slice b 8 16))).toInt64, (UInt64.ofNat (ofLE (slice b 16 24))).toInt64⟩)
  | _ => none

def userRecords (rs : List Located) : List UserRecord := rs.filterMap userRecord

variable {r : Located}

theorem userRecord_data {q : DataPayload} (hshort : q.data.length < 2 ^ 32)
    (htype : r.2.fmeta.rtype = .data) (hpayload : r.2.payload = q.encode) :
    userRecord r = some (.data (placeOf r.1 r.2.fmeta) q hshort 0) := by
  have hid : UInt64.ofNat (ofLE (slice q.encode 0 8)) = q.needleId := by
    rw [DataPayload.encode, slice_head (by simp), ofLE_toLE_u64, UInt64.ofNat_toNat]
  have hdata : q.encode.drop 12 = q.data := by
    rw [DataPayload.encode, ← append_assoc]
    exact drop_left' (by simp)
  unfold userRecord
  rw [htype, hpayload]
  simp only [hid, hdata]
  rw [dif_pos hshort]

theorem userRecord_delete {q : DeletePayload} (htype : r.2.fmeta.rtype = .delete)
    (hpayload : r.2.payload = q.encode) : userRecord r = some (.delete r.lsn q) := by
  obtain ⟨hid, hat, huntil⟩ := deletePayload_slices q
  unfold userRecord
  rw [htype, hpayload]
  dsimp only
  rw [hid, hat, huntil, int64_bytes, int64_bytes, ofLE_toLE_u64, UInt64.ofNat_toNat]

/-- A frame of a call is a user record that replay applies as it is, or an anchor. -/
theorem callRecord_cases (hcall : CallRecord r) (hframe : EngineFrame r.2) :
    (∃ u, userRecord r = some u ∧ u.lsn = r.lsn ∧
      ∀ idx, u.apply idx = (applyFrame idx r.1 r.2 0).1) ∨
    (userRecord r = none ∧ ∃ lsn a b, effectOf r.1 r.2 = .anchor lsn a b) := by
  unfold EngineFrame at hframe
  rcases hcall with htype | htype | htype
  · rw [htype] at hframe
    obtain ⟨q, hshort, hpayload⟩ := hframe
    refine .inl ⟨_, userRecord_data hshort htype hpayload, rfl, fun idx => ?_⟩
    simp only [applyFrame, htype, reportAs_fst, hpayload]
    rfl
  · rw [htype] at hframe
    obtain ⟨q, hpayload⟩ := hframe
    refine .inl ⟨_, userRecord_delete htype hpayload, rfl, fun idx => ?_⟩
    simp only [applyFrame, htype, reportAs_fst, hpayload]
    rfl
  · rw [htype] at hframe
    obtain ⟨q, hpayload⟩ := hframe
    have hlen : r.2.payload.length = 16 := by
      rw [hpayload]
      simp [CkptAnchorPayload.encode]
    refine .inr ⟨?_, r.lsn, ofLE (slice r.2.payload 0 8), ofLE (slice r.2.payload 8 16), ?_⟩
    · unfold userRecord
      rw [htype]
    · unfold effectOf
      rw [htype]
      dsimp only
      rw [if_pos hlen]
      rfl

/-- Anchors leave the tables alone, so the user records alone make them. -/
theorem applyRecords_alike {rs : List Located} (hcalls : ∀ r ∈ rs, CallRecord r)
    (hframes : ∀ r ∈ rs, EngineFrame r.2) :
    Alike Eq (applyRecords (fun _ => 0) empty rs) (applyAll (userRecords rs)) := by
  induction rs using reverseRecOn with
  | nil => exact Alike.refl _
  | append_singleton rs r ih =>
    have ih := ih (fun q hq => hcalls q (by simp [hq])) fun q hq => hframes q (by simp [hq])
    rw [applyRecords_append, userRecords, filterMap_append]
    show Alike Eq (applyFrame _ r.1 r.2 0).1 _
    rcases callRecord_cases (hcalls r (by simp)) (hframes r (by simp)) with
      ⟨u, hu, _, happly⟩ | ⟨hnone, lsn, a, b, heff⟩
    · have hone : [r].filterMap userRecord = [u] := by simp [hu]
      rw [hone, applyAll_concat, happly, applyFrame_effect, applyFrame_effect]
      exact ih.apply eq_kept _ _ _
    have hone : [r].filterMap userRecord = [] := by simp [hnone]
    rw [hone, append_nil, applyFrame_effect, heff]
    obtain ⟨anchor, heq⟩ := (applyRecords (fun _ => 0) empty rs).applyCkptAnchor_eq a b lsn
    rw [Effect.apply, heq]
    exact { ih with }

/-! ## Tables without ages -/

theorem userRecord_now {place : WalIndex.Place} {payload : DataPayload}
    {short : payload.data.length < 2 ^ 32} {t : Int64}
    (h : userRecord r = some (.data place payload short t)) : t = 0 := by
  unfold userRecord at h
  dsimp only at h
  split at h
  · split at h
    · cases h
      rfl
    · cases h
  · cases h
  · cases h

/-- Records without times make entries without ages. -/
theorem runCell_ageless (us : List UserRecord)
    (hnow : ∀ place payload short t, UserRecord.data place payload short t ∈ us → t = 0)
    {n : NeedleEntry} (hn : (runCell us).1.live = some n) : ageless n = n := by
  induction us using reverseRecOn generalizing n with
  | nil => cases hn
  | append_singleton us u ih =>
    have ih := fun {m : NeedleEntry} => @ih (fun p q sh t hm => hnow p q sh t (by simp [hm])) m
    rw [runCell_concat, runStep] at hn
    cases u with
    | data place payload short t =>
      obtain rfl := hnow place payload short t (by simp)
      dsimp only [ApplyOrder.step, UserRecord.effect, Cell.apply, Cell.install] at hn
      split at hn
      · exact ih hn
      split at hn
      · exact ih hn
      split at hn <;> cases hn <;> rfl
    | delete lsn payload =>
      dsimp only [ApplyOrder.step, UserRecord.effect, Cell.apply] at hn
      split at hn
      · exact ih hn
      split at hn
      · exact ih hn
      · cases hn

theorem applyAll_ageless {rs : List Located} {id : Nat} {n : NeedleEntry}
    (hn : (applyAll (userRecords rs)).needles.lookup id = some n) : ageless n = n := by
  have hcell : (runCell (ofId id (userRecords rs))).1.live = some n := by
    rw [← applyAll_cell]
    exact hn
  refine runCell_ageless _ ?_ hcell
  intro place payload short t hm
  obtain ⟨hm, _⟩ := mem_filter.mp hm
  obtain ⟨r, _, hr⟩ := mem_filterMap.mp hm
  exact userRecord_now hr

theorem alike_iff_sameOutcome (rs qs : List Located) :
    Alike List.Perm (applyAll (userRecords rs)) (applyAll (userRecords qs)) ↔
      SameOutcome (applyAll (userRecords rs)) (applyAll (userRecords qs)) := by
  constructor
  · intro h
    refine ⟨Finmap.ext_lookup fun id => ?_, h.tombstones, h.deadCopies, h.stats⟩
    rcases h.live id with ⟨ha, hb⟩ | ⟨x, y, ha, hb, hxy⟩
    · rw [ha, hb]
    · rw [ha, hb, ← applyAll_ageless ha, ← applyAll_ageless hb, hxy]
  · intro h
    refine ⟨fun id => by rw [h.needles], h.tombstones, h.deadCopies, h.stats, ?_⟩
    rw [applyAll_purged, applyAll_purged]

/-! ## What a checkpoint stands for -/

/-- The checkpoint `data`, frozen in `s`, has the effect of every record up to its LSN,
and at any time later, replay from it loses nothing of what a full replay finds. -/
structure Complete [Checksum] (clock : Nat → Int64) (s : System) (data : CkptData) : Prop where
  tables : Alike List.Perm (intoIndex data)
    (applyRecords (fun _ => 0) WalIndex.empty (upTo data.header.appliedLsn s.disk))
  lossless : ∀ acts s', steps clock s acts = some s' →
    ∀ (reads : ReadSplit) (replayClock : Nat → Int64) (mode : RecoveryMode), ∃ part full,
      replayAll reads replayClock mode data.header.appliedLsn s'.engine.volume.segs
        (LoadedCkpt.ofData data.header.ckptSeq data).index = .ok part ∧
      replayAll reads replayClock mode 0 s'.engine.volume.segs WalIndex.empty = .ok full ∧
      Alike List.Perm part.index full.index

section Coverage

variable {rs : List Located}

theorem userRecords_lsn (hcalls : ∀ r ∈ rs, CallRecord r) (hframes : ∀ r ∈ rs, EngineFrame r.2)
    {u : UserRecord} (hr : r ∈ rs) (hu : userRecord r = some u) : u.lsn = r.lsn := by
  rcases callRecord_cases (hcalls r hr) (hframes r hr) with ⟨v, hv, hlsn, _⟩ | ⟨hnone, _⟩
  · rw [hv] at hu
    cases hu
    exact hlsn
  · rw [hnone] at hu
    cases hu

theorem userRecords_sorted (hcalls : ∀ r ∈ rs, CallRecord r) (hframes : ∀ r ∈ rs, EngineFrame r.2)
    (hsorted : rs.Pairwise fun a b => a.lsn < b.lsn) :
    (userRecords rs).Pairwise fun a b => a.lsn < b.lsn := by
  refine pairwise_filterMap.mpr (hsorted.imp_of_mem ?_)
  intro a b ha hb hab u hu v hv
  rw [userRecords_lsn hcalls hframes ha hu, userRecords_lsn hcalls hframes hb hv]
  exact hab

variable [Checksum] {clock : Nat → Int64} {s s' : System}

/-- Each record is applied at most once. -/
theorem applied_nodup (h : Inv s) : (userRecords s.applied).Nodup := by
  have hdistinct : s.disk.Pairwise fun a b => a.lsn ≠ b.lsn :=
    h.disk_sorted.imp fun hlt => Nat.ne_of_lt hlt
  have happlied := (h.outstanding.pairwise_iff fun hne => Ne.symm hne).mpr hdistinct
  have hcalls := fun r hr => h.calls r (h.applied_subset r hr)
  have hframes := fun r hr => (h.disk_records r (h.applied_subset r hr)).1
  have husers : (userRecords s.applied).Pairwise fun a b => a.lsn ≠ b.lsn := by
    refine pairwise_filterMap.mpr ((pairwise_append.mp happlied).1.imp_of_mem ?_)
    intro a b ha hb hab u hu v hv
    rw [userRecords_lsn hcalls hframes ha hu, userRecords_lsn hcalls hframes hb hv]
    exact hab
  exact husers.imp fun hne heq => hne (congrArg UserRecord.lsn heq)

/-- **Which tables are complete**: those of an index that has all effective records up to
its cursor, and got them in time. -/
theorem tables_iff (h : Inv s) (o : HashOrder) (seq : Nat) (t : Int64) :
    Alike List.Perm (intoIndex (freeze o s.engine seq t))
      (applyRecords (fun _ => 0) empty (upTo s.engine.index.lastLsn s.disk)) ↔
    ∀ id, InEffectiveOrder (userRecords (upTo s.engine.index.lastLsn s.disk))
      (userRecords s.applied) id := by
  set covered := upTo s.engine.index.lastLsn s.disk with hcov
  have hcalls : ∀ r ∈ covered, CallRecord r := fun r hr => h.calls r (mem_filter.mp hr).1
  have hframes : ∀ r ∈ covered, EngineFrame r.2 := fun r hr =>
    (h.disk_records r (mem_filter.mp hr).1).1
  have hload : Alike Eq (intoIndex (freeze o s.engine seq t))
      (applyAll (userRecords s.applied)) := by
    have hloaded := (loaded_alike o (freeze o s.engine seq t).header
      (buildSegEntries o s.engine.sink.manifest s.engine.index) h.index.consistent
      h.index.dated).1
    have hbuilt : Alike Eq (intoIndex (freeze o s.engine seq t)) s.engine.index :=
      { hloaded with }
    refine (hbuilt.trans h.index.alike).trans (applyRecords_alike ?_ ?_)
    · exact fun r hr => h.calls r (h.applied_subset r hr)
    · exact fun r hr => (h.disk_records r (h.applied_subset r hr)).1
  have hlog := applyRecords_alike hcalls hframes
  have hsub : ∀ u ∈ userRecords s.applied, u ∈ userRecords covered := by
    intro u hu
    obtain ⟨r, hr, hru⟩ := mem_filterMap.mp hu
    exact mem_filterMap.mpr ⟨r, h.applied_upTo r hr, hru⟩
  have hsorted := userRecords_sorted hcalls hframes (h.disk_sorted.filter _)
  rw [← sameOutcome_iff hsorted (applied_nodup h) hsub, ← alike_iff_sameOutcome]
  constructor
  · intro halike
    exact hload.symm.of_eq (halike.trans hlog)
  · intro halike
    exact hload.of_eq (halike.trans hlog.symm)

omit [Checksum] in
/-- Behind a cursor: what replay from it applies. -/
theorem upTo_append_liveFrom (hsorted : rs.Pairwise fun a b => a.lsn < b.lsn) (lsn : Nat) :
    upTo lsn rs ++ liveFrom lsn rs = rs := by
  induction rs with
  | nil => rfl
  | cons r rs ih =>
    obtain ⟨hr, htail⟩ := pairwise_cons.mp hsorted
    have ih := ih htail
    by_cases hle : r.lsn ≤ lsn
    · have hup : upTo lsn (r :: rs) = r :: upTo lsn rs := by simp [upTo, hle]
      have hlive : liveFrom lsn (r :: rs) = liveFrom lsn rs := by simp [liveFrom, hle]
      rw [hup, hlive, cons_append, ih]
    have hnone : upTo lsn (r :: rs) = [] := by
      refine filter_eq_nil_iff.mpr fun q hq => ?_
      rcases mem_cons.mp hq with rfl | hq
      · simpa using hle
      have := hr q hq
      simp only [decide_eq_true_eq]
      omega
    have hall : liveFrom lsn (r :: rs) = r :: rs := by
      refine filter_eq_self.mpr fun q hq => decide_eq_true ?_
      rcases mem_cons.mp hq with rfl | hq
      · omega
      · have := hr q hq
        omega
    rw [hnone, hall, nil_append]

/-- Replay of the segments of a running engine. -/
theorem replay_running (h : Inv s) (reads : ReadSplit) (replayClock : Nat → Int64)
    (mode : RecoveryMode) {skipLsn : Nat} {idx : WalIndex} (hidx : idx.lastLsn ≤ skipLsn) :
    ∃ res, replayAll reads replayClock mode skipLsn s.engine.volume.segs idx = .ok res ∧
      res.index = applyRecords replayClock idx (liveFrom skipLsn s.disk) := by
  obtain ⟨segs, last, hrun, hdisk⟩ := h.running
  obtain ⟨hdesc, hengine, hsorted, _⟩ := hrun.stored.wellFormed
  obtain ⟨st, hreplay, hadv⟩ := replay_whole replayClock mode skipLsn reads
    (segs ++ [last]) [] ⟨idx, 0, 0, ∅, none, s.engine.sink.files⟩ hdesc hengine hsorted
    (fun r _ hr => lt_of_le_of_lt hidx hr)
  rw [append_nil, ← hrun.stored.files_eq] at hreplay
  refine ⟨⟨st.index, st.framesReplayed, st.framesSkipped, st.truncated, st.stop,
    abandonedAfter s.engine.sink.files st.stop, s.engine.sink.files.length, st.files⟩, ?_, ?_⟩
  · unfold replayAll replayWith
    rw [show s.engine.volume.segs = s.engine.sink.files from rfl, hreplay]
    rfl
  · rw [← hdisk]
    exact hadv.index

/-- A checkpoint with complete tables loses nothing, whenever it is used. -/
theorem lossless_of_tables (h : Inv s) (o : HashOrder) (seq : Nat) (t : Int64)
    (htables : Alike List.Perm (intoIndex (freeze o s.engine seq t))
      (applyRecords (fun _ => 0) empty (upTo s.engine.index.lastLsn s.disk))) :
    Complete clock s (freeze o s.engine seq t) := by
  refine ⟨htables, ?_⟩
  intro acts s' hsteps reads replayClock mode
  have h' := steps_inv acts h hsteps
  obtain ⟨more, hmore⟩ := steps_disk acts hsteps
  obtain ⟨hloaded, hcursor, _⟩ := loaded_alike o (freeze o s.engine seq t).header
    (buildSegEntries o s.engine.sink.manifest s.engine.index) h.index.consistent h.index.dated
  obtain ⟨part, hpart, hpartIdx⟩ := replay_running h' reads replayClock mode (le_of_eq hcursor)
  obtain ⟨full, hfull, hfullIdx⟩ := replay_running h' reads replayClock mode
    (show empty.lastLsn ≤ 0 from le_refl 0)
  refine ⟨part, full, hpart, hfull, ?_⟩
  -- nothing that was written later is covered
  have hcovered : upTo s.engine.index.lastLsn s'.disk = upTo s.engine.index.lastLsn s.disk := by
    have hsorted := h'.disk_sorted
    rw [hmore, pairwise_append] at hsorted
    have hlater : upTo s.engine.index.lastLsn more = [] := by
      refine filter_eq_nil_iff.mpr fun r hr => ?_
      have hbelow : s.engine.index.lastLsn < r.lsn := by
        rw [h.index.cursor]
        refine applyRecords_below _ empty s.applied r.lsn
          (h'.disk_positive r (by rw [hmore]; simp [hr])) ?_ ?_
        · exact fun q hq => hsorted.2.2 q (h.applied_subset q hq) r hr
        · exact fun q hq => h.disk_records q (h.applied_subset q hq)
      simpa using hbelow
    rw [hmore, upTo, filter_append, ← upTo, ← upTo, hlater, append_nil]
  have hlive0 : liveFrom 0 s'.disk = s'.disk := liveFrom_zero h'.disk_positive
  rw [hpartIdx, hfullIdx, hlive0]
  nth_rewrite 2 [← upTo_append_liveFrom h'.disk_sorted s.engine.index.lastLsn]
  rw [applyRecords_append, hcovered]
  refine Alike.applyRecords perm_kept ?_ _ _ _
  have hstart := htables.trans ((Alike.refl empty).applyRecords eq_kept (fun _ => 0) replayClock _)
  exact { hstart with }

end Coverage

/-! ## Reachable systems -/

/-- Open a fresh volume and let calls interleave. -/
def interleave [Checksum] (reads : ReadSplit) (replayClock clock : Nat → Int64)
    (config : WalEngineConfig) (acts : List Act) : Option System :=
  match openEngine reads replayClock clock config Volume.fresh 0 with
  | some (.ok e) => steps clock (.idle e) acts
  | _ => none

section Reachable

variable [Checksum] {reads : ReadSplit} {replayClock clock : Nat → Int64}
  {config : WalEngineConfig} {acts : List Act} {s s₁ : System} {o : HashOrder}

theorem idle_inv {e : WalEngine}
    (h : openEngine reads replayClock clock config Volume.fresh 0 = some (.ok e)) :
    Inv (.idle e) := by
  obtain ⟨_, last, sb, hempty, htr, _⟩ := open_fresh_traced h
  have hnone : onDisk [] last = [] := by
    rw [onDisk_eq, hempty]
    rfl
  have hidx := htr.index
  rw [hnone] at hidx
  exact ⟨⟨[], last, htr.running, hnone⟩, hidx, List.Perm.refl _, by simp [System.idle],
    by simp [System.idle]⟩

theorem interleave_inv (h : interleave reads replayClock clock config acts = some s) : Inv s := by
  unfold interleave at h
  split at h
  · rename_i e hopen
    exact steps_inv acts (idle_inv hopen) h
  · cases h

/-- **No record is lost or applied twice** while no sync fails, however writes, deletions
and checkpoints interleave: LSNs increase over the segment files; each record is in the
index, once, or belongs to a call that has yet to apply it. -/
theorem records_applied_once (h : interleave reads replayClock clock config acts = some s) :
    (∃ segs last, Running s.engine segs last ∧ onDisk segs last = s.disk) ∧
      s.disk.Pairwise (fun a b => a.lsn < b.lsn) ∧ s.applied.Nodup ∧
      (s.applied ++ s.threads.filterMap Thread.record?).Perm s.disk ∧
      Alike Eq s.engine.index (applyRecords (fun _ => 0) WalIndex.empty s.applied) := by
  have hinv := interleave_inv h
  have hnodup : s.disk.Nodup := hinv.disk_sorted.imp fun hlt heq => hlt.ne (congrArg _ heq)
  have hall := hinv.outstanding.nodup_iff.mpr hnodup
  exact ⟨hinv.running, hinv.disk_sorted, hall.of_append_left, hinv.outstanding, hinv.index.alike⟩

theorem checkpoint_step (h : Interleaving.step clock s (.checkpoint o) = some s₁) :
    s₁ = { s with
      engine := { s.engine with
        nextCkptSeq := s.engine.nextCkptSeq + 1, ticks := s.engine.ticks + 1 }
      threads := s.threads ++ [.frozen ⟨s.engine.nextCkptSeq, s.engine.index.lastLsn⟩
        (freeze o s₁.engine s.engine.nextCkptSeq (clock s.engine.ticks))] } := by
  cases h
  rfl

/-- **What a checkpoint covers.** Any number of writes, deletions and checkpoints may be
under way when the index is frozen. The checkpoint has the effect of every record up to
its LSN, and replay of the records behind it loses nothing, if and only if for every
needle id the effective records up to that LSN have all been applied, in LSN order, and
every other deletion among them was applied when the newest effective record applied for
the id was no older DATA. -/
theorem checkpoint_complete_iff (h : interleave reads replayClock clock config acts = some s)
    (hstep : Interleaving.step clock s (.checkpoint o) = some s₁) :
    ∃ out data, s₁.threads = s.threads ++ [.frozen out data] ∧
      out.appliedLsn = s.engine.index.lastLsn ∧ data.header.appliedLsn = out.appliedLsn ∧
      (Complete clock s₁ data ↔
        ∀ id, InEffectiveOrder (userRecords (upTo s.engine.index.lastLsn s.disk))
          (userRecords s.applied) id) := by
  have hinv := step_inv (interleave_inv h) hstep
  have hs₁ := checkpoint_step hstep
  have hindex : s₁.engine.index = s.engine.index := by rw [hs₁]
  have hdisk : s₁.disk = s.disk := by rw [hs₁]
  have happlied : s₁.applied = s.applied := by rw [hs₁]
  have hiff := tables_iff hinv o s.engine.nextCkptSeq (clock s.engine.ticks)
  refine ⟨_, freeze o s₁.engine s.engine.nextCkptSeq (clock s.engine.ticks),
    congrArg System.threads hs₁, rfl, congrArg lastLsn hindex, ?_⟩
  rw [← hindex, ← hdisk, ← happlied, ← hiff]
  exact ⟨fun hc => hc.tables, lossless_of_tables hinv o _ _⟩

end Reachable

local instance : Checksum := ⟨Lib.Crc32c.crc32c⟩

/-- Two writes; the second reaches the index first. -/
def overtaking : List Act :=
  [.write 1 [10], .write 2 [20], .resume 0, .resume 0, .resume 1]

/-- The first write reaches the index first. -/
def inTurn : List Act := [.write 1 [10], .write 2 [20], .resume 0, .resume 0, .resume 0]

set_option maxRecDepth 20000 in
theorem inTurn_applied_once : ∃ s, interleave ReadSplit.whole sampleClock
    sampleClock sampleConfig inTurn = some s ∧ s.applied.Nodup := by
  have hsome : (interleave ReadSplit.whole sampleClock sampleClock sampleConfig
      inTurn).isSome = true := by decide +kernel
  obtain ⟨s, hs⟩ := Option.isSome_iff_exists.mp hsome
  exact ⟨s, hs, (records_applied_once hs).2.2.1⟩

def inTurnSystem : Option (System × System) :=
  (interleave ReadSplit.whole sampleClock sampleClock sampleConfig inTurn).bind
    fun s => (Interleaving.step sampleClock s (.checkpoint .byKey)).map
      fun s₁ => (s, s₁)

/-- The records up to the LSN of the index have been applied, in order. -/
def Caught (s : System) : Prop :=
  s.applied = upTo s.engine.index.lastLsn s.disk ∧
    (userRecords s.applied).Pairwise fun a b => a.lsn < b.lsn

instance (s : System) : Decidable (Caught s) := inferInstanceAs (Decidable (_ ∧ _))

set_option maxRecDepth 20000 in
theorem inTurn_covered : ∃ s s₁ out data, interleave ReadSplit.whole
      sampleClock sampleClock sampleConfig inTurn = some s ∧
    Interleaving.step sampleClock s (.checkpoint .byKey) = some s₁ ∧
    .frozen out data ∈ s₁.threads ∧ Complete sampleClock s₁ data := by
  have hcaught : inTurnSystem.map (fun p => decide (Caught p.1)) = some true := by decide +kernel
  obtain ⟨⟨s, s₁⟩, hs, hdone⟩ := Option.map_eq_some_iff.mp hcaught
  obtain ⟨s', hrun, hmap⟩ := Option.bind_eq_some_iff.mp hs
  obtain ⟨s₁', hstep, heq⟩ := Option.map_eq_some_iff.mp hmap
  cases heq
  obtain ⟨hall, hsorted⟩ := of_decide_eq_true hdone
  obtain ⟨out, data, hthreads, -, -, hiff⟩ := checkpoint_complete_iff hrun hstep
  refine ⟨s, s₁, out, data, hrun, hstep, by simp [hthreads], hiff.mpr fun id => ?_⟩
  rw [← hall]
  exact inEffectiveOrder_same hsorted rfl

/-- A frozen checkpoint that names LSN 2 and has no needle 1, which record 1 wrote. -/
def lacksFirst (s : System) : Thread → Bool
  | .frozen _ data => decide (data.header.appliedLsn = 2) &&
      decide ((intoIndex data).needles.lookup 1 = none) &&
      ((applyRecords (fun _ => 0) WalIndex.empty (upTo 2 s.disk)).needles.lookup 1).isSome
  | _ => false

set_option maxRecDepth 20000 in
/-- The second write is applied, the first is not, and the checkpoint names the LSN of the
second. -/
theorem overtaking_uncovered : ∃ s out data, interleave ReadSplit.whole
      sampleClock sampleClock sampleConfig (overtaking ++ [.checkpoint .byKey]) = some s ∧
    .frozen out data ∈ s.threads ∧ ¬ Complete sampleClock s data := by
  have hlost : (interleave ReadSplit.whole sampleClock sampleClock sampleConfig
      (overtaking ++ [.checkpoint .byKey])).map (fun s => s.threads.any (lacksFirst s)) =
        some true := by
    decide +kernel
  obtain ⟨s, hs, hany⟩ := Option.map_eq_some_iff.mp hlost
  obtain ⟨t, ht, hlacks⟩ := any_eq_true.mp hany
  cases t with
  | frozen out data =>
    simp only [lacksFirst, Bool.and_eq_true, decide_eq_true_eq] at hlacks
    obtain ⟨⟨hlsn, hmissing⟩, hthere⟩ := hlacks
    refine ⟨s, out, data, hs, ht, fun hc => ?_⟩
    have hneedle := hc.tables.needles 1
    rw [hmissing, hlsn] at hneedle
    obtain ⟨n, hn⟩ := Option.isSome_iff_exists.mp hthere
    rw [hn] at hneedle
    cases hneedle
  | _ => cases hlacks

end PowerFS.Wal.CkptCoverage
