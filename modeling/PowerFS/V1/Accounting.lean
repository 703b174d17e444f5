import PowerFS.V1.Compaction

/-! # The allocation statistics against a recount

Every operation adjusts the statistics by what it knows of the needle at hand. The
adjustment is right as long as an id has at most one generation in both families
together when it is deleted or restored, contents fit the 32-bit size of the index, and a
purge gets through. -/
namespace PowerFS.V1.Accounting
open Lib.ByteString Lib.FinTable Lib.Calls Lib.SparseFiles Needle Metadata Coalescer State
  Operations Outcomes Requests Compaction WriteCoalescer

/-- The statistics are what a recount finds. -/
structure Recounted (m : VolumeMetadata) (volumeSize : Nat) : Prop where
  used : m.getAllocation.usedBytes = total NeedleInfo.size m.needles
  active : m.getAllocation.activeCount = size m.needles
  deleted : m.getAllocation.deletedCount = size m.deleted
  free : m.getAllocation.freeBytes = volumeSize - m.getAllocation.usedBytes

/-! ## One change of the metadata -/

variable {m : VolumeMetadata} {volumeSize : Nat}

/-- Replacing a needle exchanges its size in the used bytes. -/
theorem exchange_eq {used oldTotal size : Nat} (h : oldTotal ≤ used) :
    AllocationStats.exchange used oldTotal size + oldTotal = used + size := by
  unfold AllocationStats.exchange
  split
  · omega
  split <;> omega

theorem Recounted.written (h : Recounted m volumeSize) (info : NeedleInfo) (now : Int) :
    Recounted (m.written info (m.getAllocation.afterWrite (m.needles.lookup info.id) info.id
      info.size volumeSize now)) volumeSize := by
  cases hold : m.needles.lookup info.id with
  | none =>
    refine ⟨?_, ?_, h.deleted, rfl⟩
    · show m.getAllocation.usedBytes + info.size = total NeedleInfo.size (m.needles.insert _ _)
      rw [total_insert_new _ _ hold, h.used, Nat.add_comm]
    · show m.getAllocation.activeCount + 1 = size (m.needles.insert _ _)
      rw [size_insert_new _ hold, h.active]
  | some old =>
    refine ⟨?_, ?_, h.deleted, rfl⟩
    · show AllocationStats.exchange m.getAllocation.usedBytes old.size info.size =
        total NeedleInfo.size (m.needles.insert _ _)
      have hle : old.size ≤ m.getAllocation.usedBytes := by
        rw [h.used]
        exact le_total _ hold
      have hnew := total_insert_old NeedleInfo.size info hold
      have hexchange := @exchange_eq m.getAllocation.usedBytes old.size info.size hle
      have hused := h.used
      omega
    · show m.getAllocation.activeCount = size (m.needles.insert _ _)
      rw [size_insert_old _ hold, h.active]

variable {info : NeedleInfo} {id : Nat} {data : Bytes} {r : Result Unit}

section

variable (h : Recounted m volumeSize)
include h

/-- An entry may be replaced by one of the same size without an adjustment. -/
theorem Recounted.putNeedle {old : NeedleInfo}
    (hold : m.needles.lookup info.id = some old) (hsize : old.size = info.size) :
    Recounted (m.putNeedle info) volumeSize := by
  refine ⟨?_, ?_, h.deleted, h.free⟩
  · show m.getAllocation.usedBytes = total NeedleInfo.size (m.needles.insert _ _)
    have hnew := total_insert_old NeedleInfo.size info hold
    have hused := h.used
    omega
  · show m.getAllocation.activeCount = size (m.needles.insert _ _)
    rw [size_insert_old _ hold, h.active]

theorem Recounted.removed (now : Int)
    (hlive : m.needles.lookup id = some info) (hdead : m.deleted.lookup id = none) :
    Recounted (m.removed id (VolumeMetadata.buried info now)
      (m.getAllocation.afterDelete info volumeSize now)) volumeSize := by
  refine ⟨?_, ?_, ?_, rfl⟩
  · show m.getAllocation.usedBytes - info.size = total NeedleInfo.size (m.needles.erase id)
    rw [h.used, total_erase NeedleInfo.size hlive]
    omega
  · show m.getAllocation.activeCount - 1 = size (m.needles.erase id)
    rw [h.active, size_erase hlive]
    omega
  · show m.getAllocation.deletedCount + 1 = size (m.deleted.insert id _)
    rw [h.deleted, size_insert_new _ hdead]

theorem Recounted.restored (now : Int)
    (hdead : m.deleted.lookup id = some info) (hlive : m.needles.lookup id = none) :
    Recounted (m.restored id (VolumeMetadata.revived info)
      (m.getAllocation.afterRestore info volumeSize now)) volumeSize := by
  refine ⟨?_, ?_, ?_, rfl⟩
  · show m.getAllocation.usedBytes + info.size = total NeedleInfo.size (m.needles.insert id _)
    rw [total_insert_new _ _ hlive, h.used, Nat.add_comm]
    rfl
  · show m.getAllocation.activeCount + 1 = size (m.needles.insert id _)
    rw [size_insert_new _ hlive, h.active]
  · show m.getAllocation.deletedCount - 1 = size (m.deleted.erase id)
    rw [h.deleted, size_erase hdead]
    omega

theorem Recounted.cleaned (newOffset : Nat) (now : Int) :
    Recounted (m.cleaned (m.getAllocation.afterCompact newOffset volumeSize now)) volumeSize :=
  ⟨h.used, h.active, rfl, rfl⟩

end

/-- At start the statistics are set to a recount. -/
theorem recounted_syncAllocation (m : VolumeMetadata) (volumeSize : Nat) (now : Int) :
    Recounted (m.syncAllocation volumeSize now) volumeSize := by
  have hused : m.rebuildAllocationStats.1 = total NeedleInfo.size m.needles :=
    (total_eq_sum NeedleInfo.size m.needles).symm
  have hactive : m.rebuildAllocationStats.2.2.1 = size m.needles := (size_eq_length _).symm
  have hdeleted : m.rebuildAllocationStats.2.2.2 = size m.deleted := (size_eq_length _).symm
  unfold VolumeMetadata.syncAllocation
  dsimp only
  split
  case isTrue => exact ⟨hused, hactive, hdeleted, rfl⟩
  case isFalse hsame =>
    simp only [not_or, not_not] at hsame
    obtain ⟨hu, hf, ha, hd, _⟩ := hsame
    exact ⟨hu.trans hused, ha.trans hactive, hd.trans hdeleted, by rw [hf, hu]⟩

/-! ## The state of a volume -/

section

variable [Env] {v v' w : Volume}

/-- The statistics are right, and so will be those of every entry that is still dirty. -/
structure Counted (v : Volume) : Prop where
  stats : Recounted v.index v.info.size
  keyed : Keyed v.index
  small : ∀ id merged isNew, v.coalescer.held id = some (merged, isNew) → merged.length < 2 ^ 32

section

variable (h : Counted v)
include h

omit [Env] in
theorem Counted.ticks (n : Nat) : Counted (v.ticks n) := { h with }

omit [Env] in
/-- Nothing new is dirty. -/
theorem Counted.setCoalescer {c : WriteCoalescer}
    (hc : ∀ x e, c.held x = some e → v.coalescer.held x = some e) : Counted (v.setCoalescer c) :=
  { h with small := fun x merged isNew hx => h.small x merged isNew (hc x _ hx) }

omit [Env] in
theorem Counted.discard (capacity : Bytes → Nat) (id : Nat) : Counted (v.discard capacity id) :=
  h.setCoalescer fun _ _ hx =>
    held_of_gone (held_invalidate capacity v.coalescer id) hx

theorem Counted.begun (fileKey : Nat) : Counted (begun v fileKey) :=
  { h with small := fun x merged isNew hx =>
      h.small x merged isNew (held_of_gone (held_begun v fileKey) hx) }

omit h in
theorem Counted.wrote {known good : Prop} {r : Result NeedleInfo} (h : Counted w)
    (hlen : data.length < 2 ^ 32) (hw : Wrote known good w id data r v') : Counted v' := by
  cases hw with
  | skipped n => exact h.ticks n
  | failed _ _ htorn =>
    obtain ⟨n, m, s, _, rfl⟩ := htorn
    exact { h with }
  | @published info n now _ _ _ hinfo =>
    have hspace : recordSize data.length = info.size := by
      unfold NeedleInfo.size
      rw [hinfo.size_eq, u32, Nat.mod_eq_of_lt hlen]
    rw [hspace]
    exact ⟨h.stats.written info now, h.keyed.insert info _, h.small⟩

theorem Counted.target {k : Nat} (ht : FlushTarget v id w k) : Counted w := by
  obtain ⟨n, ⟨rfl, _⟩ | ⟨rfl, _⟩⟩ := ht
  · exact h.ticks n
  · exact (h.ticks n).begun id

theorem Counted.flushEntry {merged : Bytes} {isNew : Bool} (hlen : merged.length < 2 ^ 32)
    (hf : Returns (flushCoalescerEntry id merged isNew) v r v') : Counted v' := by
  rcases flushCoalescerEntry_returns hf with ⟨_, _, n, rfl⟩ | ⟨_, w, k, r₀, ht, _, hw⟩
  · exact h.ticks n
  · exact (h.target ht).wrote hlen hw

omit h in
theorem Counted.flushed {ids : List Nat} {log : List Attempt} (hf : Flushed ids v log v')
    (h : Counted v) : Counted v' := by
  induction hf with
  | nil => exact h
  | nothing _ _ ih => exact ih h
  | entry _ htake hflush _ ih =>
    obtain ⟨hheld, _, hgone⟩ := held_take htake
    have htaken := h.setCoalescer fun _ _ hx => held_of_gone hgone hx
    exact ih (htaken.flushEntry (h.small _ _ _ hheld) hflush)

omit h in
theorem Counted.drained {es : List (Nat × DirtyEntry)} {log : List Attempt}
    (hd : Drained es v log v') (hsmall : ∀ e ∈ es, e.2.merged.length < 2 ^ 32)
    (h : Counted v) : Counted v' := by
  induction hd with
  | nil => exact h
  | cons hflush _ ih =>
    exact ih (fun e he => hsmall e (List.mem_cons_of_mem _ he))
      (h.flushEntry (hsmall _ List.mem_cons_self) hflush)

/-! ## Compaction -/

omit h in
/-- Moving needles changes their offsets only. -/
theorem Counted.moved {todo : List NeedleInfo} {newOffset : Nat} {r : Result Nat}
    (hm : Moved todo newOffset v r v')
    (htodo : ∀ info ∈ todo, ∃ old, v.index.needles.lookup info.id = some old ∧
      old.size = info.size) (h : Counted v) : Counted v' := by
  induction hm with
  | done => exact h
  | stays _ _ ih => exact ih (fun i hi => htodo i (List.mem_cons_of_mem _ hi)) h
  | @moves info todo newOffset v v₁ v' r _ _ hput _ ih =>
    obtain ⟨old, hold, hsize⟩ := htodo info List.mem_cons_self
    have hrest : ∀ i ∈ todo, ∃ old, v.index.needles.lookup i.id = some old ∧ old.size = i.size :=
      fun i hi => htodo i (List.mem_cons_of_mem _ hi)
    rcases hput with ⟨_, rfl⟩ | ⟨_, rfl⟩
    · refine ih (fun i hi => ?_) ⟨h.stats.putNeedle hold hsize, h.keyed.insert _ _, h.small⟩
      obtain ⟨old', hold', hsize'⟩ := hrest i hi
      by_cases hid : i.id = info.id
      · refine ⟨{ info with offset := newOffset }, ?_, ?_⟩
        · show (v.index.needles.insert info.id _).lookup i.id = _
          rw [hid, Finmap.lookup_insert]
        · rw [hid, hold] at hold'
          cases hold'
          exact hsize.symm.trans hsize'
      · refine ⟨old', ?_, hsize'⟩
        show (v.index.needles.insert info.id _).lookup i.id = _
        rw [Finmap.lookup_insert_of_ne _ hid]
        exact hold'
    · exact ih hrest { h with }
  | broken => exact { h with }

omit h [Env] in
theorem mem_activeNeedles {needles : List (Nat × NeedleInfo)} (h : info ∈ activeNeedles needles) :
    ∃ id, (id, info) ∈ needles := by
  unfold activeNeedles at h
  rw [(List.perm_insertionSort _ _).mem_iff] at h
  obtain ⟨⟨id, i⟩, hi, rfl⟩ := List.mem_map.mp (List.mem_filter.mp h).1
  exact ⟨id, hi⟩

theorem Counted.compactInner {r : Result (Nat × Nat)}
    (hc : Returns compactInner v r v') : Counted v' := by
  obtain ⟨r₁, v₁, hflush, hc⟩ := hc.parts
  obtain ⟨log, rfl, hdrain⟩ := compactFlush_returns hflush
  have h₁ : Counted v₁ := by
    refine Counted.drained hdrain (fun e he => ?_) (h.setCoalescer nofun)
    obtain ⟨id, entry⟩ := e
    have hlookup := mem_toList.mp ((Env.order.perm _).mem_iff.mp he)
    refine h.small id entry.merged entry.isNewNeedle ?_
    unfold held heldIn
    rw [hlookup]
    rfl
  obtain ⟨r₂, v₂, hscan, hc⟩ := hc.ok.parts
  obtain ⟨active, rfl, rfl, hactive⟩ := scanActive_returns hscan
  replace hc := hc.ok
  have htodo : ∀ info ∈ active, ∃ old, v₁.index.needles.lookup info.id = some old ∧
      old.size = info.size := by
    intro info hinfo
    rcases hactive with rfl | ⟨_, rfl⟩
    · obtain ⟨id, hid⟩ := mem_activeNeedles hinfo
      have hlookup := mem_toList.mp hid
      rw [← h₁.keyed.live id info hlookup] at hlookup
      exact ⟨info, hlookup, rfl⟩
    · cases hinfo
  rcases hc.bind with ⟨e, _, hmove⟩ | ⟨⟨newOffset, updated⟩, v₃, hmove, hc⟩
  · exact Counted.moved (moveNeedles_returns hmove) htodo (h₁.ticks 1)
  have h₃ : Counted v₃ := Counted.moved (moveNeedles_returns hmove) htodo (h₁.ticks 1)
  obtain ⟨r₄, v₄, hsettle, hc⟩ := hc.parts
  rcases settleCompact_returns hsettle with ⟨now, _, ⟨_, rfl⟩, rfl⟩ | ⟨_, _, n, rfl, rfl⟩
  case inr =>
    obtain ⟨_, rfl⟩ := hc
    exact h₃.ticks n
  have h₄ : Counted (cleanedState (v₃.ticks 5) newOffset now) :=
    ⟨h₃.stats.cleaned newOffset now, ⟨h₃.keyed.live, nofun⟩, h₃.small⟩
  obtain ⟨r', hcut⟩ := hc.ok.bind_pure
  rcases truncateVolume_returns hcut with ⟨_, rfl⟩ | ⟨_, _, n, _, rfl⟩
  · exact { h₄ with }
  · exact h₄.ticks n

/-! ## Requests -/

/-- What a request must meet for the statistics to stay right. -/
def Tame (v : Volume) : Request → Prop
  | .write _ _ data => data.length < 2 ^ 32
  | .blob _ offset size data => asUsize offset + (chunk size data).length < 2 ^ 32
  | .delete id => v.index.needles.lookup id ≠ none → v.index.deleted.lookup id = none
  | .restore id => v.index.needles.lookup id = none
  | .gc => ∀ r v', Returns (perform .gc) v r v' → ¬ CallFails v v'
  | _ => True

instance (q : Request) : Decidable (Tame v q) := by
  cases q <;> dsimp only [Tame] <;> infer_instance

theorem Counted.blob {fileKey : Nat} {offset size : Int}
    (hlen : asUsize offset + (chunk size data).length < 2 ^ 32)
    (hb : Returns (writeNeedleBlob fileKey offset size data) v r v') : Counted v' := by
  rcases writeNeedleBlob_returns hb with
    ⟨_, _, n, _, rfl⟩ | ⟨_, _, n, hint, existing, hbase, hrec⟩
  · exact h.ticks n
  have hseed : (seed existing hint).length < 2 ^ 32 := by
    cases hbase with
    | dirty | fresh => exact (zeros_length _).trans_lt hlen
    | stored _ _ _ hcur => exact fromBytes_length hcur
  have hpatch : ∀ base : Bytes, base.length < 2 ^ 32 →
      (pwrite base (asUsize offset) (chunk size data)).length < 2 ^ 32 := by
    intro base hb
    rw [pwrite_length]
    omega
  rcases recordBlob_returns hrec with ⟨_, _, c, _, rfl, hheld⟩ | ⟨_, hflush⟩
  · refine ⟨h.stats, h.keyed, fun x merged isNew hx => ?_⟩
    replace hx : c.held x = some (merged, isNew) := hx
    rw [hheld x] at hx
    split at hx
    · unfold merge at hx
      split at hx
      case h_1 old isNew' hold =>
        cases hx
        exact hpatch _ (h.small _ _ _ hold)
      case h_2 =>
        cases hx
        exact hpatch _ hseed
    · exact h.small x merged isNew hx
  · exact ((h.ticks n).ticks 1).flushEntry (hpatch _ hseed) hflush

theorem Counted.write {fileKey cookie : Nat} {r : Result NeedleInfo} (hlen : data.length < 2 ^ 32)
    (hw : Returns (writeNeedleWithCookie fileKey cookie data) v r v') : Counted v' := by
  replace hw := hw.get_bind
  split at hw
  · obtain ⟨_, rfl⟩ := hw.fail
    exact h
  rcases writeNeedleNowait_returns hw with ⟨_, _, rfl⟩ | ⟨_, hwrote⟩
  · exact h
  · exact (h.begun fileKey).wrote hlen hwrote

theorem Counted.delete (hone : v.index.needles.lookup id ≠ none → v.index.deleted.lookup id = none)
    (hd : Returns (deleteNeedle id) v r v') : Counted v' := by
  rcases deleteNeedle_returns hd with ⟨_, n, _, rfl⟩ | ⟨info, now, n, hold, _, _, k, s, u, rfl⟩
  · exact (h.discard _ id).ticks n
  have hdead : v.index.deleted.lookup id = none :=
    hone (by rw [hold]; exact Option.some_ne_none _)
  exact ⟨h.stats.removed now hold hdead, h.keyed.removed now hold _,
    (h.discard Env.capacity id).small⟩

theorem Counted.restore (hone : v.index.needles.lookup id = none)
    (hr : Returns (restoreNeedle id) v r v') : Counted v' := by
  rcases restoreNeedle_returns hr with ⟨n, rfl⟩ | ⟨info, now, n, hold, rfl⟩
  · exact h.ticks n
  exact ⟨h.stats.restored now hold hone, h.keyed.restored hold _, h.small⟩

theorem Counted.lock {retentionDays : Int}
    (hl : Returns (wormLock id retentionDays) v r v') : Counted v' := by
  rcases wormLock_returns hl with ⟨_, n, _, rfl⟩ | ⟨info, hold, _, _, ⟨_, rfl⟩ | ⟨_, rfl⟩⟩
  · exact h.ticks n
  · have hlookup : v.index.needles.lookup info.id = some info := by
      rw [h.keyed.live id info hold]
      exact hold
    exact ⟨h.stats.putNeedle hlookup rfl, h.keyed.insert _ _, h.small⟩
  · exact h.ticks 3

/-- A purge gets through when none of its calls fails. -/
theorem Counted.purge {r : Result Nat} (hquiet : ¬ CallFails v v')
    (hp : Returns purgeExpiredDeleted v r v') : Counted v' := by
  obtain ⟨d, ⟨⟨hsub, n, rfl⟩, hfail | hsize⟩ | ⟨hsub, n, p, now, hsize, rfl⟩⟩ :=
    purgeExpiredDeleted_returns hp
  · exact absurd hfail hquiet
  · exact { h with
      stats := { h.stats with deleted := h.stats.deleted.trans hsize.symm }
      keyed := ⟨h.keyed.live, fun x i hx => h.keyed.buried x i (hsub x i hx)⟩ }
  refine { h with
    stats := { h.stats with deleted := ?_ }
    keyed := ⟨h.keyed.live, fun x i hx => h.keyed.buried x i (hsub x i hx)⟩ }
  show v.index.getAllocation.deletedCount - p = size d
  rw [h.stats.deleted]
  omega

end

/-- **Every tame request keeps the statistics right.** -/
theorem Counted.step {q : Request} (htame : Tame v q) (h : Counted v)
    (hq : Returns (perform q) v r v') : Counted v' := by
  cases q with
  | write fileKey cookie data =>
    obtain ⟨_, hw⟩ := ignore_returns hq
    exact h.write htame hw
  | blob fileKey offset size data => exact h.blob htame hq
  | flush | flushAll | flushExpired =>
    obtain ⟨n, ids, log, hlog⟩ := flushes_returns rfl hq
    exact Counted.flushed hlog (h.ticks n)
  | delete id => exact h.delete htame hq
  | restore id => exact h.restore htame hq
  | lock id retentionDays => exact h.lock hq
  | gc =>
    obtain ⟨r₀, hp⟩ := ignore_returns hq
    exact h.purge (htame r v' hq) hp
  | compact =>
    obtain ⟨_, hc⟩ := ignore_returns hq
    rcases compact_returns hc with ⟨_, rfl⟩ | ⟨_, v₁, hinner, rfl⟩
    · exact h
    · have h₀ : Counted (v.setCompacting true) := { h with }
      exact { h₀.compactInner hinner with }

omit [Env] in
/-- A volume starts with a recount. -/
theorem counted_openVolume {config : CoalescerConfig} {size : Nat} {index : VolumeMetadata}
    {file : SparseFile} {now : Int} (hkeyed : Keyed index) :
    Counted (openVolume config id size index file now) :=
  ⟨recounted_syncAllocation index size now, hkeyed.syncAllocation size now, nofun⟩

/-- **In every state that tame requests lead to, the statistics are what a recount
finds.** -/
theorem recounted_of_run {config : CoalescerConfig} {id size : Nat} {index : VolumeMetadata}
    {file : SparseFile} {now : Int} {qs : List Request} (hkeyed : Keyed index)
    (h : Run Tame (openVolume config id size index file now) qs v') :
    Recounted v'.index v'.info.size :=
  (h.keeps (fun _ _ _ _ hmeets hI hq => Counted.step hmeets hI hq)
    (counted_openVolume hkeyed)).stats

end

local instance : Env := calm

/-- A needle is overwritten, deleted and restored before a compaction. -/
theorem rewritten_needle_recounted : ∃ v', Run Tame (newVolume 1000)
    [.write 1 0 [1], .write 1 0 [2, 3], .delete 1, .restore 1, .compact] v' ∧
    Recounted v'.index v'.info.size := by
  have hruns : (performAll Tame [.write 1 0 [1], .write 1 0 [2, 3], .delete 1, .restore 1, .compact]
      (newVolume 1000)).isSome = true := by decide +kernel
  obtain ⟨v', hv'⟩ := Option.isSome_iff_exists.mp hruns
  have hrun : Run Tame (newVolume 1000)
      [.write 1 0 [1], .write 1 0 [2, 3], .delete 1, .restore 1, .compact] v' :=
    run_of_performAll hv'
  exact ⟨v', hrun, recounted_of_run .empty hrun⟩

/-- Deleting two generations of a needle counts two deleted needles where there is one. -/
theorem second_generation_miscounted : ∃ v', Run (fun _ _ => True) (newVolume 1000)
    [.write 1 0 [1], .delete 1, .write 1 0 [2], .delete 1] v' ∧
    ¬ Recounted v'.index v'.info.size := by
  have hcount : (performAll (fun _ _ => True)
      [.write 1 0 [1], .delete 1, .write 1 0 [2], .delete 1] (newVolume 1000)).map
      (fun v => (v.index.getAllocation.deletedCount, size v.index.deleted)) = some (2, 1) := by
    decide +kernel
  obtain ⟨v', hv', heq⟩ := Option.map_eq_some_iff.mp hcount
  refine ⟨v', run_of_performAll hv', fun hr => ?_⟩
  have hdeleted := hr.deleted
  rw [(Prod.mk.inj heq).1, (Prod.mk.inj heq).2] at hdeleted
  cases hdeleted

end PowerFS.V1.Accounting
