import PowerFS.V1.Layout

/-! # Compaction leaves every record as it is

The live needles in the order of their offsets are moved down one after another. Those
that have been moved lie below the new end, those to come lie above it and in order, so a
copy lands on no record but the old copy of the same needle. -/
namespace PowerFS.V1.Sliding
open Lib.FinTable Lib.Calls Lib.SparseFiles Lib.Extents Needle Metadata Coalescer State Operations
  Outcomes Requests Compaction V1.Layout List

variable {v v' v₀ : Volume} {todo : List NeedleInfo} {newOffset : Nat}

/-- The ranges of the live needles. -/
def livePlace (m : VolumeMetadata) (id : Nat) : Option Extent := (m.needles.lookup id).map extentOf

/-- Compaction of `v₀` has come to `v`: the needles of `todo` are still to be moved. -/
structure Slid (v₀ v : Volume) (todo : List NeedleInfo) (newOffset : Nat) : Prop where
  keyed : Keyed v.index
  live : ∀ id info, v.index.needles.lookup id = some info → info.deletedAt = none
  packed : Packed (livePlace v.index) volumeDataOffset (appendOffset v)
  inFile : appendOffset v ≤ v.data.file.len
  inSize : appendOffset v ≤ v.data.totalSize
  low : volumeDataOffset ≤ newOffset
  mark : newOffset ≤ appendOffset v
  waiting : ∀ info ∈ todo, v.index.needles.lookup info.id = some info
  sorted : todo.Pairwise fun a b => a.offset + a.size ≤ b.offset
  ahead : ∀ info ∈ todo, newOffset ≤ info.offset
  behind : ∀ id info, v.index.needles.lookup id = some info →
    info ∈ todo ∨ info.offset + info.size ≤ newOffset
  same : recordOf v = recordOf v₀
  total : v.data.totalSize = v₀.data.totalSize
  rest : v.index.deleted = v₀.index.deleted ∧ v.index.allocation = v₀.index.allocation ∧
    v.coalescer = v₀.coalescer ∧ v.info = v₀.info ∧ v.compacting = v₀.compacting

/-! ## The list of needles -/

variable {m : VolumeMetadata} {info : NeedleInfo} {id stop : Nat}

theorem livePlace_found (hold : m.needles.lookup id = some info) :
    livePlace m id = some (extentOf info) := by
  unfold livePlace
  rw [hold]
  rfl

theorem map_id_listNeedles (h : Keyed m) :
    (m.listNeedles.map Prod.snd).map NeedleInfo.id = m.listNeedles.map Prod.fst := by
  rw [map_map]
  apply map_congr_left
  rintro ⟨id, info⟩ hmem
  exact h.live id info (mem_toList.mp hmem)

theorem mem_active_iff (h : Keyed m)
    (hlive : ∀ id info, m.needles.lookup id = some info → info.deletedAt = none) :
    info ∈ activeNeedles m.listNeedles ↔ m.needles.lookup info.id = some info := by
  unfold activeNeedles
  rw [(perm_insertionSort _ _).mem_iff, mem_filter, mem_map]
  constructor
  · rintro ⟨⟨⟨id, i⟩, hmem, rfl⟩, _⟩
    have hlookup := mem_toList.mp hmem
    rw [h.live id i hlookup]
    exact hlookup
  · intro hlookup
    refine ⟨⟨(info.id, info), mem_toList.mpr hlookup, rfl⟩, ?_⟩
    rw [hlive _ _ hlookup]
    rfl

/-- The needles are listed in the order of their offsets, each once. -/
theorem active_sorted {lo hi : Nat} (h : Keyed m)
    (hlive : ∀ id info, m.needles.lookup id = some info → info.deletedAt = none)
    (hpacked : Packed (livePlace m) lo hi) :
    (activeNeedles m.listNeedles).Pairwise fun a b => a.offset + a.size ≤ b.offset := by
  have hoffsets : (activeNeedles m.listNeedles).Pairwise fun a b => a.offset ≤ b.offset :=
    pairwise_insertionSort (fun a b : NeedleInfo => a.offset ≤ b.offset) _
  have hids : (activeNeedles m.listNeedles).Pairwise fun a b => a.id ≠ b.id := by
    have hnodup : ((m.listNeedles.map Prod.snd).map NeedleInfo.id).Nodup := by
      rw [map_id_listNeedles h]
      exact toList_nodup_keys _
    have hfilter : (((m.listNeedles.map Prod.snd).filter (·.deletedAt.isNone)).map
        NeedleInfo.id).Nodup := hnodup.sublist (filter_sublist.map _)
    have hsorted : ((activeNeedles m.listNeedles).map NeedleInfo.id).Nodup :=
      ((perm_insertionSort _ _).map NeedleInfo.id).nodup_iff.mpr hfilter
    exact pairwise_map.mp hsorted
  refine (hoffsets.and hids).imp_of_mem fun {a b} ha hb hab => ?_
  have hpa := livePlace_found ((mem_active_iff h hlive).mp ha)
  have hpb := livePlace_found ((mem_active_iff h hlive).mp hb)
  exact hpacked.stop_le_start hab.2 hpa hpb hab.1 (size_pos b)

theorem livePacked (h : Placed v) : Packed (livePlace v.index) volumeDataOffset (appendOffset v) :=
  h.packed.reindex (fun id => (true, id)) (fun _ _ he => he)
    fun _ _ _ _ _ _ he => (Prod.mk.inj he).2

/-- Where the moves begin. -/
theorem slid_start (h : Placed v) :
    Slid v v (activeNeedles v.index.listNeedles) volumeDataOffset := by
  have hpacked := livePacked h
  refine ⟨h.keyed, h.live, hpacked, h.inFile, h.inSize, le_rfl, h.start, ?_, ?_, ?_, ?_, rfl, rfl,
    ⟨rfl, rfl, rfl, rfl, rfl⟩⟩
  · exact fun info hinfo => (mem_active_iff h.keyed h.live).mp hinfo
  · exact active_sorted h.keyed h.live hpacked
  · intro info hinfo
    have hlookup := (mem_active_iff h.keyed h.live).mp hinfo
    exact (h.packed.inside _ _ (place_live hlookup)).1
  · intro id info hlookup
    refine .inl ((mem_active_iff h.keyed h.live).mpr ?_)
    rw [h.keyed.live id info hlookup]
    exact hlookup

/-! ## One move -/

theorem Slid.stop_le (h : Slid v₀ v todo newOffset) (hold : v.index.needles.lookup id = some info) :
    info.offset + info.size ≤ appendOffset v :=
  (h.packed.inside _ _ (livePlace_found hold)).2

section

variable (h : Slid v₀ v (info :: todo) newOffset)
include h

/-- The others lie beside the place where the next needle goes. -/
theorem Slid.beside {other : NeedleInfo}
    (hold : v.index.needles.lookup id = some other) (hid : id ≠ info.id) :
    other.offset + other.size ≤ newOffset ∨ newOffset + info.size ≤ other.offset := by
  have hne : other ≠ info := fun heq => hid ((h.keyed.live id other hold).symm.trans (by rw [heq]))
  rcases h.behind id other hold with hmem | hbehind
  · rcases mem_cons.mp hmem with heq | htail
    · exact absurd heq hne
    have hnext := (pairwise_cons.mp h.sorted).1 other htail
    have hahead := h.ahead info mem_cons_self
    exact .inr (by omega)
  · exact .inl hbehind

open SparseFile

/-- A copy of the next needle leaves the records of the others. -/
theorem Slid.raw_copied {other : NeedleInfo}
    (hold : v.index.needles.lookup id = some other) (hid : id ≠ info.id) :
    (v.data.file.write newOffset (rawOf v info)).range other.offset (readSize other) =
      rawOf v other := by
  have hlen : (rawOf v info).length = readSize info := range_length _ _ _
  refine range_write_beside _ ?_
  rw [hlen]
  have hother := readSize_le other
  have hinfo := readSize_le info
  rcases h.beside hold hid with hleft | hright
  · exact .inl (by omega)
  · exact .inr (by omega)

theorem Slid.stays (hstay : info.offset = newOffset) : Slid v₀ v todo (newOffset + info.size) := by
  have hold := h.waiting info mem_cons_self
  have hstop := h.stop_le hold
  refine { h with low := ?_, mark := ?_, waiting := ?_, sorted := ?_, ahead := ?_, behind := ?_ }
  · exact h.low.trans (Nat.le_add_right _ _)
  · omega
  · exact fun i hi => h.waiting i (mem_cons_of_mem _ hi)
  · exact (pairwise_cons.mp h.sorted).2
  · intro i hi
    rw [← hstay]
    exact (pairwise_cons.mp h.sorted).1 i hi
  · intro id other hother
    rcases h.behind id other hother with hmem | hbehind
    · rcases mem_cons.mp hmem with rfl | htail
      · exact .inr (by omega)
      · exact .inl htail
    · exact .inr (by omega)

/-- The state after a needle has been moved. -/
def movedTo (v : Volume) (info : NeedleInfo) (newOffset n : Nat) : Volume :=
  relocated ((v.ticks n).putBytes newOffset (rawOf v info)) info newOffset

omit h in
theorem lookup_movedTo (v : Volume) (info : NeedleInfo) (newOffset n id : Nat) :
    (movedTo v info newOffset n).index.needles.lookup id =
      if id = info.id then some { info with offset := newOffset }
      else v.index.needles.lookup id := writes_insert id

theorem Slid.recordOf_moved (n : Nat) : recordOf (movedTo v info newOffset n) = recordOf v := by
  have hold := h.waiting info mem_cons_self
  funext id
  by_cases hid : id = info.id
  · subst hid
    unfold recordOf
    rw [lookup_movedTo, if_pos rfl, hold]
    have hlen : (rawOf v info).length = readSize info := range_length _ _ _
    have hraw : rawOf (movedTo v info newOffset n) { info with offset := newOffset } =
        rawOf v info := by
      show (v.data.file.write newOffset (rawOf v info)).range newOffset (readSize info) = _
      rw [← hlen, range_write]
    rw [Option.map_some, Option.map_some, hraw]
  · exact recordOf_eq ((lookup_movedTo _ _ _ _ _).trans (if_neg hid)) fun other hother =>
      h.raw_copied hother hid

theorem Slid.moves (n : Nat) :
    Slid v₀ (movedTo v info newOffset n) todo (newOffset + info.size) := by
  have hold := h.waiting info mem_cons_self
  have hstop := h.stop_le hold
  have hahead := h.ahead info mem_cons_self
  have htail := (pairwise_cons.mp h.sorted).1
  have hother : ∀ i ∈ todo, i.id ≠ info.id := by
    intro i hi heq
    have hi' := h.waiting i (mem_cons_of_mem _ hi)
    rw [heq, hold] at hi'
    cases hi'
    have := htail info hi
    have := size_pos info
    omega
  have hplace : livePlace (movedTo v info newOffset n).index =
      Function.update (livePlace v.index) info.id (some ⟨newOffset, info.size⟩) := by
    funext id
    unfold livePlace
    rw [lookup_movedTo]
    by_cases hid : id = info.id
    · subst hid
      rw [if_pos rfl, Function.update_self]
      rfl
    · rw [if_neg hid, Function.update_of_ne hid]
  refine { h with
    keyed := h.keyed.insert _ _, live := ?_, packed := ?_, inFile := ?_, low := ?_, mark := ?_,
    waiting := ?_, sorted := (pairwise_cons.mp h.sorted).2, ahead := ?_, behind := ?_,
    same := (h.recordOf_moved n).trans h.same }
  · intro id i hi
    rw [lookup_movedTo] at hi
    split at hi
    · cases hi
      exact h.live info.id info hold
    · exact h.live id i hi
  · rw [hplace]
    refine h.packed.replace info.id ⟨h.low, ?_⟩ fun id e hid he => ?_
    · show newOffset + info.size ≤ appendOffset v
      omega
    · obtain ⟨other, hlookup, rfl⟩ := Option.map_eq_some_iff.mp he
      exact (h.beside hlookup hid).symm
  · exact h.inFile.trans (len_le_write _ _ _)
  · exact h.low.trans (Nat.le_add_right _ _)
  · show newOffset + info.size ≤ appendOffset v
    omega
  · intro i hi
    rw [lookup_movedTo, if_neg (hother i hi)]
    exact h.waiting i (mem_cons_of_mem _ hi)
  · intro i hi
    have := htail i hi
    omega
  · intro id i hi
    rw [lookup_movedTo] at hi
    split at hi
    · cases hi
      exact .inr le_rfl
    rename_i hid
    rcases h.behind id i hi with hmem | hbehind
    · rcases mem_cons.mp hmem with rfl | hmem
      · exact absurd (h.keyed.live id i hi).symm hid
      · exact .inl hmem
    · exact .inr (by omega)

end

/-! ## All moves -/

/-- Everything lies below the new end. -/
theorem Slid.below_end (h : Slid v₀ v [] stop) (hold : v.index.needles.lookup id = some info) :
    info.offset + info.size ≤ stop := by
  rcases h.behind id info hold with hmem | hbehind
  · cases hmem
  · exact hbehind

theorem Slid.packed_end (h : Slid v₀ v [] stop) (s : AllocationStats) :
    Packed (place (v.index.cleaned s)) volumeDataOffset stop := by
  have hlive : ∀ p e, place (v.index.cleaned s) p = some e →
      p.1 = true ∧ livePlace v.index p.2 = some e := by
    rintro ⟨b, id⟩ e he
    cases b with
    | true => exact ⟨rfl, he⟩
    | false =>
      rw [place_dead, show (v.index.cleaned s).deleted = ∅ from rfl, Finmap.lookup_empty] at he
      cases he
  have hpacked := h.packed.reindex Prod.snd (fun p e he => (hlive p e he).2)
    fun p q a b hp hq hpq => Prod.ext ((hlive p a hp).1.trans (hlive q b hq).1.symm) hpq
  refine ⟨fun p e he => ⟨(hpacked.inside p e he).1, ?_⟩, hpacked.apart⟩
  obtain ⟨info, hinfo, rfl⟩ := Option.map_eq_some_iff.mp (hlive p e he).2
  exact h.below_end hinfo

/-- The file is cut off behind the last record. -/
theorem Slid.cut (h : Slid v₀ v [] stop)
    (htotal : v.data.totalSize = v.info.size + volumeDataOffset) (k n : Nat) (now : Int) :
    Placed (cutAt ((cleanedState (v.ticks k) stop now).ticks n) stop) ∧
      recordOf (cutAt ((cleanedState (v.ticks k) stop now).ticks n) stop) = recordOf v := by
  constructor
  · refine ⟨⟨h.keyed.live, ?_⟩, h.live, h.packed_end _, h.low, le_rfl, h.mark.trans h.inSize,
      htotal⟩
    intro id info hbad
    rw [show (cutAt ((cleanedState (v.ticks k) stop now).ticks n) stop).index.deleted = ∅ from rfl,
      Finmap.lookup_empty] at hbad
    cases hbad
  · refine recordOf_congr rfl fun id info hold => ?_
    have hbelow := h.below_end hold
    have hsize := readSize_le info
    exact SparseFile.range_setLen _ (by omega)

variable [Env]

/-- **Without failures all needles are moved**, and every record is as it was. -/
theorem Slid.moved {r : Result Nat} (hq : ¬ CallFails v v')
    (hm : Moved todo newOffset v r v') (h : Slid v₀ v todo newOffset) :
    ∃ stop, r = .ok stop ∧ Slid v₀ v' [] stop := by
  induction hm with
  | done newOffset v => exact ⟨newOffset, rfl, h⟩
  | stays hstay _ ih => exact ih hq (h.stays hstay)
  | moves _ _ hput hrest ih =>
    have hle := hrest.calls_le
    rcases hput with ⟨_, rfl⟩ | ⟨hfault, rfl⟩
    · exact ih (fun hfail => hq (hfail.within (Nat.le_add_right _ 3) le_rfl)) (h.moves 3)
    · exact absurd ⟨_, Nat.le_add_right _ 2, hle, hfault⟩ hq
  | @broken info todo newOffset n m v e _ _ hbad =>
    have hold := h.waiting info mem_cons_self
    have hstop := h.stop_le hold
    have hahead := h.ahead info mem_cons_self
    have hsize := readSize_le info
    have hfile := h.inFile
    have htotal := h.inSize
    exact absurd ⟨by omega, by omega, by omega, hq⟩ hbad

/-! ## The end -/

/-- What is in front of the data file: the coalescer and the state of the volume. -/
def SameFront (v v' : Volume) : Prop :=
  v'.coalescer = v.coalescer ∧ v'.compacting = v.compacting ∧
    v'.info = { v.info with used := v'.info.used }

variable {r : Result (Nat × Nat)} {size : Nat} {qs : List Request}

/-- **Without failures a compaction leaves all records** that its flush has left. -/
theorem compactInner_quiet (hq : ¬ CallFails v v') (h : Placed v)
    (hc : Returns compactInner v r v') :
    ∃ log v₁, Drained (Env.order.entries v.coalescer.entries) (drainedFrom v) log v₁ ∧
      (∃ res, r = .ok res) ∧ Placed v' ∧ recordOf v' = recordOf v₁ ∧ SameFront v₁ v' := by
  obtain ⟨r₁, v₁, hflush, hc⟩ := hc.parts
  obtain ⟨log, rfl, hdrain⟩ := compactFlush_returns hflush
  have htaken : Placed (drainedFrom v) := { h with }
  have h₁ : Placed v₁ := Placed.drained hdrain htaken
  obtain ⟨r₂, v₂, hscan, hc⟩ := hc.ok.parts
  obtain ⟨active, rfl, rfl, hlisted⟩ := scanActive_returns hscan
  obtain ⟨r₃, v₃, hmove, hc⟩ := hc.ok.parts
  have hfirst : v.calls ≤ v₁.calls := hdrain.calls_le
  have hmoved : v₁.calls + 1 ≤ v₃.calls := (moveNeedles_returns hmove).calls_le
  have hlast : v₃.calls ≤ v'.calls := by
    cases r₃ with
    | error => exact hc.2 ▸ le_rfl
    | ok res => exact (compactEnd_returns hc.ok).1
  rcases hlisted with rfl | ⟨hfault, _⟩
  case inr => exact absurd ⟨_, hfirst, by omega, hfault⟩ hq
  have h₂ : Placed (v₁.ticks 1) := { h₁ with }
  obtain ⟨stop, hr, hend⟩ := Slid.moved
    (fun hfail => hq (hfail.within (hfirst.trans (Nat.le_succ _)) hlast))
    (moveNeedles_returns hmove) (slid_start h₂)
  cases r₃ with
  | error => cases hr
  | ok res =>
    obtain ⟨newOffset, updated⟩ := res
    obtain rfl : newOffset = stop := Except.ok.inj hr
    have htotal : v₃.data.totalSize = v₃.info.size + volumeDataOffset := by
      rw [hend.total, hend.rest.2.2.2.1]
      exact h₂.total
    obtain ⟨now, res, rfl, rfl⟩ := (compactEnd_returns hc.ok).2 (hend.mark.trans hend.inSize)
      fun hfail => hq (hfail.within (by omega) le_rfl)
    obtain ⟨hplaced, hrecord⟩ := hend.cut htotal 5 1 now
    refine ⟨log, v₁, hdrain, ⟨_, rfl⟩, hplaced, ?_, hend.rest.2.2.1, hend.rest.2.2.2.2, ?_⟩
    · rw [hrecord, hend.same]
      rfl
    · rw [show v₁.info = v₃.info from hend.rest.2.2.2.1.symm]
      rfl

/-! ## Runs -/

/-- No call that a compaction makes fails. -/
def Untroubled (v : Volume) : Request → Prop
  | .compact => ∀ r v', Returns (perform .compact) v r v' → ¬ CallFails v v'
  | _ => True

instance : (q : Request) → Decidable (Untroubled v q)
  | .compact =>
    inferInstanceAs (Decidable (∀ r v', Returns (perform .compact) v r v' → ¬ CallFails v v'))
  | .write _ _ _ | .blob _ _ _ _ | .flush _ | .flushAll | .flushExpired | .delete _ | .restore _
  | .lock _ _ | .gc => .isTrue trivial

theorem Placed.compact_quiet (hq : ¬ CallFails v v') (h : Placed v) (hc : Returns compact v r v') :
    Placed v' := by
  rcases compact_returns hc with ⟨_, rfl⟩ | ⟨_, v₁, hinner, rfl⟩
  · exact h
  have hset : Placed (v.setCompacting true) := { h with }
  have hinside : ¬ CallFails (v.setCompacting true) v₁ := hq
  obtain ⟨_, _, _, _, h₁, _⟩ := compactInner_quiet hinside hset hinner
  exact { h₁ with }

/-- **Every request keeps the layout**, a compaction if nothing fails in it. -/
theorem Placed.step {q : Request} {r : Result Unit} (hcalm : Untroubled v q)
    (h : Placed v) (hq : Returns (perform q) v r v') : Placed v' := by
  cases q with
  | write fileKey cookie data =>
    obtain ⟨_, hw⟩ := ignore_returns hq
    exact h.write hw
  | blob fileKey offset size data => exact h.blob hq
  | flush | flushAll | flushExpired =>
    obtain ⟨n, ids, log, hlog⟩ := flushes_returns rfl hq
    exact Placed.flushed hlog { h with }
  | delete id => exact h.delete hq
  | restore id => exact h.restore hq
  | lock id retentionDays => exact h.lock hq
  | gc =>
    obtain ⟨_, hp⟩ := ignore_returns hq
    exact h.purge hp
  | compact =>
    obtain ⟨_, hc⟩ := ignore_returns hq
    exact Placed.compact_quiet (hcalm r v' hq) h hc

/-- **Every volume is laid out well**, as long as nothing fails during a compaction. -/
theorem placed_of_run {config : CoalescerConfig} {file : SparseFile} {now : Int}
    (h : Run Untroubled (openVolume config id size .empty file now) qs v') : Placed v' :=
  h.keeps (fun _ _ _ _ hmeets hI hq => Placed.step hmeets hI hq)
    (placed_new config id size file now)

end PowerFS.V1.Sliding
