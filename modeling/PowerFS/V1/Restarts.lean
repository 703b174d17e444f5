import PowerFS.V1.Worm

/-! # Restarts

A server killed between two requests opens its volumes again over the index and the
data file, and dirty entries are lost. The records stay where they are: what is read of a
flushed needle survives all restarts and all requests for other needles, in any order. -/
namespace PowerFS.V1.Restarts
open Lib.FinTable Lib.Calls Lib.SparseFiles Lib.Extents Needle Metadata Coalescer State Operations
  Outcomes Requests V1.Layout Sliding Worm VolumeMetadata

variable {v v' : Volume} {x : Nat}

/-- `Volume::new` over what a volume has left on disk. -/
def reopen (config : CoalescerConfig) (now : Int) (v : Volume) : Volume :=
  { openVolume config v.info.id v.info.size v.index v.data.file now with calls := v.calls }

/-! ## Opening again -/

theorem maxEnd_le {entries : List (Nat × NeedleInfo)} {start hi : Nat} (hstart : start ≤ hi)
    (h : ∀ e ∈ entries, e.2.offset + e.2.size ≤ hi) : maxEnd entries start ≤ hi := by
  induction entries generalizing start with
  | nil => exact hstart
  | cons e es ih =>
    exact ih (max_le hstart (h e List.mem_cons_self)) fun e he => h e (List.mem_cons_of_mem _ he)

/-- Where no record ends behind the append offset, the recount leaves it. -/
theorem syncAllocation_keeps (m : VolumeMetadata) (size : Nat) (now : Int)
    (h : max (max m.getAllocation.appendOffset m.rebuildAllocationStats.2.1) volumeDataOffset =
      m.getAllocation.appendOffset) :
    ∃ s, m.syncAllocation size now = { m with allocation := s } ∧
      (s.getD .default).appendOffset = m.getAllocation.appendOffset := by
  unfold syncAllocation
  dsimp only
  split
  · exact ⟨_, rfl, h⟩
  · exact ⟨_, rfl, rfl⟩

/-- **A restart leaves the layout and the records**, and appends go on where they were. -/
theorem placed_reopen (h : Placed v) (config : CoalescerConfig) (now : Int) :
    Placed (reopen config now v) ∧ recordOf (reopen config now v) = recordOf v ∧
      appendOffset (reopen config now v) = appendOffset v := by
  have hend : v.index.rebuildAllocationStats.2.1 ≤ v.index.getAllocation.appendOffset := by
    refine maxEnd_le (maxEnd_le h.start fun e he => h.stop_le (mem_toList.mp he)) fun e he => ?_
    refine (h.packed.inside (false, e.1) (extentOf e.2) ?_).2
    rw [place_dead, mem_toList.mp he]
    rfl
  obtain ⟨s, hsync, hoffset⟩ := syncAllocation_keeps v.index v.info.size now (by
    rw [max_eq_left hend]
    exact max_eq_left h.start)
  have hindex : (reopen config now v).index = { v.index with allocation := s } := hsync
  have happ : appendOffset (reopen config now v) = appendOffset v := by
    unfold appendOffset
    rw [hindex]
    exact hoffset
  have hsize : appendOffset v ≤ v.info.size + volumeDataOffset := h.total ▸ h.inSize
  have hneedles : (reopen config now v).index.needles = v.index.needles := by rw [hindex]
  refine ⟨⟨h.keyed.syncAllocation _ _, ?_, ?_, happ ▸ h.start, happ ▸ hsize, happ ▸ hsize, rfl⟩,
    recordOf_congr hneedles fun id info hold => ?_, happ⟩
  · rw [hneedles]
    exact h.live
  · rw [hindex, happ]
    exact h.packed
  · exact SparseFile.range_setLen _ ((h.raw_le hold).trans hsize)

/-! ## Whole lives -/

section

variable [Env] {P : Volume → Request → Prop}

/-- A volume is served, and opened again any number of times. -/
inductive Life (P : Volume → Request → Prop) (v : Volume) : Volume → Prop
  | session {qs : List Request} {v' : Volume} (h : Run P v qs v') : Life P v v'
  | restart {w v' : Volume} {qs : List Request} (config : CoalescerConfig) (now : Int)
      (before : Life P v w) (h : Run P (reopen config now w) qs v') : Life P v v'

theorem Life.keeps {I : Volume → Prop}
    (hstep : ∀ v q r v', P v q → I v → Returns (perform q) v r v' → I v')
    (hreopen : ∀ config now v, I v → I (reopen config now v)) (h : Life P v v') (hI : I v) :
    I v' := by
  induction h with
  | session hrun => exact hrun.keeps hstep hI
  | restart config now _ hrun ih => exact hrun.keeps hstep (hreopen config now _ ih)

/-- A volume after any requests and restarts, with nothing failing during a compaction. -/
def Reachable (v : Volume) : Prop :=
  ∃ config id size file now, Life Untroubled (openVolume config id size .empty file now) v

theorem Reachable.placed (h : Reachable v) : Placed v := by
  obtain ⟨config, id, size, file, now, h⟩ := h
  exact h.keeps (fun _ _ _ _ hmeets hI hq => Placed.step hmeets hI hq)
    (fun config now _ hI => (placed_reopen hI config now).1) (placed_new config id size file now)

/-- A request that does not name a needle. Key 0 stands for the next free one; a dirty
entry under it takes its key when it is flushed. -/
def Spares (x : Nat) (v : Volume) : Request → Prop
  | .write fileKey _ _ => keyOf v fileKey ≠ x
  | .blob fileKey _ _ _ => fileKey ≠ x ∧
    (fileKey = 0 → v.coalescer.config.disabled = true → v.info.nextFileKey ≠ x)
  | .flush _ | .flushAll | .flushExpired | .compact => ZeroSafe v x
  | .delete y | .restore y | .lock y _ => y ≠ x
  | .gc => True

end

local instance : Env := calm

/-- One needle is written; the server starts again, and another one is written. -/
theorem served : ∃ v v', Reachable v ∧ Reachable v' ∧ v.coalescer.held 1 = none ∧
    readNeedle v 1 = .ok [5] ∧
    Life (fun v q => Untroubled v q ∧ Spares 1 v q) v v' := by
  have hruns : (perform (.write 1 0 [5]) (newVolume 1000)).any (fun a =>
      decide (a.2.coalescer.held 1 = none ∧ readNeedle a.2 1 = .ok [5] ∧
        (perform (.write 2 0 [6]) (reopen ⟨9, 4, 99, 99, true⟩ 7 a.2)).isSome)) = true := by
    decide +kernel
  obtain ⟨⟨r, v⟩, hv, hrest⟩ := exists_of_any hruns
  obtain ⟨hclean, hread, hsome⟩ := of_decide_eq_true hrest
  obtain ⟨⟨r', w⟩, hw⟩ := Option.isSome_iff_exists.mp hsome
  have hother : (2 : Nat) ≠ 1 := by decide
  have hfirst := Run.cons (q := .write 1 0 [5]) (P := Untroubled) trivial hv (.nil v)
  exact ⟨v, w, ⟨_, _, _, _, _, .session hfirst⟩, ⟨_, _, _, _, _, .restart _ _ (.session hfirst)
      (.cons (q := .write 2 0 [6]) trivial hw (.nil w))⟩, hclean, hread,
    .restart _ _ (.session (.nil v)) (.cons (q := .write 2 0 [6]) ⟨trivial, hother⟩ hw (.nil w))⟩

/-- **Records never overlap**: over all requests and restarts the ranges of the live and of
the deleted needles lie apart, behind the header and below the append offset, which is
inside the file and the same after a restart. -/
theorem records_lie_apart [Env] (h : Reachable v) :
    Packed (place v.index) volumeDataOffset (appendOffset v) ∧
      appendOffset v ≤ v.data.file.len ∧ appendOffset v ≤ v.info.size + volumeDataOffset ∧
      ∀ config now, appendOffset (reopen config now v) = appendOffset v := by
  have hplaced := h.placed
  refine ⟨hplaced.packed, hplaced.inFile, hplaced.total ▸ hplaced.inSize, fun config now => ?_⟩
  exact (placed_reopen hplaced config now).2.2

/-- After the restart and the second write. -/
theorem written_record_apart : ∃ v, Reachable v ∧
    Packed (place v.index) volumeDataOffset (appendOffset v) := by
  obtain ⟨_, v, -, hv, -⟩ := served
  exact ⟨v, hv, (records_lie_apart hv).1⟩

end PowerFS.V1.Restarts
