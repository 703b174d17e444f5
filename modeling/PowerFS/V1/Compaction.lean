import PowerFS.V1.Requests

/-! # How a compaction runs

Compaction flushes the coalescer, lists the live needles in the order in which they lie
in the file, and moves each of them down to where the one before it ends: it copies the
record and then points the index to the copy. At the end the statistics get the new end
and the file is cut off there. -/
namespace PowerFS.V1.Compaction
open Lib.ByteString Lib.FinTable Lib.Calls Lib.SparseFiles Needle Metadata Coalescer State
  Operations Outcomes Requests

variable [Env] {v v' : Volume}

/-- The entries that were taken are written one after another. -/
inductive Drained : List (Nat × DirtyEntry) → Volume → List Attempt → Volume → Prop
  | nil (v : Volume) : Drained [] v [] v
  | cons {id : Nat} {e : DirtyEntry} {es : List (Nat × DirtyEntry)} {v v₁ v' : Volume}
      {log : List Attempt} {r : Result Unit}
      (h : Returns (flushCoalescerEntry id e.merged e.isNewNeedle) v r v₁)
      (rest : Drained es v₁ log v') :
      Drained ((id, e) :: es) v (⟨id, e.merged, r⟩ :: log) v'

theorem Drained.calls_le {es : List (Nat × DirtyEntry)} {log : List Attempt}
    (h : Drained es v log v') : v.calls ≤ v'.calls := by
  induction h with
  | nil => exact le_rfl
  | cons hflush _ ih => exact (flushCoalescerEntry_returns hflush).calls_le.trans ih

variable {r : Result (List Attempt)} {newOffset : Nat}

theorem flushTaken_returns {es : List (Nat × DirtyEntry)} (h : Returns (flushTaken es) v r v') :
    ∃ log, r = .ok log ∧ Drained es v log v' := by
  induction es generalizing v v' r with
  | nil =>
    obtain ⟨rfl, rfl⟩ := h.pure
    exact ⟨[], rfl, .nil _⟩
  | cons entry es ih =>
    obtain ⟨id, e⟩ := entry
    obtain ⟨r₀, v₁, hflush, h⟩ := h.attempt_bind
    obtain ⟨r₁, v₂, hrest, h⟩ := h.parts
    obtain ⟨log, rfl, hlog⟩ := ih hrest
    obtain ⟨rfl, rfl⟩ := h.ok.pure
    exact ⟨_, rfl, .cons hflush hlog⟩

/-- The coalescer is empty while its entries are written. -/
def drainedFrom (v : Volume) : Volume :=
  v.setCoalescer (v.coalescer.takeAll Env.order).1

theorem compactFlush_returns (h : Returns compactFlush v r v') :
    ∃ log, r = .ok log ∧
      Drained (Env.order.entries v.coalescer.entries) (drainedFrom v) log v' :=
  flushTaken_returns h.get_bind.modify_bind

theorem scanActive_returns {r : Result (List NeedleInfo)} (h : Returns scanActive v r v') :
    ∃ active, r = .ok active ∧ v' = v.ticks 1 ∧ (active = activeNeedles v.index.listNeedles ∨
      (fault v.calls ≠ none ∧ active = [])) := by
  obtain ⟨r₀, v₁, hiter, h⟩ := h.parts
  obtain ⟨r₁, v₂, hread, hiter⟩ := hiter.attempt_bind
  obtain ⟨rfl, ⟨_, rfl⟩ | ⟨hq, rfl⟩⟩ := dbRead_returns hread
  · obtain ⟨rfl, rfl⟩ := hiter.pure
    obtain ⟨rfl, rfl⟩ := h.ok.pure
    exact ⟨_, rfl, rfl, .inl rfl⟩
  · obtain ⟨rfl, rfl⟩ := hiter.pure
    obtain ⟨rfl, rfl⟩ := h.ok.pure
    exact ⟨_, rfl, rfl, .inr ⟨hq, rfl⟩⟩

/-! ## Moving the needles -/

/-- The record of a needle as the file has it. -/
def rawOf (v : Volume) (info : NeedleInfo) : Bytes := v.data.file.range info.offset (readSize info)

/-- The copy of a record is made, or a part of it. -/
theorem copyNeedle_returns {info : NeedleInfo} {r : Result Unit}
    (h : Returns (copyNeedle info newOffset) v r v') :
    (fault v.calls = none ∧ fault (v.calls + 1) = none ∧ r = .ok () ∧
      v' = (v.ticks 2).putBytes newOffset (rawOf v info)) ∨
    (∃ e n m, ¬ (info.offset + readSize info ≤ v.data.totalSize ∧
        newOffset + readSize info ≤ v.data.totalSize ∧
        info.offset + readSize info ≤ v.data.file.len ∧ ¬ CallFails v (v.ticks n)) ∧
      (m = 0 ∨ fault (v.calls + 1) = some m) ∧ r = .error e ∧
        v' = (v.ticks n).putBytes newOffset ((rawOf v info).take m)) := by
  obtain ⟨r₀, v₁, hread, h⟩ := h.parts
  rcases backendRead_returns hread with
    ⟨raw, _, hquiet, hraw, rfl, rfl⟩ | ⟨hno, e, n, hn, rfl, rfl⟩
  case inr =>
    obtain ⟨rfl, rfl⟩ := h
    refine .inr ⟨e, n, 0, fun ⟨hfits, _, hlen, hquiet⟩ => hno ⟨hfits, ?_, hlen⟩, .inl rfl, rfl, ?_⟩
    · rw [hn hfits] at hquiet
      exact not_not.mp fun hfault => hquiet ⟨_, le_rfl, Nat.lt_succ_self _, hfault⟩
    · rw [List.take_zero, putBytes_nil]
  obtain rfl : raw = rawOf v info := SparseFile.eq_range_of_read hraw
  rcases backendWrite_returns h.ok with
    ⟨_, hquiet', rfl, rfl⟩ | ⟨hno, e, n, m, hn, hm, rfl, rfl⟩
  · exact .inl ⟨hquiet, hquiet', rfl, by rw [ticks_ticks]⟩
  have hsize : (rawOf v info).length = readSize info := SparseFile.range_length _ _ _
  rw [hsize] at hno hn
  refine .inr ⟨e, 1 + n, m, fun ⟨_, hfits, _, hquiet⟩ => hno ⟨hfits, ?_⟩, hm, rfl,
    by rw [ticks_ticks]⟩
  rw [hn hfits] at hquiet
  exact not_not.mp fun hfault => hquiet ⟨_, Nat.le_succ _, Nat.lt_succ_self _, hfault⟩

/-- The index points to the copy. -/
def relocated (v : Volume) (info : NeedleInfo) (newOffset : Nat) : Volume :=
  v.setIndex (v.index.putNeedle { info with offset := newOffset })

/-- The loop over the needles. A failed write to the index is not noticed; a failed copy
ends the compaction. -/
inductive Moved : List NeedleInfo → Nat → Volume → Result Nat →
    Volume → Prop
  | done (newOffset : Nat) (v : Volume) : Moved [] newOffset v (.ok newOffset) v
  | stays {info : NeedleInfo} {todo : List NeedleInfo} {newOffset : Nat} {v v' : Volume}
      {r : Result Nat} (hstay : info.offset = newOffset)
      (rest : Moved todo (newOffset + info.size) v r v') :
      Moved (info :: todo) newOffset v r v'
  | moves {info : NeedleInfo} {todo : List NeedleInfo} {newOffset : Nat} {v v₁ v' : Volume}
      {r : Result Nat} (hmove : info.offset ≠ newOffset)
      (hcopy : fault v.calls = none ∧ fault (v.calls + 1) = none)
      (hput : (fault (v.calls + 2) = none ∧
          v₁ = relocated ((v.ticks 3).putBytes newOffset (rawOf v info)) info newOffset) ∨
        (fault (v.calls + 2) ≠ none ∧
          v₁ = (v.ticks 3).putBytes newOffset (rawOf v info)))
      (rest : Moved todo (newOffset + info.size) v₁ r v') :
      Moved (info :: todo) newOffset v r v'
  | broken {info : NeedleInfo} {todo : List NeedleInfo} {newOffset n m : Nat} {v : Volume}
      {e : PowerFsError} (hmove : info.offset ≠ newOffset)
      (hpart : m = 0 ∨ fault (v.calls + 1) = some m)
      (hbad : ¬ (info.offset + readSize info ≤ v.data.totalSize ∧
        newOffset + readSize info ≤ v.data.totalSize ∧
        info.offset + readSize info ≤ v.data.file.len ∧ ¬ CallFails v (v.ticks n))) :
      Moved (info :: todo) newOffset v (.error e)
        ((v.ticks n).putBytes newOffset ((rawOf v info).take m))

theorem Moved.calls_le {todo : List NeedleInfo} {r : Result Nat}
    (h : Moved todo newOffset v r v') : v.calls ≤ v'.calls := by
  induction h with
  | done => exact le_rfl
  | stays _ _ ih => exact ih
  | moves _ _ hput _ ih => rcases hput with ⟨_, rfl⟩ | ⟨_, rfl⟩ <;> exact Nat.le_of_add_right_le ih
  | @broken _ _ _ n => exact Nat.le_add_right _ n

theorem moveNeedles_returns {todo : List NeedleInfo} {updated : Nat} {r : Result (Nat × Nat)}
    (h : Returns (moveNeedles todo newOffset updated) v r v') :
    Moved todo newOffset v (r.map Prod.fst) v' := by
  induction todo generalizing newOffset updated v with
  | nil =>
    obtain ⟨rfl, rfl⟩ := h.pure
    exact .done newOffset v'
  | cons info todo ih =>
    unfold moveNeedles at h
    split at h
    case isTrue hstay => exact .stays hstay (ih h)
    case isFalse hmove =>
      obtain ⟨r₀, v₁, hcopy, h⟩ := h.parts
      rcases copyNeedle_returns hcopy with
        ⟨hread, hwrite, rfl, rfl⟩ | ⟨e, n, m, hbad, hpart, rfl, rfl⟩
      case inr =>
        obtain ⟨rfl, rfl⟩ := h
        exact .broken hmove hpart hbad
      obtain ⟨r₁, v₂, hput, h⟩ := h.ok.parts
      obtain ⟨rfl, hindex⟩ := indexInsert_returns hput
      refine .moves hmove ⟨hread, hwrite⟩ ?_ (ih h)
      rcases hindex with ⟨hq, rfl⟩ | ⟨hq, rfl⟩
      · exact .inl ⟨hq, rfl⟩
      · exact .inr ⟨hq, rfl⟩

/-! ## The end -/

/-- The new end is in the statistics and nothing is restorable any more. -/
def cleanedState (v : Volume) (newOffset : Nat) (now : Int) : Volume :=
  let stats := v.index.getAllocation.afterCompact newOffset v.info.size now
  (v.setIndex (v.index.cleaned stats)).setUsed stats.usedBytes

theorem compactCleanup_returns {size : Nat} {r : Result AllocationStats}
    (h : Returns (compactCleanup newOffset size) v r v') :
    (∃ now, r = .ok (v.index.getAllocation.afterCompact newOffset size now) ∧
      v' = (v.ticks 4).setIndex
        (v.index.cleaned (v.index.getAllocation.afterCompact newOffset size now))) ∨
    (CallFails v v' ∧ ∃ e n, r = .error e ∧ v' = v.ticks n) := by
  have hlater : ∀ k, v.calls ≤ v.calls + k := Nat.le_add_right _
  rcases dbRead_bind h with ⟨_, h⟩ | ⟨hq, rfl, rfl⟩
  case inr => exact .inr ⟨⟨_, hlater 0, Nat.lt_succ_self _, hq⟩, _, 1, rfl, rfl⟩
  rcases dbRead_bind h with ⟨_, h⟩ | ⟨hq, rfl, rfl⟩
  case inr => exact .inr ⟨⟨_, hlater 1, Nat.lt_succ_self _, hq⟩, _, 2, rfl, rfl⟩
  rcases dbWrite_bind (utcNow_bind h) with ⟨_, h⟩ | ⟨hq, rfl, rfl⟩
  case inr => exact .inr ⟨⟨_, hlater 3, Nat.lt_succ_self _, hq⟩, _, 4, rfl, rfl⟩
  obtain ⟨rfl, rfl⟩ := h.pure
  exact .inl ⟨_, rfl, rfl⟩

theorem settleCompact_returns {r : Result Nat} (h : Returns (settleCompact newOffset) v r v') :
    (∃ now, fault v.calls = none ∧ (∃ n, r = .ok n) ∧
      v' = cleanedState (v.ticks 5) newOffset now) ∨
    (CallFails v v' ∧ ∃ e n, r = .error e ∧ v' = v.ticks n) := by
  rcases dbRead_bind h with ⟨hquiet, h⟩ | ⟨hq, rfl, rfl⟩
  case inr => exact .inr ⟨⟨_, le_rfl, Nat.lt_succ_self _, hq⟩, _, 1, rfl, rfl⟩
  obtain ⟨r₀, v₂, hclean, h⟩ := h.get_bind.parts
  rcases compactCleanup_returns hclean with ⟨now, rfl, rfl⟩ | ⟨hfail, e, n, rfl, rfl⟩
  · obtain ⟨rfl, rfl⟩ := h.ok.modify_bind.pure
    exact .inl ⟨now, hquiet, ⟨_, rfl⟩, rfl⟩
  obtain ⟨rfl, rfl⟩ := h
  exact .inr ⟨hfail.within (Nat.le_succ _) le_rfl, e, 1 + n, rfl, ticks_ticks v 1 n⟩

/-- The file ends at `n`. -/
def cutAt (v : Volume) (n : Nat) : Volume :=
  { v with data := { v.data with file := v.data.file.setLen n } }

theorem truncateVolume_returns {newSize : Nat} {r : Result Unit}
    (h : Returns (truncateVolume newSize) v r v') :
    (r = .ok () ∧ v' = cutAt (v.ticks 1) newSize) ∨
    (¬ (newSize ≤ v.data.totalSize ∧ ¬ CallFails v v') ∧
      ∃ e n, r = .error e ∧ v' = v.ticks n) := by
  unfold Returns truncateVolume at h
  split at h
  case isTrue hlt =>
    cases h
    exact .inr ⟨fun hin => absurd hin.1 (by omega), _, 0, rfl, rfl⟩
  case isFalse hle =>
    split at h
    case h_1 n hn =>
      cases h
      refine .inr ⟨fun hin => hin.2 ⟨_, le_rfl, Nat.lt_succ_self _, ?_⟩, _, 1, rfl, rfl⟩
      rw [hn]
      exact Option.some_ne_none _
    case h_2 hn =>
      cases h
      exact .inl ⟨rfl, rfl⟩

/-- The end of a compaction is reached if none of its calls fails. -/
theorem compactEnd_returns {updated : Nat} {r : Result (Nat × Nat)}
    (h : Returns (settleCompact newOffset >>= fun reclaimed =>
      truncateVolume newOffset >>= fun _ => pure (reclaimed, updated)) v r v') :
    v.calls ≤ v'.calls ∧ (newOffset ≤ v.data.totalSize → ¬ CallFails v v' →
      ∃ now res, r = .ok res ∧
        v' = cutAt ((cleanedState (v.ticks 5) newOffset now).ticks 1) newOffset) := by
  obtain ⟨r₀, v₁, hsettle, h⟩ := h.parts
  rcases settleCompact_returns hsettle with ⟨now, _, ⟨_, rfl⟩, rfl⟩ | ⟨hfail, e, n, rfl, rfl⟩
  case inr =>
    obtain ⟨rfl, rfl⟩ := h
    exact ⟨Nat.le_add_right _ n, fun _ hq => absurd hfail hq⟩
  obtain ⟨r₁, v₂, hcut, h⟩ := h.ok.parts
  rcases truncateVolume_returns hcut with ⟨rfl, rfl⟩ | ⟨hbad, e, n, rfl, rfl⟩
  case inr =>
    obtain ⟨rfl, rfl⟩ := h
    refine ⟨(Nat.le_add_right _ 5).trans (Nat.le_add_right _ n), fun hroom hq => absurd ?_ hbad⟩
    exact ⟨hroom, fun hfail => hq (hfail.within (Nat.le_add_right _ 5) le_rfl)⟩
  obtain ⟨rfl, rfl⟩ := h.ok.pure
  exact ⟨Nat.le_add_right _ 6, fun _ _ => ⟨now, _, rfl, rfl⟩⟩

theorem compact_returns {r : Result (Nat × Nat)} (h : Returns compact v r v') :
    (v.compacting = true ∧ v' = v) ∨
    (v.compacting = false ∧ ∃ v₁, Returns compactInner (v.setCompacting true) r v₁ ∧
      v' = v₁.setCompacting false) := by
  replace h := h.get_bind
  split at h
  case isTrue hc =>
    obtain ⟨_, rfl⟩ := h.fail
    exact .inl ⟨hc, rfl⟩
  case isFalse hc =>
    obtain ⟨v₁, hinner, rfl⟩ := h.modify_bind.ensuring
    exact .inr ⟨Bool.eq_false_iff.mpr hc, v₁, hinner, rfl⟩

end PowerFS.V1.Compaction
