import PowerFS.Wal.IndexAlike
import PowerFS.Wal.Cells
import PowerFS.Lib.StepRuns

/-! # Purging expired tombstones

Case C of `run_gc_cycle` notes needle and DELETE of every tombstone past its retention and
then purges pair by pair, while other calls go on. `apply_tomb_purge` reads the DELETE of
the pair and makes no use of it: it buries whatever tombstone the needle has by then. -/
namespace PowerFS.Wal.ExpiredPurges
open Lib.FinTable Lib.StepRuns Index IndexAccounting IndexAlike Effects Cells

/-- The index, and the pairs that are still to be purged. -/
structure Cycle where
  index : WalIndex
  expired : List (Nat × Nat)

def snapshot (o : HashOrder) (idx : WalIndex) (now : Int64) : Cycle :=
  ⟨idx, (idx.expiredTombstones o now).map fun tb => (tb.needleId, tb.versionLsn)⟩

/-- Another call applies its record, whichever it is, or the next pair is purged. -/
inductive Event where
  | record (r : Effect) (now : Int64)
  | purgeWrite (lsn : Nat)

def step (c : Cycle) : Event → Cycle
  | .record r now => { c with index := r.apply c.index now }
  | .purgeWrite lsn => match c.expired with
    | [] => c
    | (needleId, _) :: rest => ⟨c.index.applyTombPurgeRecord lsn needleId, rest⟩

/-- A purge removes only the tombstone of the DELETE in its pair, which had expired when the
snapshot was taken. -/
def Keeps (now : Int64) (c : Cycle) : Event → Prop
  | .record .. => True
  | .purgeWrite lsn => ∀ k tb, c.index.tombstones.lookup k = some tb →
      (step c (.purgeWrite lsn)).index.tombstones.lookup k = some tb ∨
        c.expired.head? = some (k, tb.versionLsn) ∧ tb.retentionUntil ≤ now

/-- No needle that is still to be purged is deleted again. -/
def Undisturbed (c : Cycle) : Event → Prop
  | .record (.delete _ needleId _ _) _ => ∀ d, (needleId, d) ∉ c.expired
  | _ => True

variable {idx : WalIndex} {now : Int64} {r : Effect} {k : Nat} {tb : TombstoneEntry} {c : Cycle}

/-- Only a DELETE makes a tombstone. -/
theorem tombstone_before (h : (r.apply idx now).tombstones.lookup k = some tb) :
    idx.tombstones.lookup k = some tb ∨ ∃ lsn t u, r = .delete lsn k t u := by
  cases hr : needleId? r with
  | none =>
    cases r with
    | volume | nothing => exact .inl h
    | anchor =>
      rw [Effect.apply, WalIndex.applyCkptAnchor, apply_ite WalIndex.tombstones, ite_self] at h
      exact .inl h
    | data | delete | migrate | purge => cases hr
  | some id =>
    have hacts := apply_cell idx now hr
    by_cases hk : k = id
    · subst hk
      have htomb : ((cellOf idx k).apply now r).1.tomb = some tb :=
        (congrArg Cell.tomb hacts.own).symm.trans h
      have hold : (cellOf idx k).tomb = idx.tombstones.lookup k := rfl
      cases r with
      | delete => cases hr; exact .inr ⟨_, _, _, rfl⟩
      | purge => cases htomb
      | volume | anchor | nothing => cases hr
      | data | migrate => grind [Cell.apply, Cell.install]
    · exact .inl ((congrArg Cell.tomb (hacts.other k hk)).symm.trans h)

/-- Whatever tombstone a pending needle has is the one of the snapshot. -/
def Due (now : Int64) (c : Cycle) : Prop :=
  ∀ k d tb, (k, d) ∈ c.expired → c.index.tombstones.lookup k = some tb →
    tb.versionLsn = d ∧ tb.retentionUntil ≤ now

theorem due_snapshot (o : HashOrder) (h : Consistent idx) : Due now (snapshot o idx now) := by
  intro k d tb hmem htb
  obtain ⟨tb', hin, heq⟩ := List.mem_map.mp hmem
  obtain ⟨hvalue, hdue⟩ := List.mem_filter.mp hin
  obtain ⟨k', hk'⟩ := mem_values o hvalue
  obtain ⟨rfl, rfl⟩ := Prod.mk.inj heq
  rw [h.tombstoneKey k' tb' hk'] at htb
  cases hk'.symm.trans htb
  exact ⟨rfl, of_decide_eq_true hdue⟩

theorem Due.step (h : Due now c) {e : Event} (he : Undisturbed c e) :
    Due now (step c e) ∧ Keeps now c e := by
  cases e with
  | record r t =>
    refine ⟨fun k d tb hmem htb => ?_, trivial⟩
    rcases tombstone_before htb with hold | ⟨lsn, a, b, rfl⟩
    · exact h k d tb hmem hold
    · exact absurd hmem (he d)
  | purgeWrite lsn =>
    obtain ⟨idx, _ | ⟨⟨n, d⟩, rest⟩⟩ := c
    · exact ⟨h, fun k tb htb => .inl htb⟩
    refine ⟨fun k d' tb hmem htb => ?_, fun k tb htb => ?_⟩
    · have hold := @tombstone_before idx 0 (.purge lsn n) k tb htb
      exact h k d' tb (List.mem_cons_of_mem _ hmem) (hold.resolve_right (by simp))
    · by_cases hk : k = n
      · subst hk
        obtain ⟨rfl, hdue⟩ := h k d tb (List.mem_cons_self ..) htb
        exact .inr ⟨rfl, hdue⟩
      · have hcell := (applyTombPurge_cell idx lsn n 0).other k hk
        exact .inl ((congrArg Cell.tomb hcell).trans htb)

/-- **A cycle purges only what had expired at its snapshot**, in every interleaving in which
no needle that is still to be purged is deleted again. -/
theorem only_expired_purged (o : HashOrder) (now : Int64) (h : Consistent idx)
    (events : List Event) (hrun : Along step Undisturbed (snapshot o idx now) events) :
    Along step (Keeps now) (snapshot o idx now) events :=
  hrun.each (fun _ _ hdue he => hdue.step he) (due_snapshot o h)

/-- Needle 7 is written, and deleted until 200. -/
def deleted : WalIndex :=
  (Effect.delete 2 7 100 200).apply ((Effect.data ⟨0, 4096, 0, 1⟩ 7 10).apply .empty 0) 0

/-- Needle 8 is written too, and deleted while the tombstone of needle 7 waits to be purged:
its own tombstone stays. -/
theorem neighbour_not_purged :
    let idx := (Effect.data ⟨0, 4200, 0, 3⟩ 8 10).apply deleted 0
    let events : List Event := [.record (.delete 4 8 250 350) 250, .purgeWrite 5]
    let last := (events.foldl step (snapshot .byKey idx 250)).index
    Along step (Keeps 250) (snapshot .byKey idx 250) events ∧
      last.tombstones.lookup 7 = none ∧ (last.tombstones.lookup 8).isSome := by
  intro idx events last
  have hconsistent : Consistent idx := Effect.apply_consistent _ (Effect.apply_consistent _
    (Effect.apply_consistent _ empty_consistent _) _) _
  have hexpired : (snapshot .byKey idx 250).expired = [(7, 2)] := by decide +kernel
  have hother : Undisturbed (snapshot .byKey idx 250) (.record (.delete 4 8 250 350) 250) := by
    intro d
    rw [hexpired]
    simp
  exact ⟨only_expired_purged .byKey 250 hconsistent events ⟨hother, trivial, trivial⟩,
    by decide +kernel, by decide +kernel⟩

/-- Needle 7 is written and deleted again, until 350, before its old tombstone is purged. -/
theorem fresh_tombstone_purged :
    let c := [.record (.data ⟨0, 4200, 0, 3⟩ 7 10) 250, .record (.delete 4 7 250 350) 250].foldl
      step (snapshot .byKey deleted 250)
    c.expired = [(7, 2)] ∧ (c.index.tombstones.lookup 7).map (fun tb =>
      (tb.versionLsn, tb.retentionUntil)) = some (4, 350) ∧
      (step c (.purgeWrite 5)).index.tombstones.lookup 7 = none := by
  decide +kernel

end PowerFS.Wal.ExpiredPurges
