import PowerFS.Wal.Reapply

/-! # What a purge marker suppresses

`purge_write` leaves a marker so that a replay drops every older record of the needle,
whichever segments have been reclaimed by then. The marker is looked at by the records
that come after it. A replay goes through a log in LSN order, so an orphaned DATA or
GC_MIGRATE is met before the marker, and `apply_tomb_purge` buries tombstones only. -/
namespace PowerFS.Wal.PurgeMarkers
open Lib.FinTable Index Effects Cells Reapply

/-- No live entry of the needle is as old as the purge. -/
def Cleared (idx : WalIndex) (needleId purgeLsn : Nat) : Prop :=
  ∀ n, idx.needles.lookup needleId = some n → purgeLsn < n.versionLsn

/-- Every purge of the log clears its needle, at once and for the rest of the log. -/
def Suppressing (clock : Effect → Int64) (log : List Effect) : Prop :=
  ∀ older p k newer rest, log = older ++ .purge p k :: (newer ++ rest) →
    Cleared (applyLog clock (older ++ .purge p k :: newer) .empty) k p

variable {idx : WalIndex} {r : Effect} {k p : Nat}

/-- A live entry was there before, or has the version of the record. -/
theorem apply_live {now : Int64} {n : NeedleEntry}
    (h : (r.apply idx now).needles.lookup k = some n) :
    idx.needles.lookup k = some n ∨ n.versionLsn = r.lsn := by
  obtain ⟨size, idx', hs, hm⟩ := r.recorded idx now
  have hold : idx'.needles.lookup k = some n → idx.needles.lookup k = some n := hs.needles ▸ id
  have hput : ∀ e : NeedleEntry, e.versionLsn = r.lsn →
      (idx'.needles.insert e.needleId e).lookup k = some n →
      idx.needles.lookup k = some n ∨ n.versionLsn = r.lsn := by
    intro e hv hl
    rcases lookup_insert_some hl with ⟨-, rfl⟩ | hl
    · exact .inr hv
    · exact .inl (hold hl)
  generalize r.apply idx now = out at h hm
  cases hm with
  | nothing | bury => exact .inl (hold h)
  | add e _ _ hv => exact hput e hv h
  | replace _ e _ hv => exact hput e hv h
  | revive _ e _ hv => exact hput e hv h
  | entomb => exact .inl (hold (lookup_erase_some h))

theorem Cleared.step (h : Cleared idx k p) (now : Int64) (hlater : p < r.lsn) :
    Cleared (r.apply idx now) k p := by
  intro n hn
  rcases apply_live hn with hold | hnew
  · exact h n hold
  · rwa [hnew]

theorem Cleared.run (clock : Effect → Int64) {newer : List Effect} (hlater : ∀ r ∈ newer, p < r.lsn)
    (h : Cleared idx k p) :
    Cleared (applyLog clock newer idx) k p := by
  induction newer generalizing idx with
  | nil => exact h
  | cons r newer ih =>
    exact ih (fun q hq => hlater q (by simp [hq])) (h.step (clock r) (hlater r (by simp)))

/-! ## What the surviving records of a needle leave of it -/

def IsDelete : Effect → Prop
  | .delete .. => True
  | _ => False

/-- The record brings the needle to life behind `before`: a DATA does, and a GC_MIGRATE of
which nothing else has survived. -/
def Revives (before : List Effect) : Effect → Prop
  | .data .. => True
  | .migrate .. => ∀ q ∈ before, IsDelete q
  | _ => False

/-- Whatever brings the needle to life is followed by a DELETE. -/
def Ended (v : List Effect) : Prop :=
  ∀ before r after, v = before ++ r :: after → Revives before r → ∃ d ∈ after, IsDelete d

/-- The records of a needle since its last TOMB_PURGE. -/
def sincePurge (k : Nat) (log : List Effect) : List Effect :=
  log.foldl (fun v r => if needleId? r ≠ some k then v else match r with
    | .purge .. => []
    | _ => v ++ [r]) []

theorem ended_concat (v : List Effect) (x : Effect) :
    Ended (v ++ [x]) ↔ IsDelete x ∨ (Ended v ∧ ¬ Revives v x) := by
  constructor
  · intro h
    by_cases hx : IsDelete x
    · exact .inl hx
    refine .inr ⟨fun before r after heq hr => ?_, fun hr => ?_⟩
    · obtain ⟨d, hd, hdel⟩ := h before r (after ++ [x]) (by simp [heq]) hr
      rcases List.mem_append.mp hd with hd | hd
      · exact ⟨d, hd, hdel⟩
      · rw [List.mem_singleton.mp hd] at hdel
        exact absurd hdel hx
    · obtain ⟨d, hd, -⟩ := h v x [] rfl hr
      cases hd
  · intro h before r after heq hr
    rcases List.eq_nil_or_concat after with rfl | ⟨after, y, rfl⟩
    · obtain ⟨rfl, hxr⟩ := List.append_inj' heq rfl
      cases hxr
      rcases h with hx | ⟨-, hno⟩
      · cases x <;> first | exact absurd hx id | exact absurd hr id
      · exact absurd hr hno
    · rw [List.concat_eq_append, ← List.cons_append, ← List.append_assoc] at heq
      obtain ⟨rfl, hxy⟩ := List.append_inj' heq rfl
      cases hxy
      rcases h with hx | ⟨hend, -⟩
      · exact ⟨x, by simp, hx⟩
      · obtain ⟨d, hd, hdel⟩ := hend before r after rfl hr
        exact ⟨d, by simp [hd], hdel⟩

/-- The cell of a needle, told from the records since its last purge. -/
structure Follows (c : Cell) (v : List Effect) : Prop where
  gone : c.live = none ↔ Ended v
  absent : c.live = none ∧ c.tomb = none ↔ ∀ r ∈ v, IsDelete r

theorem follows_nil {c : Cell} (hl : c.live = none) (ht : c.tomb = none) : Follows c [] :=
  ⟨iff_of_true hl fun before r after heq => by simp at heq,
    iff_of_true ⟨hl, ht⟩ (List.forall_mem_nil _)⟩

/-- A record newer than all that the cell has seen. -/
theorem Follows.step {c : Cell} {v : List Effect} (h : Follows c v) (now : Int64)
    (hk : needleId? r = some k) (halone : c.live = none ∨ c.tomb = none)
    (hstale : c.stale r.lsn = false) (hsupp : c.suppressed r.lsn = false)
    (hpurge : ∀ lsn id, r ≠ .purge lsn id) : Follows (c.apply now r).1 (v ++ [r]) := by
  obtain ⟨hgone, habsent⟩ := h
  cases r with
  | data p id len =>
    have hlive : (c.apply now (.data p id len)).1.live ≠ none := by
      dsimp only [Effect.lsn] at hstale hsupp
      simp only [Cell.apply, hsupp, hstale, Bool.false_eq_true, if_false, Cell.install]
      split <;> simp
    exact ⟨iff_of_false hlive (by simp [ended_concat, IsDelete, Revives]),
      iff_of_false (fun h => hlive h.1) (by simp [IsDelete])⟩
  | delete lsn id at_ until_ =>
    dsimp only [Effect.lsn] at hstale
    simp only [Cell.apply, hstale, Bool.false_eq_true, if_false]
    cases hl : c.live with
    | none =>
      refine ⟨iff_of_true hl (by simp [ended_concat, IsDelete]), ?_⟩
      simp [habsent, IsDelete, or_imp, forall_and]
    | some e =>
      refine ⟨iff_of_true rfl (by simp [ended_concat, IsDelete]), iff_of_false (by simp) ?_⟩
      intro hall
      have := habsent.mpr fun q hq => hall q (by simp [hq])
      rw [hl] at this
      cases this.1
  | migrate p id expect len =>
    dsimp only [Effect.lsn] at hsupp
    have hconcat : Ended (v ++ [.migrate p id expect len]) ↔
        Ended v ∧ ¬ (c.live = none ∧ c.tomb = none) := by
      rw [habsent, ended_concat]
      simp only [IsDelete, Revives, false_or]
    have hnever : ¬ ∀ q ∈ v ++ [.migrate p id expect len], IsDelete q := by
      simp [or_imp, forall_and, IsDelete]
    simp only [Cell.apply, hsupp, Bool.false_eq_true, if_false]
    cases ht : c.tomb with
    | some tb =>
      have hl : c.live = none := halone.resolve_right (by simp [ht])
      exact ⟨iff_of_true hl (hconcat.mpr ⟨hgone.mp hl, by simp [ht]⟩),
        iff_of_false (by simp [ht]) hnever⟩
    | none =>
      have hlive : ∀ c' : Cell, c'.live ≠ none → (¬ Ended (v ++ [.migrate p id expect len])) →
          Follows c' (v ++ [.migrate p id expect len]) := fun c' hl hend =>
        ⟨iff_of_false hl hend, iff_of_false (fun h => hl h.1) hnever⟩
      cases hl : c.live with
      | none => exact hlive _ (by simp [Cell.install, ht]) (by simp [hconcat, hl, ht])
      | some cur =>
        have hend : ¬ Ended (v ++ [.migrate p id expect len]) := by
          rw [hconcat, ← hgone, hl]
          simp
        dsimp only
        split
        · exact hlive _ (by simp [Cell.install, ht]) hend
        · exact hlive c (by simp [hl]) hend
  | purge lsn id => exact absurd rfl (hpurge lsn id)
  | volume | anchor | nothing => cases hk

section

variable (clock : Effect → Int64)

/-- Every purge of needle `k` comes to an index in which the needle is not live. -/
def Gone (k : Nat) (log : List Effect) : Prop :=
  ∀ older p newer, log = older ++ .purge p k :: newer →
    (applyLog clock older .empty).needles.lookup k = none

theorem applyLog_follows {log : List Effect} (hlog : IsLog log) (k : Nat)
    (hgone : Gone clock k log) :
    Follows (cellOf (applyLog clock log .empty) k) (sincePurge k log) := by
  induction log using List.reverseRecOn with
  | nil => exact follows_nil rfl rfl
  | append_singleton done r ih =>
    have hpair := List.pairwise_append.mp hlog.increasing
    have hdone : IsLog done := ⟨fun q hq => hlog.kinds q (by simp [hq]), hpair.1⟩
    have hnew : ∀ q ∈ done, q.lsn < r.lsn := fun q hq => hpair.2.2 q hq r (by simp)
    have ih := ih hdone fun older p newer heq => hgone older p (newer ++ [r]) (by simp [heq])
    have hran := applyLog_ran clock hdone k
    obtain ⟨id, hid⟩ := hlog.kinds r (by simp)
    obtain ⟨hother, hown, -⟩ := apply_cell (applyLog clock done .empty) (clock r) hid
    rw [applyLog_append]
    change Follows (cellOf (r.apply (applyLog clock done .empty) (clock r)) k) _
    unfold sincePurge at ih ⊢
    rw [List.foldl_append, List.foldl_cons, List.foldl_nil]
    by_cases hk : id = k
    case neg => rwa [hother k (Ne.symm hk), if_pos (by simp [hid, hk])]
    subst hk
    rw [hown, if_neg (not_not.mpr hid)]
    by_cases hpurge : ∃ lsn n, r = .purge lsn n
    · obtain ⟨lsn, n, rfl⟩ := hpurge
      cases hid
      exact follows_nil (hgone done lsn [] rfl) rfl
    · have hcell := ih.step (clock r) hid hran.alone (hran.fresh hnew).1 (hran.fresh hnew).2
        fun lsn n heq => hpurge ⟨lsn, n, heq⟩
      cases r <;> first | exact hcell | exact absurd ⟨_, _, rfl⟩ hpurge

/-- A purge leaves the live entry alone, so it has to find none. -/
theorem suppressing_iff_gone {log : List Effect} (hlog : IsLog log) :
    Suppressing clock log ↔ ∀ k, Gone clock k log := by
  have hpurge : ∀ older p k, (applyLog clock (older ++ [.purge p k]) .empty).needles.lookup k =
      (applyLog clock older .empty).needles.lookup k := by
    intro older p k
    have hcell := apply_cell (applyLog clock older .empty) (clock (.purge p k))
      (r := .purge p k) (k := k) rfl
    rw [applyLog_append]
    exact congrArg Cell.live hcell.own
  constructor
  · intro hall k older p newer heq
    by_contra hlive
    obtain ⟨n, hn⟩ := Option.ne_none_iff_exists'.mp hlive
    have hafter := hall older p k [] newer heq n ((hpurge older p k).trans hn)
    -- the version is the LSN of an older record
    subst heq
    have hpair := List.pairwise_append.mp hlog.increasing
    have hdone : IsLog older := ⟨fun q hq => hlog.kinds q (by simp [hq]), hpair.1⟩
    obtain ⟨q, hq, hlsn⟩ := (applyLog_ran clock hdone k).liveSeen n hn
    have hbefore : q.lsn < p := hpair.2.2 q hq (.purge p k) (by simp)
    omega
  · intro hgone older p k newer rest heq
    have hstart : Cleared (applyLog clock (older ++ [.purge p k]) .empty) k p := by
      intro n hn
      rw [hpurge, hgone k older p _ heq] at hn
      cases hn
    subst heq
    have hpair := (List.pairwise_cons.mp (List.pairwise_append.mp hlog.increasing).2.1).1
    rw [List.append_cons, applyLog_append]
    exact hstart.run clock fun q hq => hpair q (by simp [hq])

/-- **A log whose LSNs increase has all its purges suppress the older records** exactly
when at each purge every surviving DATA of the needle since its previous purge, and every
GC_MIGRATE that has nothing but DELETEs before it there, is followed by a DELETE. -/
theorem suppressing_iff (log : List Effect) (hlog : IsLog log) :
    Suppressing clock log ↔ ∀ older p k newer, log = older ++ .purge p k :: newer →
      Ended (sincePurge k older) := by
  have hstart : ∀ {older rest}, log = older ++ rest → IsLog older := by
    intro older rest heq
    subst heq
    exact ⟨fun q hq => hlog.kinds q (by simp [hq]), (List.pairwise_append.mp hlog.increasing).1⟩
  rw [suppressing_iff_gone clock hlog]
  constructor
  · intro hgone older p k newer heq
    refine (applyLog_follows clock (hstart heq) k ?_).gone.mp (hgone k older p newer heq)
    exact fun before q after hb =>
      hgone k before q (after ++ .purge p k :: newer) (by simp [heq, hb])
  · intro hended k older p newer heq
    -- the purges before this one come to an index without the needle too
    induction hn : older.length using Nat.strong_induction_on generalizing older p newer with
    | _ n ih =>
      refine (applyLog_follows clock (hstart heq) k ?_).gone.mpr (hended older p k newer heq)
      intro before q after hb
      refine ih before.length ?_ before q (after ++ .purge p k :: newer) (by simp [heq, hb]) rfl
      rw [← hn, hb]
      simp

end

/-- The DELETE between them was in a reclaimed segment. -/
def orphaned : List Effect := [.data ⟨0, 4096, 0, 1⟩ 7 10, .purge 3 7]

theorem orphaned_not_suppressing :
    IsLog orphaned ∧ orphaned.Sublist rewritten ∧ ¬ Suppressing (fun _ => 0) orphaned := by
  refine ⟨⟨?_, by simp [orphaned, Effect.lsn]⟩, by simp [orphaned, rewritten], fun h => ?_⟩
  · intro r hr
    fin_cases hr <;> exact ⟨7, rfl⟩
  · have := h [.data ⟨0, 4096, 0, 1⟩ 7 10] 3 7 [] [] rfl _ rfl
    contradiction

theorem rewritten_suppressing : Suppressing (fun _ => 0) rewritten := by
  refine (suppressing_iff (fun _ => 0) rewritten ⟨?_, by simp [rewritten, Effect.lsn]⟩).mpr ?_
  · intro r hr
    fin_cases hr <;> exact ⟨7, rfl⟩
  · intro older p k newer heq
    match older, heq with
    | [_, _], heq =>
      cases heq
      refine (ended_concat [.data ⟨0, 4096, 0, 1⟩ 7 10] _).mpr (.inl trivial)
    | [], heq => cases heq
    | [_], heq => cases heq
    | [_, _, _], heq => cases heq
    | _ :: _ :: _ :: _ :: _, heq => simp [rewritten] at heq

end PowerFS.Wal.PurgeMarkers
