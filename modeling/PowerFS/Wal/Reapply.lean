import PowerFS.Wal.Cells

/-! # Applying a log twice

This module runs a log over a cell twice and decides for which logs the second pass
changes nothing.

Most records are guarded by a version: a second application finds the version already
reached. Two are not. A TOMB_PURGE buries whatever tombstone it finds, also one of a
later generation, and a GC_MIGRATE compares for equality with the version it expects. -/
namespace PowerFS.Wal.Reapply
open Index IndexAccounting Effects Cells List Cell

/-! ## The first pass

In a log with increasing LSNs no record of a first pass is stale. What the pass leaves
in a cell bounds the records of the id that are behind it. -/

/-- The cell of id `k` after the records `done`. -/
structure Ran (k : Nat) (done : List Effect) (c : Cell) : Prop where
  alone : c.live = none ∨ c.tomb = none
  liveSeen : ∀ n, c.live = some n → ∃ r ∈ done, r.lsn = n.versionLsn
  tombSeen : ∀ t, c.tomb = some t → ∃ r ∈ done, r.lsn = t.versionLsn
  markSeen : ∀ m, c.mark = some m → ∃ r ∈ done, r.lsn = m
  liveData : ∀ n, c.live = some n → ∀ p len, .data p k len ∈ done → p.lsn ≤ n.versionLsn
  liveDelete : ∀ n, c.live = some n → ∀ l a b, .delete l k a b ∈ done → l ≤ n.versionLsn
  tombData : ∀ t, c.tomb = some t → ∀ p len, .data p k len ∈ done → p.lsn ≤ t.versionLsn
  markData : ∀ m, c.mark = some m → ∀ p len, .data p k len ∈ done → p.lsn ≤ m
  markPurge : ∀ m, c.mark = some m → ∀ l, .purge l k ∈ done → l ≤ m
  goneData : c.live = none → c.tomb = none → ∀ p len, .data p k len ∈ done →
    ∃ m, c.mark = some m ∧ p.lsn ≤ m
  goneMigrate : c.live = none → c.tomb = none → ∀ p v len, .migrate p k v len ∈ done →
    ∃ m, c.mark = some m ∧ p.lsn ≤ m

theorem Ran.empty (k : Nat) : Ran k [] Cell.empty := by
  constructor <;> simp [Cell.empty]

variable {lsn len l v : Nat} {p : WalIndex.Place} {a b : Int64} {idx : WalIndex}

section FirstPass

variable {k : Nat} {done : List Effect} {c : Cell}

theorem Ran.fresh (h : Ran k done c) (hnew : ∀ q ∈ done, q.lsn < lsn) :
    c.stale lsn = false ∧ c.suppressed lsn = false := by
  have hold : ∀ {m}, (∃ q ∈ done, q.lsn = m) → decide (lsn ≤ m) = false := by
    rintro _ ⟨q, hq, rfl⟩
    simpa using hnew q hq
  unfold stale suppressed
  refine ⟨Bool.or_eq_false_iff.mpr ⟨?_, ?_⟩, ?_⟩
  · cases hl : c.live with
    | none => rfl
    | some n => exact hold (h.liveSeen n hl)
  · cases ht : c.tomb with
    | none => rfl
    | some t => exact hold (h.tombSeen t ht)
  · cases hm : c.mark with
    | none => rfl
    | some m => exact hold (h.markSeen m hm)

variable {r : Effect}

theorem mem_done {q : Effect} (hin : q ∈ done ++ [r]) (hne : q ≠ r) : q ∈ done := by
  rcases mem_append.mp hin with hin | hin
  · exact hin
  · exact absurd (mem_singleton.mp hin) hne

theorem seen_more (h : ∃ q ∈ done, q.lsn = lsn) : ∃ q ∈ done ++ [r], q.lsn = lsn := by
  obtain ⟨q, hq, hl⟩ := h
  exact ⟨q, mem_append_left _ hq, hl⟩

/-- A record that leaves the cell alone. -/
theorem Ran.kept (h : Ran k done c) (hdata : ∀ p len, .data p k len ≠ r)
    (hpurge : ∀ l, .purge l k ≠ r) (hdelete : ∀ l a b, .delete l k a b = r → c.live = none)
    (hmigrate : ∀ p v len, .migrate p k v len = r → c.live = none → c.tomb ≠ none) :
    Ran k (done ++ [r]) c where
  alone := h.alone
  liveSeen n hn := seen_more (h.liveSeen n hn)
  tombSeen t ht := seen_more (h.tombSeen t ht)
  markSeen m hm := seen_more (h.markSeen m hm)
  liveData n hn p len hin := h.liveData n hn p len (mem_done hin (hdata p len))
  liveDelete n hn l a b hin := by
    refine h.liveDelete n hn l a b (mem_done hin fun heq => ?_)
    rw [hdelete l a b heq] at hn
    cases hn
  tombData t ht p len hin := h.tombData t ht p len (mem_done hin (hdata p len))
  markData m hm p len hin := h.markData m hm p len (mem_done hin (hdata p len))
  markPurge m hm l hin := h.markPurge m hm l (mem_done hin (hpurge l))
  goneData hl ht p len hin := h.goneData hl ht p len (mem_done hin (hdata p len))
  goneMigrate hl ht p v len hin :=
    h.goneMigrate hl ht p v len (mem_done hin fun heq => hmigrate p v len heq hl ht)

/-- Everything up to a record is bounded by its LSN. -/
theorem le_last (hnew : ∀ q ∈ done, q.lsn < r.lsn) {q : Effect} (hq : q ∈ done ++ [r]) :
    q.lsn ≤ r.lsn := by
  rcases mem_append.mp hq with hin | hin
  · exact Nat.le_of_lt (hnew q hin)
  · rw [mem_singleton.mp hin]

/-- A new live version is newer than all that came before. -/
theorem Ran.installed (hnew : ∀ q ∈ done, q.lsn < r.lsn) {entry : NeedleEntry}
    (hv : entry.versionLsn = r.lsn) {mark : Option Nat}
    (hseen : ∀ m, mark = some m → ∃ q ∈ done, q.lsn = m)
    (hdata : ∀ m, mark = some m → ∀ p len, .data p k len ∈ done ++ [r] → p.lsn ≤ m)
    (hpurge : ∀ m, mark = some m → ∀ l, .purge l k ∈ done ++ [r] → l ≤ m) :
    Ran k (done ++ [r]) ⟨some entry, none, mark⟩ where
  alone := Or.inr rfl
  liveSeen n hn := by
    cases hn
    exact ⟨r, by simp, hv.symm⟩
  tombSeen t ht := by cases ht
  markSeen m hm := seen_more (hseen m hm)
  liveData n hn p len hin := by
    cases hn
    exact hv ▸ le_last hnew hin
  liveDelete n hn l a b hin := by
    cases hn
    exact hv ▸ le_last hnew hin
  tombData t ht := by cases ht
  markData := hdata
  markPurge := hpurge
  goneData hl := by cases hl
  goneMigrate hl := by cases hl

section

variable (h : Ran k done c) (now : Int64)
include h

theorem Ran.data (hnew : ∀ q ∈ done, q.lsn < p.lsn) :
    (c.apply now (.data p k len)).1.mark = none ∧
    Ran k (done ++ [.data p k len]) (c.apply now (.data p k len)).1 := by
  obtain ⟨hstale, hsupp⟩ := h.fresh hnew
  have heq : (c.apply now (.data p k len)).1 =
      ⟨some (WalIndex.entryAt p k len now 0), none, none⟩ := by
    unfold apply install
    dsimp only
    rw [hstale, hsupp]
    cases c.tomb with
    | none | some => rfl
  rw [heq]
  exact ⟨rfl, Ran.installed (r := .data p k len) hnew rfl (fun m hm => by cases hm)
    (fun m hm => by cases hm) (fun m hm => by cases hm)⟩

theorem Ran.delete (hnew : ∀ q ∈ done, q.lsn < l) :
    (c.apply now (.delete l k a b)).1.mark = c.mark ∧
    Ran k (done ++ [.delete l k a b]) (c.apply now (.delete l k a b)).1 := by
  obtain ⟨hstale, -⟩ := h.fresh hnew
  cases hlive : c.live with
  | none =>
    have heq : (c.apply now (.delete l k a b)).1 = c := by
      unfold apply
      dsimp only
      rw [hstale, hlive]
      rfl
    rw [heq]
    exact ⟨rfl, h.kept (fun _ _ => nofun) (fun _ => nofun) (fun _ _ _ _ => hlive)
      (fun _ _ _ => nofun)⟩
  | some active =>
    have heq : (c.apply now (.delete l k a b)).1 =
        ⟨none, some (WalIndex.tombstoneOf active k l a b), c.mark⟩ := by
      unfold apply
      dsimp only
      rw [hstale, hlive]
      rfl
    rw [heq]
    exact ⟨rfl, {
      alone := Or.inl rfl
      liveSeen := fun n hn => by cases hn
      tombSeen := fun t ht => by cases ht; exact ⟨.delete l k a b, by simp, rfl⟩
      markSeen := fun m hm => seen_more (h.markSeen m hm)
      liveData := fun n hn => by cases hn
      liveDelete := fun n hn => by cases hn
      tombData := fun t ht p len hin => by
        cases ht
        exact Nat.le_of_lt (hnew _ (mem_done hin nofun))
      markData := fun m hm p len hin => h.markData m hm p len (mem_done hin nofun)
      markPurge := fun m hm l hin => h.markPurge m hm l (mem_done hin nofun)
      goneData := fun _ ht => by cases ht
      goneMigrate := fun _ ht => by cases ht }⟩

theorem Ran.migrate (hnew : ∀ q ∈ done, q.lsn < p.lsn) :
    (c.apply now (.migrate p k v len)).1.mark = c.mark ∧
    Ran k (done ++ [.migrate p k v len]) (c.apply now (.migrate p k v len)).1 := by
  obtain ⟨-, hsupp⟩ := h.fresh hnew
  have hskip : ¬ (c.live = none ∧ c.tomb = none) →
      Ran k (done ++ [.migrate p k v len]) c := fun hthere =>
    h.kept (fun _ _ => nofun) (fun _ => nofun) (fun _ _ _ => nofun)
      (fun _ _ _ _ hl ht => hthere ⟨hl, ht⟩)
  have hinstall : Ran k (done ++ [.migrate p k v len])
      ⟨some (WalIndex.entryAt p k len now needleFlagMigrated), none, c.mark⟩ :=
    Ran.installed (r := .migrate p k v len) hnew rfl h.markSeen
      (fun m hm q ql hin => h.markData m hm q ql (mem_done hin nofun))
      (fun m hm l hin => h.markPurge m hm l (mem_done hin nofun))
  unfold apply
  dsimp only
  rw [if_neg (by rw [hsupp]; exact Bool.false_ne_true)]
  cases ht : c.tomb with
  | some t => exact ⟨rfl, hskip (fun hno => by rw [ht] at hno; cases hno.2)⟩
  | none =>
    cases hl : c.live with
    | none =>
      dsimp only [install]
      rw [ht]
      exact ⟨rfl, hinstall⟩
    | some cur =>
      dsimp only
      split
      · dsimp only [install]
        rw [ht]
        exact ⟨rfl, hinstall⟩
      · exact ⟨rfl, hskip (fun hno => by rw [hl] at hno; cases hno.1)⟩

theorem Ran.purge (hnew : ∀ q ∈ done, q.lsn < l) :
    (c.apply now (.purge l k)).1.mark = some (max (c.mark.getD 0) l) ∧
    Ran k (done ++ [.purge l k]) (c.apply now (.purge l k)).1 := by
  have hmark : max (c.mark.getD 0) l = l := by
    cases hm : c.mark with
    | none => simp
    | some m =>
      obtain ⟨q, hq, hql⟩ := h.markSeen m hm
      have := hnew q hq
      simp only [Option.getD_some]
      omega
  have hall : ∀ {q : Effect}, q ∈ done ++ [.purge l k] → q.lsn ≤ l := fun hin =>
    le_last (r := .purge l k) hnew hin
  unfold apply
  dsimp only
  rw [hmark]
  exact ⟨rfl, {
    alone := Or.inr rfl
    liveSeen := fun n hn => seen_more (h.liveSeen n hn)
    tombSeen := fun t ht => by cases ht
    markSeen := fun m hm => by cases hm; exact ⟨.purge l k, by simp, rfl⟩
    liveData := fun n hn p len hin => h.liveData n hn p len (mem_done hin nofun)
    liveDelete := fun n hn l a b hin => h.liveDelete n hn l a b (mem_done hin nofun)
    tombData := fun t ht => by cases ht
    markData := fun m hm p len hin => by cases hm; exact hall hin
    markPurge := fun m hm l hin => by cases hm; exact hall hin
    goneData := fun _ _ p len hin => ⟨l, rfl, hall hin⟩
    goneMigrate := fun _ _ p v len hin => ⟨l, rfl, hall hin⟩ }⟩

end

end FirstPass

/-- What a first pass does to a purge marker does not depend on the rest of the cell. -/
def markAfter (mark : Option Nat) : Effect → Option Nat
  | .data _ _ _ => none
  | .purge lsn _ => some (max (mark.getD 0) lsn)
  | _ => mark

/-- One record of a first pass. -/
theorem Ran.step {done : List Effect} {c : Cell} (h : Ran k done c) (now : Int64)
    (hr : needleId? r = some k) (hnew : ∀ q ∈ done, q.lsn < r.lsn) :
    (c.apply now r).1.mark = markAfter c.mark r ∧ Ran k (done ++ [r]) (c.apply now r).1 := by
  cases r with
  | data p needleId dataLen => cases hr; exact h.data now hnew
  | delete lsn needleId deletedAt retentionUntil => cases hr; exact h.delete now hnew
  | migrate p needleId expectVersion dataLen => cases hr; exact h.migrate now hnew
  | purge lsn needleId => cases hr; exact h.purge now hnew
  | volume | anchor | nothing => cases hr

/-! ## The second pass over a cell -/

/-- The record finds nothing to do in the cell that the first pass left: a purge finds
no tombstone, and a migration that expects the live version is behind the marker. -/
def Spent (c : Cell) : Effect → Prop
  | .purge _ _ => c.tomb = none
  | .migrate p _ expectVersion _ =>
    ∀ n, c.live = some n → n.versionLsn = expectVersion → c.suppressed p.lsn = true
  | _ => True

/-- A marker that the first pass left covers everything; another one repeats its course. -/
def remark (c : Cell) (mark : Option Nat) : Cell := ⟨c.live, c.tomb, c.mark.or mark⟩

section SecondPass

variable {k : Nat} {log : List Effect} {c : Cell} {mark : Option Nat}

theorem remark_suppressed (hmark : ∀ m, mark = some m → m < lsn) :
    (remark c mark).suppressed lsn = c.suppressed lsn := by
  unfold suppressed remark
  cases c.mark with
  | some m => rfl
  | none =>
    cases hm : mark with
    | none => rfl
    | some m =>
      have := hmark m hm
      show decide (lsn ≤ m) = false
      simp only [decide_eq_false_iff_not]
      omega

section

variable (h : Ran k log c)
include h

theorem Ran.data_again (hin : .data p k len ∈ log) (hmark : ∀ m, mark = some m → m < p.lsn)
    (now : Int64) :
    (remark c mark).apply now (.data p k len) = (remark c none, none) := by
  unfold apply
  dsimp only
  rw [remark_suppressed hmark]
  cases hm : c.mark with
  | some m =>
    have hsupp : c.suppressed p.lsn = true := by
      simp only [suppressed, hm, decide_eq_true_eq]
      exact h.markData m hm p len hin
    rw [if_pos hsupp]
    simp only [remark, hm, Option.some_or]
  | none =>
    have hsupp : c.suppressed p.lsn = false := by simp only [suppressed, hm]
    -- without a marker the id is not gone, and its version covers the record
    have hstale : (remark c mark).stale p.lsn = true := by
      unfold stale remark
      cases hl : c.live with
      | some n => simp only [decide_eq_true (h.liveData n hl p len hin), Bool.true_or]
      | none =>
        cases ht : c.tomb with
        | some t => simp only [decide_eq_true (h.tombData t ht p len hin), Bool.or_true]
        | none =>
          obtain ⟨m, hm', -⟩ := h.goneData hl ht p len hin
          rw [hm] at hm'
          cases hm'
    rw [if_neg (by rw [hsupp]; exact Bool.false_ne_true), if_pos hstale]
    simp only [remark, hm, Option.none_or]

theorem Ran.delete_again (hin : .delete l k a b ∈ log) (now : Int64) :
    (remark c mark).apply now (.delete l k a b) = (remark c mark, none) := by
  unfold apply
  dsimp only
  cases hl : c.live with
  | none =>
    have hlive : (remark c mark).live = none := hl
    rw [hlive]
    exact ite_self _
  | some n =>
    have hstale : (remark c mark).stale l = true := by
      unfold stale remark
      simp only [hl, decide_eq_true (h.liveDelete n hl l a b hin), Bool.true_or]
    rw [if_pos hstale]

theorem Ran.migrate_again (hin : .migrate p k v len ∈ log) (hmark : ∀ m, mark = some m → m < p.lsn)
    (now : Int64) :
    (Spent c (.migrate p k v len) →
      (remark c mark).apply now (.migrate p k v len) = (remark c mark, none)) ∧
    (¬ Spent c (.migrate p k v len) →
      ((remark c mark).apply now (.migrate p k v len)).2 ≠ none) := by
  unfold apply Spent
  dsimp only
  rw [remark_suppressed hmark]
  cases hsupp : c.suppressed p.lsn with
  | true => exact ⟨fun _ => rfl, fun hnot => absurd (fun _ _ _ => rfl) hnot⟩
  | false =>
    rw [if_neg Bool.false_ne_true]
    cases ht : c.tomb with
    | some t =>
      have htomb : (remark c mark).tomb = some t := ht
      have hlive : c.live = none := by
        rcases h.alone with hl | hno
        · exact hl
        · rw [ht] at hno
          cases hno
      rw [htomb, hlive]
      exact ⟨fun _ => rfl, fun hnot => absurd (fun n hn => by cases hn) hnot⟩
    | none =>
      have htomb : (remark c mark).tomb = none := ht
      rw [htomb]
      cases hl : c.live with
      | none =>
        -- a gone id has a marker, which covers its migrations
        obtain ⟨m, hm, hle⟩ := h.goneMigrate hl ht p v len hin
        simp only [suppressed, hm, decide_eq_false_iff_not] at hsupp
        exact absurd hle hsupp
      | some n =>
        have hlive : (remark c mark).live = some n := hl
        rw [hlive]
        dsimp only [install]
        rw [htomb, hlive]
        by_cases hv : n.versionLsn = v
        · rw [if_pos hv]
          refine ⟨fun hspent => ?_, fun _ => nofun⟩
          exact absurd (hspent n rfl hv) Bool.false_ne_true
        rw [if_neg hv]
        refine ⟨fun _ => rfl, fun hnot => absurd ?_ hnot⟩
        intro n' hn' hv'
        cases hn'
        exact absurd hv' hv

theorem Ran.purge_again (hin : .purge l k ∈ log) (now : Int64) :
    (Spent c (.purge l k) → (remark c mark).apply now (.purge l k) =
      (remark c (some (max (mark.getD 0) l)), none)) ∧
    (¬ Spent c (.purge l k) → ((remark c mark).apply now (.purge l k)).2 ≠ none) := by
  unfold apply Spent
  refine ⟨fun ht => ?_, fun ht => ?_⟩
  · have hmark : some (max ((c.mark.or mark).getD 0) l) =
        c.mark.or (some (max (mark.getD 0) l)) := by
      cases hm : c.mark with
      | none => rfl
      | some m =>
        simp only [Option.some_or, Option.getD_some]
        rw [Nat.max_eq_left (h.markPurge m hm l hin)]
    simp only [remark, ht, Option.map_none, hmark]
  · cases hc : c.tomb with
    | none => exact absurd hc ht
    | some t => simp [remark, hc]

/-- **One record of a second pass**: it repeats the marker's course and does nothing
else, or it pushes a dead copy. -/
theorem Ran.again {r : Effect} (hr : needleId? r = some k) (hin : r ∈ log)
    (hmark : ∀ m, mark = some m → m < r.lsn) (now : Int64) :
    (Spent c r → (remark c mark).apply now r = (remark c (markAfter mark r), none)) ∧
    (¬ Spent c r → ((remark c mark).apply now r).2 ≠ none) := by
  cases r with
  | data p needleId dataLen =>
    cases hr
    exact ⟨fun _ => h.data_again hin hmark now, fun hnot => absurd trivial hnot⟩
  | delete lsn needleId deletedAt retentionUntil =>
    cases hr
    exact ⟨fun _ => h.delete_again hin now, fun hnot => absurd trivial hnot⟩
  | migrate p needleId expectVersion dataLen => cases hr; exact h.migrate_again hin hmark now
  | purge lsn needleId => cases hr; exact h.purge_again hin now
  | volume | anchor | nothing => cases hr

end

end SecondPass

/-! ## Both passes over an index -/

/-- DATA, DELETE, GC_MIGRATE and TOMB_PURGE records with increasing LSNs. -/
structure IsLog (log : List Effect) : Prop where
  kinds : ∀ r ∈ log, ∃ k, needleId? r = some k
  increasing : log.Pairwise fun a b => a.lsn < b.lsn

/-- Apply the records of a log in order, each at a time of its own. -/
def applyLog (clock : Effect → Int64) (log : List Effect) (idx : WalIndex) : WalIndex :=
  log.foldl (fun idx r => r.apply idx (clock r)) idx

section

variable (clock : Effect → Int64)

theorem applyLog_append (a b : List Effect) (idx : WalIndex) :
    applyLog clock (a ++ b) idx = applyLog clock b (applyLog clock a idx) :=
  foldl_append

theorem applyLog_consistent (log : List Effect) (h : Consistent idx) :
    Consistent (applyLog clock log idx) := by
  induction log generalizing idx with
  | nil => exact h
  | cons r log ih => exact ih (r.apply_consistent h (clock r))

/-- No record takes a dead copy away. -/
theorem applyLog_dead_length {log : List Effect}
    (h : ∀ r ∈ log, ∃ k, needleId? r = some k) (idx : WalIndex) :
    idx.deadCopies.length ≤ (applyLog clock log idx).deadCopies.length := by
  induction log generalizing idx with
  | nil => exact Nat.le_refl _
  | cons r log ih =>
    obtain ⟨k, hk⟩ := h r (by simp)
    have hstep := (apply_cell idx (clock r) hk).dead
    refine Nat.le_trans ?_ (ih (fun q hq => h q (by simp [hq])) (r.apply idx (clock r)))
    rw [hstep, length_append]
    exact Nat.le_add_right _ _

theorem applyLog_ran {log : List Effect} (h : IsLog log) (k : Nat) :
    Ran k log (cellOf (applyLog clock log .empty) k) := by
  induction log using reverseRecOn with
  | nil => exact Ran.empty k
  | append_singleton done r ih =>
    obtain ⟨id, hid⟩ := h.kinds r (by simp)
    have hpair := pairwise_append.mp h.increasing
    have hdone : IsLog done := ⟨fun q hq => h.kinds q (by simp [hq]), hpair.1⟩
    have hnew : ∀ q ∈ done, q.lsn < r.lsn := fun q hq => hpair.2.2 q hq r (by simp)
    obtain ⟨hother, hown, -⟩ := apply_cell (applyLog clock done .empty) (clock r) hid
    rw [applyLog_append]
    change Ran k (done ++ [r]) (cellOf (r.apply (applyLog clock done .empty) (clock r)) k)
    by_cases hk : k = id
    · subst hk
      rw [hown]
      exact ((ih hdone).step (clock r) hid hnew).2
    rw [hother k hk]
    have hne : ∀ {q : Effect}, needleId? q = some k → q ≠ r := by
      rintro q hq rfl
      rw [hid] at hq
      exact hk (Option.some.inj hq).symm
    exact (ih hdone).kept (fun _ _ => hne rfl) (fun _ => hne rfl)
      (fun _ _ _ heq => absurd heq (hne rfl)) (fun _ _ _ heq => absurd heq (hne rfl))

end

/-- The tables, the ledger, the markers and the statistics agree. -/
structure SameTables (a b : WalIndex) : Prop where
  needles : a.needles = b.needles
  tombstones : a.tombstones = b.tombstones
  deadCopies : a.deadCopies = b.deadCopies
  purged : a.purged = b.purged
  stats : a.stats = b.stats

theorem sameTables_of_cells {a b : WalIndex} (ha : Consistent a) (hb : Consistent b)
    (hcells : ∀ k, cellOf a k = cellOf b k) (hdead : a.deadCopies = b.deadCopies) :
    SameTables a b := by
  have hneedles : a.needles = b.needles :=
    Finmap.ext_lookup fun k => congrArg live (hcells k)
  have htombs : a.tombstones = b.tombstones :=
    Finmap.ext_lookup fun k => congrArg tomb (hcells k)
  refine ⟨hneedles, htombs, hdead, Finmap.ext_lookup fun k => congrArg mark (hcells k), ?_⟩
  unfold Consistent at ha
  rw [hneedles, htombs, hdead] at ha
  exact ha.stats_eq hb rfl

/-- Where the second pass stands after the records `done`: nothing has changed but
markers, which are on their first course where the first pass left none. -/
structure Underway (final first idx : WalIndex) : Prop where
  cells : ∀ k, cellOf idx k = remark (cellOf final k) (cellOf first k).mark
  dead : idx.deadCopies = final.deadCopies

/-- A record has nothing left to do in the index. -/
def Settled (idx : WalIndex) (r : Effect) : Prop :=
  match r with
  | .purge _ k => idx.tombstones.lookup k = none
  | .migrate p k expectVersion _ => ∀ n, idx.needles.lookup k = some n →
      n.versionLsn = expectVersion → idx.suppressed k p.lsn = true
  | _ => True

theorem settled_iff_spent (idx : WalIndex) (h : needleId? r = some k) :
    Settled idx r ↔ Spent (cellOf idx k) r := by
  cases r with
  | data | delete => exact Iff.rfl
  | migrate | purge => cases h; exact Iff.rfl
  | volume | anchor | nothing => cases h

section Passes

variable {firstClock secondClock : Effect → Int64} {log done rest : List Effect}
  {final : WalIndex}

variable (secondClock) in
theorem Underway.step {r : Effect} (hlog : IsLog log) (hsplit : log = done ++ r :: rest)
    (hran : ∀ k, Ran k log (cellOf final k))
    (h : Underway final (applyLog firstClock done .empty) idx) :
    (Settled final r → Underway final (applyLog firstClock (done ++ [r]) .empty)
        (r.apply idx (secondClock r))) ∧
    (¬ Settled final r →
      idx.deadCopies.length < (r.apply idx (secondClock r)).deadCopies.length) := by
  have hin : r ∈ log := by rw [hsplit]; simp
  obtain ⟨k, hk⟩ := hlog.kinds r hin
  have hpair := pairwise_append.mp (hsplit ▸ hlog.increasing)
  have hdone : IsLog done :=
    ⟨fun q hq => hlog.kinds q (by rw [hsplit]; simp [hq]), hpair.1⟩
  have hnew : ∀ q ∈ done, q.lsn < r.lsn := fun q hq => hpair.2.2 q hq r (by simp)
  have hpast := applyLog_ran firstClock hdone k
  have hmark : ∀ m, (cellOf (applyLog firstClock done .empty) k).mark = some m → m < r.lsn := by
    intro m hm
    obtain ⟨q, hq, hql⟩ := hpast.markSeen m hm
    exact hql ▸ hnew q hq
  obtain ⟨hspent, hpush⟩ := (hran k).again hk hin hmark (secondClock r)
  obtain ⟨hother, hown, hdead⟩ := apply_cell idx (secondClock r) hk
  rw [h.cells k] at hown hdead
  rw [settled_iff_spent _ hk]
  refine ⟨fun hs => ?_, fun hs => ?_⟩
  · rw [hspent hs] at hown hdead
    obtain ⟨hother₁, hown₁, -⟩ :=
      apply_cell (applyLog firstClock done .empty) (firstClock r) hk
    rw [applyLog_append]
    refine ⟨fun id => ?_, ?_⟩
    · change _ =
        remark _ (cellOf (r.apply (applyLog firstClock done .empty) (firstClock r)) id).mark
      by_cases hid : id = k
      · subst hid
        rw [hown, hown₁, (hpast.step (firstClock r) hk hnew).1]
      · rw [hother id hid, hother₁ id hid, h.cells id]
    · rw [hdead, h.dead]
      exact append_nil _
  · have hsome := hpush hs
    rw [hdead, length_append]
    cases hd : ((remark (cellOf final k) (cellOf (applyLog firstClock done .empty) k).mark).apply
        (secondClock r) r).2 with
    | none => exact absurd hd hsome
    | some d => simp

variable (secondClock) in
/-- The rest of a second pass: it changes nothing, or the ledger grows. -/
theorem Underway.finish (hlog : IsLog log) (hsplit : log = done ++ rest)
    (hran : ∀ k, Ran k log (cellOf final k))
    (h : Underway final (applyLog firstClock done .empty) idx) :
    ((∀ r ∈ rest, Settled final r) → Underway final (applyLog firstClock log .empty)
      (applyLog secondClock rest idx)) ∧
    ((applyLog secondClock rest idx).deadCopies = final.deadCopies →
      ∀ r ∈ rest, Settled final r) := by
  induction rest generalizing done idx with
  | nil =>
    rw [append_nil] at hsplit
    subst hsplit
    exact ⟨fun _ => h, fun _ r hr => by cases hr⟩
  | cons r rest ih =>
    obtain ⟨hkeep, hgrow⟩ := h.step secondClock hlog hsplit hran
    have hsplit' : log = (done ++ [r]) ++ rest := by simpa using hsplit
    refine ⟨fun hall => ?_, fun hsame => ?_⟩
    · exact (ih hsplit' (hkeep (hall r (by simp)))).1 fun q hq => hall q (by simp [hq])
    · by_cases hs : Settled final r
      · exact forall_mem_cons.mpr ⟨hs, (ih hsplit' (hkeep hs)).2 hsame⟩
      · -- the dead copy pushed here is never taken back
        have hkinds : ∀ q ∈ rest, ∃ k, needleId? q = some k := fun q hq =>
          hlog.kinds q (by rw [hsplit]; simp [hq])
        have hlater := applyLog_dead_length secondClock hkinds (r.apply idx (secondClock r))
        have hsame' : (applyLog secondClock rest (r.apply idx (secondClock r))).deadCopies =
          final.deadCopies := hsame
        have := hgrow hs
        rw [hsame', ← h.dead] at hlater
        omega

/-- **A second application of a log** changes the index exactly when some record still
finds something to do in the index that the first application left: a TOMB_PURGE a
tombstone, a GC_MIGRATE the very version it expects. -/
theorem second_pass_unchanged_iff (firstClock secondClock : Effect → Int64) (log : List Effect)
    (hlog : IsLog log) :
    SameTables (applyLog secondClock log (applyLog firstClock log .empty))
        (applyLog firstClock log .empty) ↔
      ∀ r ∈ log, Settled (applyLog firstClock log .empty) r := by
  have hstart : Underway (applyLog firstClock log .empty) (applyLog firstClock [] .empty)
      (applyLog firstClock log .empty) := by
    refine ⟨fun k => ?_, rfl⟩
    show _ = (⟨_, _, (cellOf (applyLog firstClock log .empty) k).mark.or none⟩ : Cell)
    rw [Option.or_none]
  obtain ⟨hkeep, hsettled⟩ := hstart.finish secondClock hlog rfl (applyLog_ran firstClock hlog)
  constructor
  · intro hsame
    exact hsettled hsame.deadCopies
  · intro hall
    have hend := hkeep hall
    have hfirst := applyLog_consistent firstClock log empty_consistent
    refine sameTables_of_cells (applyLog_consistent secondClock log hfirst) hfirst
      (fun k => ?_) hend.dead
    rw [hend.cells k]
    show (⟨_, _, (cellOf (applyLog firstClock log .empty) k).mark.or
      (cellOf (applyLog firstClock log .empty) k).mark⟩ : Cell) = _
    rw [Option.or_self]

end Passes

/-- Needle 7 is written, deleted, purged and written again. -/
def rewritten : List Effect :=
  [.data ⟨0, 4096, 0, 1⟩ 7 10, .delete 2 7 100 200, .purge 3 7, .data ⟨0, 4200, 0, 4⟩ 7 10]

theorem rewritten_unchanged :
    SameTables (applyLog (fun _ => 1) rewritten (applyLog (fun _ => 0) rewritten .empty))
      (applyLog (fun _ => 0) rewritten .empty) := by
  refine (second_pass_unchanged_iff (fun _ => 0) (fun _ => 1) rewritten ⟨?_, by decide⟩).mpr ?_
  · intro r hr
    fin_cases hr <;> exact ⟨7, rfl⟩
  · have hlive : (applyLog (fun _ => 0) rewritten .empty).tombstones.lookup 7 = none := by
      decide +kernel
    intro r hr
    fin_cases hr
    · trivial
    · trivial
    · exact hlive
    · trivial

/-- And deleted once more. -/
def redeleted : List Effect := rewritten ++ [.delete 5 7 300 400]

/-- The purge of the first generation buries the tombstone of the second one again. -/
theorem redeleted_changed :
    IsLog redeleted ∧
    ¬ SameTables (applyLog (fun _ => 0) redeleted (applyLog (fun _ => 0) redeleted .empty))
      (applyLog (fun _ => 0) redeleted .empty) := by
  refine ⟨⟨?_, by decide⟩, fun hsame => ?_⟩
  · intro r hr
    fin_cases hr <;> exact ⟨7, rfl⟩
  · have hdead := hsame.deadCopies
    revert hdead
    decide +kernel

end PowerFS.Wal.Reapply
