import PowerFS.Lib.VersionedLog
import PowerFS.Wal.Cells

/-! # The order in which records are applied

Writers apply their records to the index after the log has ordered them, so records
reach the index in an order of their own. Each needle id is a cell of a versioned
log: this module reduces the index to its cells and decides which orders of
application give the index that the log order gives. -/
namespace PowerFS.Wal.ApplyOrder
open Lib.FinTable Lib.VersionedLog Index Payload Records IndexAccounting Effects Cells List

/-- A committed user record with its well-formed payload. -/
inductive UserRecord where
  | data (place : WalIndex.Place) (payload : DataPayload)
      (short : payload.data.length < 2 ^ 32) (now : Int64)
  | delete (lsn : Nat) (payload : DeletePayload)

namespace UserRecord

def lsn : UserRecord → Nat
  | .data place _ _ _ => place.lsn
  | .delete lsn _ => lsn

def needleId : UserRecord → Nat
  | .data _ payload _ _ => payload.needleId.toNat
  | .delete _ payload => payload.needleId.toNat

def isData : UserRecord → Bool
  | .data _ _ _ _ => true
  | .delete _ _ => false

/-- What `WalEngine::write` and `WalEngine::delete` do to the index. -/
def apply (idx : WalIndex) : UserRecord → WalIndex
  | .data place payload _ now => (idx.applyData place payload.encode now).1
  | .delete lsn payload => (idx.applyDelete lsn payload.encode).1

end UserRecord

/-- The record as what its frame says, and the time at which it is applied. -/
def UserRecord.effect : UserRecord → Effect × Int64
  | .data place payload _ now => (.data place payload.needleId.toNat payload.data.length, now)
  | .delete lsn payload =>
    (.delete lsn payload.needleId.toNat payload.deletedAt payload.retentionUntil, 0)

theorem UserRecord.apply_effect (idx : WalIndex) (r : UserRecord) :
    r.apply idx = r.effect.1.apply idx r.effect.2 := by
  cases r with
  | data place payload short now => exact congrArg Prod.fst (applyData_encode idx _ _ short now)
  | delete lsn payload => exact congrArg Prod.fst (applyDelete_encode idx lsn payload)

def applyAll (rs : List UserRecord) : WalIndex := rs.foldl UserRecord.apply WalIndex.empty

theorem applyAll_concat (rs : List UserRecord) (r : UserRecord) :
    applyAll (rs ++ [r]) = r.apply (applyAll rs) := by
  simp [applyAll]

theorem applyAll_consistent (rs : List UserRecord) : Consistent (applyAll rs) := by
  induction rs using reverseRecOn with
  | nil => exact empty_consistent
  | append_singleton rs r ih =>
    rw [applyAll_concat, r.apply_effect]
    exact r.effect.1.apply_consistent ih r.effect.2

/-- **A record acts on the cell of its id** and on the ledger, and on nothing else. -/
theorem apply_acts (idx : WalIndex) (r : UserRecord) :
    ActsOn idx (r.apply idx) r.needleId ((cellOf idx r.needleId).apply r.effect.2 r.effect.1) := by
  have hid : needleId? r.effect.1 = some r.needleId := by cases r <;> rfl
  rw [r.apply_effect]
  exact apply_cell idx r.effect.2 hid

/-! ## A cell over a run of records -/

/-- The cell after a record, and the dead copies the record leaves. -/
def step (c : Cell) (r : UserRecord) : Cell × List DeadCopy :=
  let out := c.apply r.effect.2 r.effect.1
  (out.1, out.2.toList)

def runStep (s : Cell × List DeadCopy) (r : UserRecord) : Cell × List DeadCopy :=
  ((step s.1 r).1, s.2 ++ (step s.1 r).2)

/-- The records of one id, applied to its cell. -/
def runCell (rs : List UserRecord) : Cell × List DeadCopy := rs.foldl runStep (Cell.empty, [])

theorem runCell_concat (rs : List UserRecord) (r : UserRecord) :
    runCell (rs ++ [r]) = runStep (runCell rs) r := by
  simp [runCell]

/-- The cell shows the last record it has taken. -/
def Shows (c : Cell) : Option UserRecord → Prop
  | none => c = Cell.empty
  | some r => if r.isData then ∃ e, c = ⟨some e, none, none⟩ ∧ e.versionLsn = r.lsn
      else ∃ t, c = ⟨none, some t, none⟩ ∧ t.versionLsn = r.lsn

open UserRecord

theorem step_stale {live : Option NeedleEntry} {tomb : Option TombstoneEntry} {r : UserRecord}
    (hs : (⟨live, tomb, none⟩ : Cell).stale r.lsn = true) :
    step ⟨live, tomb, none⟩ r = (⟨live, tomb, none⟩, []) := by
  cases r with
  | data place payload short now =>
    simp [step, effect, Cell.apply, Cell.suppressed, show
      (⟨live, tomb, none⟩ : Cell).stale place.lsn = true from hs]
  | delete lsn payload =>
    simp [step, effect, Cell.apply, show (⟨live, tomb, none⟩ : Cell).stale lsn = true from hs]

/-- The index takes a record exactly if a versioned log does. -/
theorem step_shows {c : Cell} {last : Option UserRecord} (h : Shows c last) (r : UserRecord) :
    (takes lsn isData last r = false ∧ step c r = (c, [])) ∨
    (takes lsn isData last r = true ∧ Shows (step c r).1 (some r) ∧
      (step c r).2.map (·.versionLsn) =
        if r.isData then last.toList.map lsn else []) := by
  cases last with
  | none =>
    have hc : c = Cell.empty := h
    subst hc
    cases r with
    | data place payload short now =>
      exact .inr ⟨rfl, ⟨_, rfl, rfl⟩, rfl⟩
    | delete lsn payload => exact .inl ⟨rfl, rfl⟩
  | some y =>
    cases hy : y.isData with
    | true =>
      obtain ⟨e, rfl, he⟩ : ∃ e, c = ⟨some e, none, none⟩ ∧ e.versionLsn = y.lsn := by
        simpa [Shows, hy] using h
      by_cases hlt : y.lsn < r.lsn
      · have hs : (⟨some e, none, none⟩ : Cell).stale r.lsn = false := by
          simp [Cell.stale, he, hlt]
        refine .inr ⟨by simp [takes, hlt, hy], ?_⟩
        cases r with
        | data place payload short now =>
          have hstep : step ⟨some e, none, none⟩ (.data place payload short now) =
              (⟨some (WalIndex.entryAt place payload.needleId.toNat payload.data.length now 0),
                none, none⟩, [e.toDead]) := by
            simp [step, effect, Cell.apply, Cell.suppressed, Cell.install, show
              (⟨some e, none, none⟩ : Cell).stale place.lsn = false from hs]
          rw [hstep]
          exact ⟨⟨_, rfl, rfl⟩, by simp [NeedleEntry.toDead, he, isData]⟩
        | delete lsn payload =>
          have hstep : step ⟨some e, none, none⟩ (.delete lsn payload) =
              (⟨none, some (WalIndex.tombstoneOf e payload.needleId.toNat lsn
                payload.deletedAt payload.retentionUntil), none⟩, []) := by
            simp [step, effect, Cell.apply, show
              (⟨some e, none, none⟩ : Cell).stale lsn = false from hs]
          rw [hstep]
          exact ⟨⟨_, rfl, rfl⟩, rfl⟩
      · have hs : (⟨some e, none, none⟩ : Cell).stale r.lsn = true := by
          simp [Cell.stale, he]; omega
        exact .inl ⟨by simp [takes, hlt], step_stale hs⟩
    | false =>
      obtain ⟨t, rfl, ht⟩ : ∃ t, c = ⟨none, some t, none⟩ ∧ t.versionLsn = y.lsn := by
        simpa [Shows, hy] using h
      by_cases hlt : y.lsn < r.lsn
      · have hs : (⟨none, some t, none⟩ : Cell).stale r.lsn = false := by
          simp [Cell.stale, ht, hlt]
        cases r with
        | data place payload short now =>
          have hstep : step ⟨none, some t, none⟩ (.data place payload short now) =
              (⟨some (WalIndex.entryAt place payload.needleId.toNat payload.data.length now 0),
                none, none⟩, [t.toDead]) := by
            simp [step, effect, Cell.apply, Cell.suppressed, Cell.install, show
              (⟨none, some t, none⟩ : Cell).stale place.lsn = false from hs]
          rw [hstep]
          refine .inr ⟨by simp [takes, hlt, isData], ⟨_, rfl, rfl⟩, ?_⟩
          simp [TombstoneEntry.toDead, ht, isData]
        | delete lsn payload =>
          have hr : (delete lsn payload).isData = false := rfl
          refine .inl ⟨by simp [takes, hy, hr], ?_⟩
          simp [step, effect, Cell.apply]
      · have hs : (⟨none, some t, none⟩ : Cell).stale r.lsn = true := by
          simp [Cell.stale, ht]; omega
        exact .inl ⟨by simp [takes, hlt], step_stale hs⟩

/-- What a cell holds and what it has displaced, in terms of the records it has taken. -/
theorem runCell_taken (rs : List UserRecord) :
    let ts := taken lsn isData rs
    Shows (runCell rs).1 ts.getLast? ∧ runCell rs = runCell ts ∧
    ∃ ss, History lsn isData ts ss ∧
      (runCell rs).2.map (·.versionLsn) = ss.map lsn := by
  induction rs using reverseRecOn with
  | nil => exact ⟨rfl, rfl, [], .nil, rfl⟩
  | append_singleton rs r ih =>
    obtain ⟨hshows, hrun, ss, hist, hdead⟩ := ih
    dsimp only
    rw [taken_concat, runCell_concat, takeStep]
    obtain ⟨hskip, hstep⟩ | ⟨htake, hnew, hcopies⟩ := step_shows hshows r
    · -- a record that is not taken changes nothing
      have hsame : runStep (runCell rs) r = runCell rs := by
        simp [runStep, hstep]
      rw [hskip, hsame]
      exact ⟨hshows, hrun, ss, hist, hdead⟩
    · rw [htake, if_pos rfl, getLast?_concat, runCell_concat, ← hrun]
      refine ⟨hnew, rfl, ?_⟩
      cases hlast : (taken lsn isData rs).getLast? with
      | none =>
        have hnil := getLast?_eq_none_iff.mp hlast
        rw [hlast] at htake hcopies
        rw [hnil] at hist ⊢
        have hss : ss = [] := by
          generalize hts : ([] : List UserRecord) = ts at hist
          cases hist with
          | nil => rfl
          | first => cases hts
          | put | delete => simp at hts
        refine ⟨[], .first htake, ?_⟩
        rw [runStep, map_append, hdead, hcopies, hss]
        simp
      | some y =>
        rw [hlast] at htake hcopies
        obtain ⟨hlt, hkind⟩ : y.lsn < r.lsn ∧ (r.isData = true ∨ y.isData = true) := by
          simpa [takes] using htake
        cases hr : r.isData with
        | true =>
          refine ⟨ss ++ [y], .put hist hlast hlt hr, ?_⟩
          rw [runStep, map_append, hdead, hcopies, hr]
          simp
        | false =>
          rw [hr] at hkind
          refine ⟨ss, .delete hist hlast hlt (by simpa using hkind) hr, ?_⟩
          rw [runStep, map_append, hdead, hcopies, hr]
          simp

/-! ## The index and its cells -/

def ofId (id : Nat) (rs : List UserRecord) : List UserRecord :=
  rs.filter fun r => decide (r.needleId = id)

theorem ofId_concat (id : Nat) (rs : List UserRecord) (r : UserRecord) :
    ofId id (rs ++ [r]) = if r.needleId = id then ofId id rs ++ [r] else ofId id rs := by
  by_cases h : r.needleId = id <;> simp [ofId, h]

theorem applyAll_cell (rs : List UserRecord) (id : Nat) :
    cellOf (applyAll rs) id = (runCell (ofId id rs)).1 := by
  induction rs using reverseRecOn with
  | nil => rfl
  | append_singleton rs r ih =>
    obtain ⟨hother, hown, -⟩ := apply_acts (applyAll rs) r
    rw [applyAll_concat, ofId_concat]
    by_cases h : r.needleId = id
    · subst h
      rw [if_pos rfl, runCell_concat, runStep, hown, ← ih, step]
    · rw [if_neg h, hother id (Ne.symm h), ih]

theorem shows_unmarked {c : Cell} {last : Option UserRecord} (h : Shows c last) :
    c.mark = none := by
  cases last with
  | none =>
    have hc : c = Cell.empty := h
    rw [hc, Cell.empty]
  | some r =>
    dsimp only [Shows] at h
    split at h
    all_goals
      obtain ⟨_, rfl, _⟩ := h
      rfl

theorem applyAll_purged (rs : List UserRecord) : (applyAll rs).purged = ∅ := by
  refine Finmap.ext_lookup fun id => ?_
  have hcell := congrArg Cell.mark (applyAll_cell rs id)
  rw [shows_unmarked (runCell_taken (ofId id rs)).1] at hcell
  exact hcell

theorem applyAll_dead (rs : List UserRecord) (r : UserRecord) :
    (applyAll (rs ++ [r])).deadCopies =
      (applyAll rs).deadCopies ++ (step (runCell (ofId r.needleId rs)).1 r).2 := by
  rw [applyAll_concat, (apply_acts (applyAll rs) r).dead, applyAll_cell, step]

/-- The dead copy carries the version of a record of the id. -/
def owned (log : List UserRecord) (id : Nat) (d : DeadCopy) : Bool :=
  (ofId id log).any fun r => decide (r.lsn = d.versionLsn)

section Owners

variable {log arr : List UserRecord}

/-- What a record displaces belongs to its id. -/
theorem step_owned (hsub : ∀ r ∈ arr, r ∈ log) (r : UserRecord) :
    ∀ d ∈ (step (runCell (ofId r.needleId arr)).1 r).2,
      ∃ q ∈ log, q.needleId = r.needleId ∧ q.lsn = d.versionLsn := by
  intro d hd
  obtain ⟨hshows, _, _⟩ := runCell_taken (ofId r.needleId arr)
  obtain ⟨_, hstep⟩ | ⟨_, _, hcopies⟩ := step_shows hshows r
  · rw [hstep] at hd; cases hd
  have hver := mem_map_of_mem (f := (·.versionLsn)) hd
  rw [hcopies] at hver
  split at hver
  · obtain ⟨q, hq, hlsn⟩ := mem_map.mp hver
    have hlast := mem_of_getLast? (Option.mem_toList.mp hq)
    obtain ⟨hmem, hid⟩ := mem_filter.mp (taken_subset _ _ _ q hlast)
    exact ⟨q, hsub q hmem, by simpa using hid, hlsn⟩
  · cases hver

theorem owned_iff (id : Nat) (d : DeadCopy) :
    owned log id d = true ↔ ∃ q ∈ log, q.needleId = id ∧ q.lsn = d.versionLsn := by
  simp [owned, ofId]

/-- The ledger, restricted to one id, is what the cell of that id displaced. -/
theorem deadCopies_owned (hlog : log.Pairwise fun a b => a.lsn < b.lsn)
    (hsub : ∀ r ∈ arr, r ∈ log) (id : Nat) :
    (applyAll arr).deadCopies.filter (owned log id) = (runCell (ofId id arr)).2 := by
  induction arr using reverseRecOn with
  | nil => rfl
  | append_singleton rs r ih =>
    have hrs : ∀ q ∈ rs, q ∈ log := fun q hq => hsub q (by simp [hq])
    rw [applyAll_dead, filter_append, ih hrs, ofId_concat]
    have hown := step_owned hrs r
    by_cases h : r.needleId = id
    · rw [if_pos h, runCell_concat, runStep, ← h, filter_eq_self.mpr]
      exact fun d hd => (owned_iff r.needleId d).mpr (hown d hd)
    rw [if_neg h, filter_eq_nil_iff.mpr, append_nil]
    intro d hd hid
    -- versions are unique in the log, so another id cannot own the copy
    obtain ⟨q, hq, hqid, hqlsn⟩ := hown d hd
    obtain ⟨q', hq', hqid', hqlsn'⟩ := (owned_iff id d).mp hid
    have := inj_of_sorted lsn hlog hq hq' (hqlsn.trans hqlsn'.symm)
    rw [← this, hqid] at hqid'
    exact h hqid'

theorem deadCopies_have_owner (hsub : ∀ r ∈ arr, r ∈ log) :
    ∀ d ∈ (applyAll arr).deadCopies, ∃ id, owned log id d = true := by
  induction arr using reverseRecOn with
  | nil => exact fun d hd => absurd hd (by simp [applyAll, WalIndex.empty])
  | append_singleton rs r ih =>
    have hrs : ∀ q ∈ rs, q ∈ log := fun q hq => hsub q (by simp [hq])
    intro d hd
    rw [applyAll_dead] at hd
    obtain hd | hd := mem_append.mp hd
    · exact ih hrs d hd
    · exact ⟨r.needleId, (owned_iff r.needleId d).mpr (step_owned hrs r d hd)⟩

/-- Ledgers agree as multisets if they agree id by id. -/
theorem perm_of_owned {ds ds' : List DeadCopy} (hds : ∀ d ∈ ds, ∃ id, owned log id d = true)
    (hds' : ∀ d ∈ ds', ∃ id, owned log id d = true)
    (h : ∀ id, (ds.filter (owned log id)).Perm (ds'.filter (owned log id))) : ds.Perm ds' := by
  rw [perm_iff_count]
  intro d
  by_cases how : ∃ id, owned log id d = true
  · obtain ⟨id, hid⟩ := how
    rw [← count_filter hid, (h id).count_eq, count_filter hid]
  · rw [count_eq_zero.mpr fun hd => how (hds d hd), count_eq_zero.mpr fun hd => how (hds' d hd)]

end Owners

/-! ## When the order does not matter -/

/-- The tables, the ledger up to its order, and the statistics are the same. -/
structure SameOutcome (a b : WalIndex) : Prop where
  needles : a.needles = b.needles
  tombstones : a.tombstones = b.tombstones
  deadCopies : a.deadCopies.Perm b.deadCopies
  stats : a.stats = b.stats

/-- The applied records of one id suit the log: see `Timely`. The effective records of
an id are its DATA records, and the DELETE records directly after one of them. -/
def InEffectiveOrder (log arr : List UserRecord) (id : Nat) : Prop :=
  Timely UserRecord.lsn UserRecord.isData (ofId id log) (ofId id arr)

theorem sorted_ofId {log : List UserRecord} (hlog : log.Pairwise fun a b => a.lsn < b.lsn)
    (id : Nat) : (ofId id log).Pairwise fun a b => a.lsn < b.lsn := hlog.filter _

/-- Records that come in the order of the log suit it. -/
theorem inEffectiveOrder_same {log arr : List UserRecord} {id : Nat}
    (hlog : log.Pairwise fun a b => a.lsn < b.lsn) (h : ofId id arr = ofId id log) :
    InEffectiveOrder log arr id := by
  unfold InEffectiveOrder
  rw [h]
  exact timely_self _ _ (sorted_ofId hlog id)

theorem cell_ext {a b : WalIndex} (h : ∀ id, cellOf a id = cellOf b id) :
    a.needles = b.needles ∧ a.tombstones = b.tombstones :=
  ⟨Finmap.ext_lookup fun id => congrArg Cell.live (h id),
    Finmap.ext_lookup fun id => congrArg Cell.tomb (h id)⟩

theorem sameOutcome_of_cells {log arr : List UserRecord}
    (hlog : log.Pairwise fun a b => a.lsn < b.lsn) (hsub : ∀ r ∈ arr, r ∈ log)
    (h : ∀ id, runCell (ofId id arr) = runCell (ofId id log)) :
    SameOutcome (applyAll arr) (applyAll log) := by
  obtain ⟨hn, ht⟩ := cell_ext (a := applyAll arr) (b := applyAll log) fun id => by
    rw [applyAll_cell, applyAll_cell, h id]
  have hd : (applyAll arr).deadCopies.Perm (applyAll log).deadCopies := by
    refine perm_of_owned (deadCopies_have_owner hsub)
      (@deadCopies_have_owner log log fun _ hr => hr) ?_
    intro id
    rw [deadCopies_owned hlog hsub, deadCopies_owned hlog (fun _ hr => hr), h id]
  have hbooks := applyAll_consistent arr
  have hbooks' := applyAll_consistent log
  unfold Consistent at hbooks hbooks'
  rw [hn, ht] at hbooks
  exact ⟨hn, ht, hd, hbooks.stats_eq hbooks' (hd.map _).sum_eq⟩

/-- The last version a cell shows. -/
theorem shows_version {c : Cell} {last : Option UserRecord} (h : Shows c last) :
    last.map lsn =
      (c.live.map (·.versionLsn)).or (c.tomb.map (·.versionLsn)) := by
  cases last with
  | none =>
    have hc : c = Cell.empty := h
    subst hc
    rfl
  | some r =>
    cases hr : r.isData with
    | true =>
      obtain ⟨e, rfl, he⟩ : ∃ e, c = ⟨some e, none, none⟩ ∧ e.versionLsn = r.lsn := by
        simpa [Shows, hr] using h
      simp [he]
    | false =>
      obtain ⟨t, rfl, ht⟩ : ∃ t, c = ⟨none, some t, none⟩ ∧ t.versionLsn = r.lsn := by
        simpa [Shows, hr] using h
      simp [ht]

/-- **Exactly the timely orders give the outcome of the log order.** `arr` may also
leave records of the log out. -/
theorem sameOutcome_iff {log arr : List UserRecord}
    (hlog : log.Pairwise fun a b => a.lsn < b.lsn) (hnd : arr.Nodup) (hsub : ∀ r ∈ arr, r ∈ log) :
    SameOutcome (applyAll arr) (applyAll log) ↔ ∀ id, InEffectiveOrder log arr id := by
  have hcrit : ∀ id, taken lsn isData (ofId id arr) =
      taken lsn isData (ofId id log) ↔ InEffectiveOrder log arr id := by
    intro id
    refine taken_eq_iff _ _ (sorted_ofId hlog id) (hnd.filter _) ?_
    intro r hr
    obtain ⟨hr, hid⟩ := mem_filter.mp hr
    exact mem_filter.mpr ⟨hsub r hr, hid⟩
  constructor
  · intro h id
    rw [← hcrit id]
    obtain ⟨hshow, _, ss, hist, hss⟩ := runCell_taken (ofId id arr)
    obtain ⟨hshow', _, ss', hist', hss'⟩ := runCell_taken (ofId id log)
    refine taken_eq_of_observed _ _ (sorted_ofId hlog id) ?_ hist hist' ?_ ?_
    · intro r hr
      obtain ⟨hr, hid⟩ := mem_filter.mp hr
      exact mem_filter.mpr ⟨hsub r hr, hid⟩
    · rw [← hss, ← hss', ← deadCopies_owned hlog hsub, ← deadCopies_owned hlog fun _ hr => hr]
      exact (h.deadCopies.filter _).map _
    · rw [shows_version hshow, shows_version hshow', ← applyAll_cell, ← applyAll_cell]
      unfold cellOf
      rw [h.needles, h.tombstones]
  · intro h
    refine sameOutcome_of_cells hlog hsub ?_
    intro id
    rw [(runCell_taken (ofId id arr)).2.1, (runCell_taken (ofId id log)).2.1, (hcrit id).mpr (h id)]

/-- **The order of application matters exactly up to the effective order.** The
records of a log, applied in any order, give the tables, the dead copies and the
statistics of the log order if and only if for every needle id the effective records
are applied in LSN order, and every other DELETE is applied when the newest effective
record applied for the id is no older DATA. -/
theorem apply_order_iff {log arr : List UserRecord}
    (hlog : log.Pairwise fun a b => a.lsn < b.lsn) (hperm : arr.Perm log) :
    SameOutcome (applyAll arr) (applyAll log) ↔ ∀ id, InEffectiveOrder log arr id := by
  have hnd : arr.Nodup := by
    rw [hperm.nodup_iff]
    exact hlog.imp fun hlt he => by rw [he] at hlt; exact Nat.lt_irrefl _ hlt
  exact sameOutcome_iff hlog hnd fun r hr => hperm.mem_iff.mp hr

/-! ### A delete that overtakes an overwrite -/

def firstWrite : UserRecord := .data ⟨1, 68, 0x11, 1⟩ ⟨7, [1]⟩ (by decide) 100
def secondWrite : UserRecord := .data ⟨1, 107, 0x22, 2⟩ ⟨7, [2, 2]⟩ (by decide) 101
def laterDelete : UserRecord := .delete 3 ⟨7, 102, 202⟩
def otherWrite : UserRecord := .data ⟨1, 147, 0x33, 4⟩ ⟨8, [4]⟩ (by decide) 103

/-- Writes of different ids may be applied in either order. -/
theorem otherWrite_first :
    SameOutcome (applyAll [otherWrite, firstWrite, secondWrite, laterDelete])
      (applyAll [firstWrite, secondWrite, laterDelete, otherWrite]) := by
  refine (apply_order_iff (by decide)
    (@perm_append_comm _ [otherWrite] [firstWrite, secondWrite, laterDelete])).mpr fun id => ?_
  refine inEffectiveOrder_same (by decide) ?_
  by_cases h : otherWrite.needleId = id
  · subst h
    rfl
  · simp [ofId, filter_cons, h]

/-- The delete is applied before the overwrite that the log has before it: the
tombstone keeps the first copy, and the second one is in no table. -/
theorem laterDelete_overtakes :
    ¬ SameOutcome (applyAll [firstWrite, laterDelete, secondWrite])
      (applyAll [firstWrite, secondWrite, laterDelete]) := by
  intro h
  have hlen := congrArg (fun m => (m.lookup 7).map (·.dataLen)) h.tombstones
  exact absurd hlen (by decide +kernel)

end PowerFS.Wal.ApplyOrder
