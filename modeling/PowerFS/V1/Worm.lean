import PowerFS.V1.Sliding

/-! # Retention

`worm_lock` notes in the index entry of a needle until when it must be kept, and
`delete_needle` is the only operation that looks there. A locked needle keeps its content
as long as nobody writes to it, brings back an older one, or locks it for a shorter time;
what requests for other needles leave of it is proved here. -/
namespace PowerFS.V1.Worm
open Lib.ByteString Lib.FinTable Lib.Calls Lib.SparseFiles Needle Metadata Coalescer State
  Operations Outcomes Requests Compaction V1.Layout Sliding WriteCoalescer

section

variable {v v' w : Volume} {x : Nat}

/-! ## What is left of a needle -/

/-- The record and the dirty entry of a needle are as they were. -/
structure Untouched (v v' : Volume) (x : Nat) : Prop where
  record : recordOf v' x = recordOf v x
  held : v'.coalescer.held x = v.coalescer.held x

theorem Untouched.trans {v₁ : Volume} (h : Untouched v v₁ x) (h' : Untouched v₁ v' x) :
    Untouched v v' x :=
  ⟨h'.record.trans h.record, h'.held.trans h.held⟩

variable [Env] {id : Nat} {data merged : Bytes} {fileKey : Nat} {isNew : Bool} {log : List Attempt}

/-- A write to another needle. -/
theorem untouched_wrote {known good : Prop} {r : Result NeedleInfo} (h : Placed v)
    (hw : Wrote known good v id data r v') (hx : x ≠ id) : Untouched v v' x :=
  ⟨h.recordOf_wrote hw hx, congrFun hw.sameSide.held x⟩

theorem untouched_begun (hx : x ≠ keyOf v fileKey) : Untouched v (begun v fileKey) x := by
  refine ⟨rfl, ?_⟩
  rw [held_begun, if_neg hx]

/-- The flush of an entry that goes to another needle. -/
theorem untouched_flushEntry {r : Result Unit} (h : Placed v) (hx : x ≠ id)
    (hkey : x ≠ keyOf v id) (hf : Returns (flushCoalescerEntry id merged isNew) v r v') :
    Untouched v v' x := by
  rcases flushCoalescerEntry_returns hf with ⟨_, _, n, rfl⟩ | ⟨_, w, k, r₀, ht, _, hw⟩
  · exact ⟨rfl, rfl⟩
  have hplaced : Placed w := h.target ht
  obtain ⟨n, ⟨rfl, rfl⟩ | ⟨rfl, rfl⟩⟩ := ht
  · have hsame := untouched_wrote hplaced hw hx
    exact ⟨hsame.record, hsame.held⟩
  have hticks : Untouched v (v.ticks n) x := ⟨rfl, rfl⟩
  have hbegun : Untouched v (begun (v.ticks n) id) x := hticks.trans (untouched_begun hkey)
  exact hbegun.trans (untouched_wrote hplaced hw hkey)

/-- A flush makes no entry dirty, and takes a new key for needle 0 only. -/
theorem flushEntry_side {r : Result Unit}
    (hf : Returns (flushCoalescerEntry id merged isNew) v r v') :
    (∀ y, v.coalescer.held y = none → v'.coalescer.held y = none) ∧
      (id ≠ 0 → v'.info.nextFileKey = v.info.nextFileKey) := by
  rcases flushCoalescerEntry_returns hf with ⟨_, _, n, rfl⟩ | ⟨_, w, k, r₀, ht, _, hw⟩
  · exact ⟨fun _ hy => hy, fun _ => rfl⟩
  have hside := hw.sameSide
  rw [hside.held, hside.key]
  obtain ⟨n, ⟨rfl, rfl⟩ | ⟨rfl, rfl⟩⟩ := ht
  · exact ⟨fun _ hy => hy, fun _ => rfl⟩
  refine ⟨fun y hy => ?_, fun hid => if_neg hid⟩
  rw [held_begun]
  exact ite_eq_left_iff.mpr fun _ => hy

/-- A dirty entry of needle 0 will get a key of its own. -/
def ZeroSafe (v : Volume) (x : Nat) : Prop :=
  v.coalescer.held 0 ≠ none → v.info.nextFileKey ≠ x

theorem untouched_flushed {ids : List Nat} (hf : Flushed ids v log v') (h : Placed v)
    (hclean : v.coalescer.held x = none) (hzero : ZeroSafe v x) :
    Untouched v v' x := by
  induction hf with
  | nil => exact ⟨rfl, rfl⟩
  | nothing _ _ ih => exact ih h hclean hzero
  | @entry id ids v v₁ v' log c e r hrun htake hflush _ ih =>
    obtain ⟨hheld, _, hgone⟩ := held_take htake
    have hdirty : v.coalescer.held id ≠ none := by
      rw [hheld]
      exact Option.some_ne_none _
    have hx : x ≠ id := fun heq => hdirty (heq ▸ hclean)
    have hkey : x ≠ keyOf (v.setCoalescer c) id := by
      unfold keyOf
      split
      · rename_i hid
        exact fun heq => hzero (hid ▸ hdirty) heq.symm
      · exact hx
    have hv : Placed (v.setCoalescer c) := { h with }
    have htaken : Untouched v (v.setCoalescer c) x := ⟨rfl, (hgone x).trans (if_neg hx)⟩
    have hfirst : Untouched v v₁ x := htaken.trans (untouched_flushEntry hv hx hkey hflush)
    obtain ⟨hfewer, hnext⟩ := flushEntry_side hflush
    refine hfirst.trans (ih (hv.flushEntry hflush) (hfirst.held.trans hclean) fun hdirty' => ?_)
    by_cases hid : id = 0
    · exact absurd (hfewer 0 ((hgone 0).trans (if_pos hid.symm))) hdirty'
    rw [hnext hid]
    refine hzero fun hnone => hdirty' (hfewer 0 ?_)
    exact (hgone 0).trans (ite_eq_left_iff.mpr fun _ => hnone)

theorem untouched_drained {es : List (Nat × DirtyEntry)} (hd : Drained es v log v')
    (h : Placed v) (hx : x ∉ es.map Prod.fst) (hnodup : (es.map Prod.fst).Nodup)
    (hzero : 0 ∈ es.map Prod.fst → v.info.nextFileKey ≠ x) : Untouched v v' x := by
  induction hd with
  | nil => exact ⟨rfl, rfl⟩
  | @cons id e es v v₁ v' log r hflush _ ih =>
    obtain ⟨hnotin, hnodup'⟩ := List.nodup_cons.mp hnodup
    have hne : x ≠ id := fun heq => hx (heq ▸ List.mem_cons_self)
    have hkey : x ≠ keyOf v id := by
      unfold keyOf
      split
      · rename_i hid
        exact fun heq => hzero (hid ▸ List.mem_cons_self) heq.symm
      · exact hne
    have hfirst := untouched_flushEntry h hne hkey hflush
    refine hfirst.trans (ih (h.flushEntry hflush) (fun hmem => hx (List.mem_cons_of_mem _ hmem))
      hnodup' fun hmem => ?_)
    have hid : id ≠ 0 := fun h0 => hnotin (h0 ▸ hmem)
    rw [(flushEntry_side hflush).2 hid]
    exact hzero (List.mem_cons_of_mem _ hmem)

/-- A compaction in which no call fails. -/
theorem untouched_compact {r : Result (Nat × Nat)} (hq : ¬ CallFails v v')
    (h : Placed v) (hclean : v.coalescer.held x = none) (hzero : ZeroSafe v x)
    (hc : Returns compact v r v') : Untouched v v' x := by
  rcases compact_returns hc with ⟨_, rfl⟩ | ⟨_, v₁, hinner, rfl⟩
  · exact ⟨rfl, rfl⟩
  have hstart : Placed (v.setCompacting true) := { h with }
  have hinside : ¬ CallFails (v.setCompacting true) v₁ := hq
  obtain ⟨log, w, hdrain, _, _, hrecord, hfront⟩ := compactInner_quiet hinside hstart hinner
  have hlisted : ∀ y, y ∈ (Env.order.entries v.coalescer.entries).map Prod.fst →
      v.coalescer.held y ≠ none := by
    intro y hy hnone
    obtain ⟨p, hp, rfl⟩ := List.mem_map.mp hy
    rw [held_of_lookup (mem_entries.mp hp)] at hnone
    cases hnone
  have hdrained := untouched_drained hdrain { hstart with }
    (fun hmem => hlisted x hmem hclean) (nodup_entries _ _)
    (fun hmem => hzero (hlisted 0 hmem))
  refine ⟨(congrFun hrecord x).trans hdrained.record, ?_⟩
  rw [show (v₁.setCompacting false).coalescer = w.coalescer from hfront.1, hdrained.held, hclean]
  rfl

/-! ## Locked needles -/

/-- Until when a needle must be kept. -/
def retention (v : Volume) (id : Nat) : Option Int :=
  (v.index.needles.lookup id).bind NeedleInfo.wormRetentionUntil

omit [Env] in
theorem retention_eq (v : Volume) (id : Nat) :
    retention v id = (recordOf v id).bind fun e => e.1.wormRetentionUntil := by
  unfold retention recordOf
  cases v.index.needles.lookup id with
  | none | some => rfl

/-- A needle with a content and a retention, and no dirty entry. -/
structure Locked (v : Volume) (id : Nat) (content : Bytes) (t : Int) : Prop where
  placed : Placed v
  clean : v.coalescer.held id = none
  reads : readRecord id (recordOf v id) = .ok content
  kept : retention v id = some t

section Steps

variable {id : Nat} {content : Bytes} {t T : Int}

theorem Locked.read (h : Locked v id content t) : readNeedle v id = .ok content := by
  rw [h.placed.readNeedle, h.clean]
  exact h.reads

theorem Locked.untouched (h : Locked v id content t) (hv : Placed v')
    (hu : Untouched v v' id) : Locked v' id content t := by
  refine ⟨hv, hu.held.trans h.clean, ?_, ?_⟩
  · rw [hu.record]
    exact h.reads
  · rw [retention_eq, hu.record, ← retention_eq]
    exact h.kept

variable {y : Nat} {r : Result Unit} {info : NeedleInfo}

theorem untouched_delete (hx : x ≠ y) (hd : Returns (deleteNeedle y) v r v') :
    Untouched v v' x := by
  have hgone : (v.discard Env.capacity y).coalescer.held x = v.coalescer.held x :=
    (held_invalidate Env.capacity v.coalescer y x).trans (if_neg hx)
  rcases deleteNeedle_returns hd with ⟨_, n, _, rfl⟩ | ⟨info, now, n, _, _, _, k, s, u, rfl⟩
  · exact ⟨rfl, hgone⟩
  exact ⟨recordOf_eq (Finmap.lookup_erase_ne hx) fun _ _ => rfl, hgone⟩

/-- Before the end of its retention a locked needle is not deleted. -/
theorem Locked.delete_refused (h : Locked v id content t) (hnow : utc (v.calls + 1) < t)
    (hd : Returns (deleteNeedle id) v r v') : (∃ e, r = .error e) ∧ Untouched v v' id := by
  rcases deleteNeedle_returns hd with ⟨e, n, rfl, rfl⟩ | ⟨info, now, n, hold, hpast, _⟩
  · refine ⟨⟨e, rfl⟩, rfl, ?_⟩
    rw [h.clean]
    exact (held_invalidate Env.capacity v.coalescer id id).trans (if_pos rfl)
  have hworm : info.wormRetentionUntil = some t := by
    have hkept := h.kept
    unfold retention at hkept
    rw [hold] at hkept
    exact hkept
  exact absurd (hpast t hworm) (Int.not_le.mpr hnow)

theorem untouched_restore (hx : x = y → v.index.deleted.lookup x = none)
    (hr : Returns (restoreNeedle y) v r v') : Untouched v v' x := by
  rcases restoreNeedle_returns hr with ⟨n, rfl⟩ | ⟨info, now, n, hold, rfl⟩
  · exact ⟨rfl, rfl⟩
  have hne : x ≠ y := by
    intro heq
    rw [← heq, hx heq] at hold
    cases hold
  exact ⟨recordOf_eq (Finmap.lookup_insert_of_ne _ hne) fun _ _ => rfl, rfl⟩

omit [Env] in
theorem recordOf_putNeedle_ne (hx : x ≠ info.id) :
    recordOf (v.setIndex (v.index.putNeedle info)) x = recordOf v x :=
  recordOf_eq (Finmap.lookup_insert_of_ne _ hx) fun _ _ => rfl

omit [Env] in
/-- The record of a needle with a new retention. -/
theorem recordOf_relocked (hold : v.index.needles.lookup id = some info) (hid : info.id = id)
    (t : Option Int) :
    recordOf (v.setIndex (v.index.putNeedle { info with wormRetentionUntil := t })) id =
      (recordOf v id).map fun e => ({ e.1 with wormRetentionUntil := t }, e.2) := by
  subst hid
  show ((v.index.needles.insert info.id _).lookup info.id).map _ = _
  unfold recordOf
  rw [Finmap.lookup_insert, hold]
  rfl

/-- Reading does not depend on the retention. -/
theorem readRecord_relocked (rec : Option (NeedleInfo × Bytes)) (t : Option Int) :
    readRecord id (rec.map fun e => ({ e.1 with wormRetentionUntil := t }, e.2)) =
      readRecord id rec := by
  cases rec with
  | none | some => rfl

/-- A lock that reaches the index sets the retention and nothing else. -/
theorem Placed.locked (h : Placed v) (hold : v.index.needles.lookup id = some info)
    (hclean : v.coalescer.held id = none) (hread : readRecord id (recordOf v id) = .ok content)
    (n : Nat) (t : Int) :
    Locked ((v.ticks n).setIndex (v.index.putNeedle { info with wormRetentionUntil := some t }))
      id content t := by
  have hid : info.id = id := h.keyed.live id info hold
  have hplaced : Placed (v.setIndex (v.index.putNeedle
      { info with wormRetentionUntil := some t })) :=
    h.putNeedle hold rfl rfl (h.live id info hold)
  refine ⟨{ hplaced with }, hclean, ?_, ?_⟩
  · rw [show recordOf ((v.ticks n).setIndex _) id = _ from recordOf_relocked hold hid (some t),
      readRecord_relocked]
    exact hread
  · show ((v.index.needles.insert info.id _).lookup id).bind _ = _
    rw [hid, Finmap.lookup_insert]
    rfl

/-! ## Runs -/

/-- What a request may do while a needle is locked until `T`: it does not write to it,
restore an older content of it or shorten its retention; a delete of it comes before `T`;
nothing fails during a compaction. -/
def Respects (id : Nat) (T : Int) (v : Volume) : Request → Prop
  | .write fileKey _ data => keyOf v fileKey = id → Known v id data
  | .blob fileKey _ _ _ => fileKey ≠ id ∧
    (fileKey = 0 → v.coalescer.config.disabled = true → v.info.nextFileKey ≠ id)
  | .flush _ => ZeroSafe v id
  | .flushAll => ZeroSafe v id
  | .flushExpired => ZeroSafe v id
  | .delete y => y = id → utc (v.calls + 1) < T
  | .restore y => y = id → v.index.deleted.lookup id = none
  | .lock y retentionDays => y = id →
    ∀ t, retention v id = some t → t ≤ retentionEnd (v.calls + 1) retentionDays
  | .gc => True
  | .compact => Untroubled v .compact ∧ ZeroSafe v id

instance : Decidable (ZeroSafe v id) := instDecidableForall

instance : (q : Request) → Decidable (Respects id T v q)
  | .write _ _ _ | .delete _ | .restore _ | .lock _ _ => instDecidableForall
  | .flush _ | .flushAll | .flushExpired => inferInstanceAs (Decidable (ZeroSafe v id))
  | .gc => .isTrue trivial
  | .blob _ _ _ _ | .compact => instDecidableAnd

theorem Respects.untroubled {q : Request} (h : Respects id T v q) : Untroubled v q := by
  cases q with
  | compact => exact h.1
  | _ => trivial

theorem untouched_write {cookie : Nat} {r : Result NeedleInfo} (h : Placed v)
    (hclean : v.coalescer.held id = none) (hresp : Respects id T v (.write fileKey cookie data))
    (hw : Returns (writeNeedleWithCookie fileKey cookie data) v r v') : Untouched v v' id := by
  replace hw := Returns.get_bind hw
  split at hw
  · obtain ⟨_, rfl⟩ := hw.fail
    exact ⟨rfl, rfl⟩
  rcases writeNeedleNowait_returns hw with ⟨_, _, rfl⟩ | ⟨_, hwrote⟩
  · exact ⟨rfl, rfl⟩
  by_cases hkey : id = keyOf v fileKey
  · -- the content is there already, so nothing is appended
    have hknown : Known v (keyOf v fileKey) data := hkey ▸ hresp hkey.symm
    cases hwrote with
    | skipped n =>
      refine ⟨rfl, ?_⟩
      rw [hclean]
      exact (held_begun v fileKey id).trans (if_pos hkey)
    | failed hnew => exact absurd hknown hnew
    | published n now hnew => exact absurd hknown hnew
  · exact (untouched_begun hkey).trans (untouched_wrote (h.begun fileKey) hwrote hkey)

theorem untouched_blob {offset size : Int} (h : Placed v)
    (hresp : Respects id T v (.blob fileKey offset size data))
    (hb : Returns (writeNeedleBlob fileKey offset size data) v r v') : Untouched v v' id := by
  rcases writeNeedleBlob_returns hb with
    ⟨_, _, n, _, rfl⟩ | ⟨_, _, n, hint, existing, _, hrec⟩
  · exact ⟨rfl, rfl⟩
  rcases recordBlob_returns hrec with ⟨_, _, c, _, rfl, hheld⟩ | ⟨hdis, hflush⟩
  · exact ⟨rfl, (hheld id).trans (if_neg (Ne.symm hresp.1))⟩
  have hkey : id ≠ keyOf ((v.ticks n).ticks 1) fileKey := by
    unfold keyOf
    split
    · rename_i h0
      exact Ne.symm (hresp.2 h0 hdis)
    · exact Ne.symm hresp.1
  have hlater : Placed ((v.ticks n).ticks 1) := { h with }
  have hsame := untouched_flushEntry hlater (Ne.symm hresp.1) hkey hflush
  exact ⟨hsame.record, hsame.held⟩

theorem untouched_purge {r : Result Nat}
    (hp : Returns purgeExpiredDeleted v r v') : Untouched v v' x := by
  obtain ⟨d, ⟨⟨_, n, rfl⟩, _⟩ | ⟨_, n, p, now, _, rfl⟩⟩ := purgeExpiredDeleted_returns hp
  · exact ⟨rfl, rfl⟩
  · exact ⟨rfl, rfl⟩

/-- A lock of any needle leaves a locked needle locked, as long as before or longer. -/
theorem Locked.lock {retentionDays : Int} (h : Locked v id content t)
    (hresp : Respects id T v (.lock y retentionDays))
    (hl : Returns (wormLock y retentionDays) v r v') :
    ∃ t', t ≤ t' ∧ Locked v' id content t' := by
  have hplaced : Placed v' := h.placed.lock hl
  rcases wormLock_returns hl with ⟨_, n, _, rfl⟩ | ⟨info, hold, _, _, ⟨_, rfl⟩ | ⟨_, rfl⟩⟩
  · exact ⟨t, le_refl t, h.untouched hplaced ⟨rfl, rfl⟩⟩
  · by_cases hy : y = id
    · subst hy
      exact ⟨_, hresp rfl t h.kept, Placed.locked h.placed hold h.clean h.reads 3 _⟩
    have hne : id ≠ info.id := by
      rw [h.placed.keyed.live y info hold]
      exact Ne.symm hy
    exact ⟨t, le_refl t, h.untouched hplaced ⟨recordOf_putNeedle_ne hne, rfl⟩⟩
  · exact ⟨t, le_refl t, h.untouched hplaced ⟨rfl, rfl⟩⟩

/-- **A request that respects the lock leaves the needle locked**, as long as before or
longer. -/
theorem Locked.step {q : Request} (h : Locked v id content t) (hT : T ≤ t)
    (hresp : Respects id T v q) (hq : Returns (perform q) v r v') :
    ∃ t', t ≤ t' ∧ Locked v' id content t' := by
  have hplaced : Placed v' := Placed.step hresp.untroubled h.placed hq
  have hsame : Untouched v v' id → ∃ t', t ≤ t' ∧ Locked v' id content t' :=
    fun hu => ⟨t, le_refl t, h.untouched hplaced hu⟩
  cases q with
  | write fileKey cookie data =>
    obtain ⟨_, hw⟩ := ignore_returns hq
    exact hsame (untouched_write h.placed h.clean hresp hw)
  | blob fileKey offset size data => exact hsame (untouched_blob h.placed hresp hq)
  | flush | flushAll | flushExpired =>
    obtain ⟨n, ids, log, hlog⟩ := flushes_returns rfl hq
    have hlater : Placed (v.ticks n) := { h.placed with }
    have hflush := untouched_flushed hlog hlater h.clean hresp
    exact hsame ⟨hflush.record, hflush.held⟩
  | delete y =>
    by_cases hy : y = id
    · subst hy
      exact hsame (h.delete_refused (lt_of_lt_of_le (hresp rfl) hT) hq).2
    · exact hsame (untouched_delete (Ne.symm hy) hq)
  | restore y => exact hsame (untouched_restore (fun heq => hresp heq.symm) hq)
  | lock y retentionDays => exact h.lock hresp hq
  | gc =>
    obtain ⟨_, hp⟩ := ignore_returns hq
    exact hsame (untouched_purge hp)
  | compact =>
    obtain ⟨_, hc⟩ := ignore_returns hq
    exact hsame (untouched_compact (hresp.1 r v' hq) h.placed h.clean hresp.2 hc)

theorem Locked.run {qs : List Request} (hrun : Run (Respects id T) v qs v')
    (h : Locked v id content t) (hT : T ≤ t) : ∃ t', T ≤ t' ∧ Locked v' id content t' := by
  refine Run.keeps (I := fun v => ∃ t', T ≤ t' ∧ Locked v id content t') ?_ hrun ⟨t, hT, h⟩
  rintro v q r v' hresp ⟨t₁, hT₁, h₁⟩ hq
  obtain ⟨t₂, hle, h₂⟩ := h₁.step hT₁ hresp hq
  exact ⟨t₂, le_trans hT₁ hle, h₂⟩

end Steps

end

local instance : Env := calm

theorem exists_of_any {α : Type} {o : Option α} {p : α → Bool} (h : o.any p = true) :
    ∃ a, o = some a ∧ p a = true := by
  cases o with
  | none => cases h
  | some a => exact ⟨a, rfl, h⟩

end PowerFS.V1.Worm
