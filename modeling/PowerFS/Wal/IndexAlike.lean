import PowerFS.Wal.Effects

/-! # Indexes that differ only in their age

The time at which a record was applied is all that the tables of two indexes with the
same history may differ in. `Alike` compares the tables without that time, and the
ledgers of dead copies by a relation of choice: equality, or equality up to order.
Applying the same record keeps two indexes alike. The cursor and the capacity, which
may come from elsewhere, are followed separately. -/
namespace PowerFS.Wal.IndexAlike
open Lib.FinTable Index IndexAccounting Checkpoint LogContents Effects WalIndex

/-- An entry without the time at which it was made. -/
def ageless (n : NeedleEntry) : NeedleEntry := { n with createdAt := 0 }

structure Alike (R : List DeadCopy → List DeadCopy → Prop) (a b : WalIndex) : Prop where
  needles : ∀ id, (a.needles.lookup id).map ageless = (b.needles.lookup id).map ageless
  tombstones : a.tombstones = b.tombstones
  deadCopies : R a.deadCopies b.deadCopies
  stats : a.stats = b.stats
  purged : a.purged = b.purged

theorem Alike.refl (a : WalIndex) : Alike Eq a a := ⟨fun _ => rfl, rfl, rfl, rfl, rfl⟩

variable {a b : WalIndex} {R : List DeadCopy → List DeadCopy → Prop}

theorem Alike.symm (h : Alike Eq a b) : Alike Eq b a :=
  ⟨fun id => (h.needles id).symm, h.tombstones.symm, h.deadCopies.symm, h.stats.symm, h.purged.symm⟩

theorem Alike.trans {c : WalIndex} (h : Alike R a b) (h' : Alike Eq b c) : Alike R a c :=
  ⟨fun id => (h.needles id).trans (h'.needles id), h.tombstones.trans h'.tombstones,
    h'.deadCopies ▸ h.deadCopies, h.stats.trans h'.stats, h.purged.trans h'.purged⟩

theorem Alike.of_eq {c : WalIndex} (h : Alike Eq a b) (h' : Alike R b c) : Alike R a c :=
  ⟨fun id => (h.needles id).trans (h'.needles id), h.tombstones.trans h'.tombstones,
    h.deadCopies ▸ h'.deadCopies, h.stats.trans h'.stats, h.purged.trans h'.purged⟩

/-- The relation of the ledgers survives a dead copy that both get. -/
def KeptByAppend (R : List DeadCopy → List DeadCopy → Prop) : Prop :=
  ∀ xs ys d, R xs ys → R (xs ++ [d]) (ys ++ [d])

theorem eq_kept : KeptByAppend Eq := fun _ _ d h => congrArg (· ++ [d]) h

theorem perm_kept : KeptByAppend List.Perm := fun _ _ d h => h.append_right [d]

/-! ## Moves of the index -/

/-- A needle is live in both, with the same fields but its age, or in neither. -/
theorem Alike.live (h : Alike R a b) (id : Nat) :
    (a.needles.lookup id = none ∧ b.needles.lookup id = none) ∨
    ∃ x y, a.needles.lookup id = some x ∧ b.needles.lookup id = some y ∧
      ageless x = ageless y := by
  have := h.needles id
  rcases ha : a.needles.lookup id with _ | x <;> rcases hb : b.needles.lookup id with _ | y
  · exact .inl ⟨rfl, rfl⟩
  · rw [ha, hb] at this; cases this
  · rw [ha, hb] at this; cases this
  · rw [ha, hb] at this
    exact .inr ⟨x, y, rfl, rfl, Option.some.inj this⟩

variable {x y : NeedleEntry}

theorem ageless_fields (h : ageless x = ageless y) :
    x.needleId = y.needleId ∧ x.dataLen = y.dataLen ∧ x.versionLsn = y.versionLsn ∧
    x.toDead = y.toDead := by
  cases x
  cases y
  obtain ⟨rfl, rfl, rfl, rfl, rfl, rfl, _, rfl⟩ := h
  exact ⟨rfl, rfl, rfl, rfl⟩

theorem tombstoneOf_ageless (h : ageless x = ageless y) (id lsn : Nat) (t u : Int64) :
    tombstoneOf x id lsn t u = tombstoneOf y id lsn t u := by
  cases x
  cases y
  obtain ⟨rfl, rfl, rfl, rfl, rfl, rfl, _, rfl⟩ := h
  rfl

theorem Alike.stale (h : Alike R a b) (id lsn : Nat) : a.stale id lsn = b.stale id lsn := by
  unfold WalIndex.stale
  rw [h.tombstones]
  rcases h.live id with ⟨ha, hb⟩ | ⟨x, y, ha, hb, hxy⟩
  · rw [ha, hb]
  rw [ha, hb]
  dsimp only
  rw [(ageless_fields hxy).2.2.1]

theorem Alike.suppressed (h : Alike R a b) (id lsn : Nat) :
    a.suppressed id lsn = b.suppressed id lsn := by
  unfold WalIndex.suppressed
  rw [h.purged]

theorem Alike.seen (h : Alike R a b) (lsn : Nat) : Alike R (a.seen lsn) (b.seen lsn) :=
  { h with }

theorem Alike.seenNeedle (h : Alike R a b) (id lsn : Nat) :
    Alike R (a.seenNeedle id lsn) (b.seenNeedle id lsn) :=
  { h with }

theorem lookup_insert_ageless {m n : Table NeedleEntry} (k : Nat)
    (h : ∀ id, (m.lookup id).map ageless = (n.lookup id).map ageless) (hxy : ageless x = ageless y)
    (id : Nat) :
    ((m.insert k x).lookup id).map ageless = ((n.insert k y).lookup id).map ageless := by
  by_cases hk : id = k
  · subst hk
    rw [Finmap.lookup_insert, Finmap.lookup_insert]
    exact congrArg some hxy
  · rw [Finmap.lookup_insert_of_ne _ hk, Finmap.lookup_insert_of_ne _ hk]
    exact h id

theorem Alike.addNeedle (h : Alike R a b) (hxy : ageless x = ageless y) :
    Alike R (a.addNeedle x) (b.addNeedle y) := by
  obtain ⟨hid, hlen, _, _⟩ := ageless_fields hxy
  refine { h with needles := ?_, stats := ?_ }
  · show ∀ id, ((a.needles.insert x.needleId x).lookup id).map ageless =
      ((b.needles.insert y.needleId y).lookup id).map ageless
    rw [hid]
    exact lookup_insert_ageless y.needleId h.needles hxy
  · show a.stats.addLive x.dataLen = b.stats.addLive y.dataLen
    rw [h.stats, hlen]

section

variable (hR : KeptByAppend R) (h : Alike R a b)
include hR h

theorem Alike.replaceNeedle {old₁ old₂ : NeedleEntry}
    (hxy : ageless x = ageless y) (hold : ageless old₁ = ageless old₂) :
    Alike R (a.replaceNeedle old₁ x) (b.replaceNeedle old₂ y) := by
  obtain ⟨hid, hlen, _, _⟩ := ageless_fields hxy
  obtain ⟨_, hlen', _, hdead⟩ := ageless_fields hold
  refine { h with needles := ?_, deadCopies := ?_, stats := ?_ }
  · show ∀ id, ((a.needles.insert x.needleId x).lookup id).map ageless =
      ((b.needles.insert y.needleId y).lookup id).map ageless
    rw [hid]
    exact lookup_insert_ageless y.needleId h.needles hxy
  · show R (a.deadCopies ++ [old₁.toDead]) (b.deadCopies ++ [old₂.toDead])
    rw [hdead]
    exact hR _ _ _ h.deadCopies
  · show a.stats.replaceLive old₁.dataLen x.dataLen = b.stats.replaceLive old₂.dataLen y.dataLen
    rw [h.stats, hlen, hlen']

theorem Alike.buryTombstone (id : Nat) (tb : TombstoneEntry) :
    Alike R (a.buryTombstone id tb) (b.buryTombstone id tb) := by
  refine { h with tombstones := ?_, deadCopies := ?_, stats := ?_ }
  · exact congrArg (·.erase id) h.tombstones
  · exact hR _ _ _ h.deadCopies
  · exact congrArg (fun s => (s.dropStaged tb.dataLen).addGarbage tb.dataLen) h.stats

theorem Alike.bury (id : Nat) : Alike R (a.bury id) (b.bury id) := by
  unfold WalIndex.bury
  rw [h.tombstones]
  cases b.tombstones.lookup id with
  | none => exact h
  | some tb => exact h.buryTombstone hR id tb

end

theorem Alike.entomb (h : Alike R a b) (id : Nat) (hlen : x.dataLen = y.dataLen)
    (tb : TombstoneEntry) : Alike R (a.entomb id x tb) (b.entomb id y tb) := by
  refine { h with needles := ?_, tombstones := ?_, stats := ?_ }
  · intro k
    show ((a.needles.erase id).lookup k).map ageless = ((b.needles.erase id).lookup k).map ageless
    by_cases hk : k = id
    · subst hk
      rw [Finmap.lookup_erase, Finmap.lookup_erase]
    · rw [Finmap.lookup_erase_ne hk, Finmap.lookup_erase_ne hk]
      exact h.needles k
  · exact congrArg (·.insert id tb) h.tombstones
  · show (a.stats.dropLive x.dataLen).addStaged x.dataLen =
      (b.stats.dropLive y.dataLen).addStaged y.dataLen
    rw [h.stats, hlen]

/-! ## Applying records -/

section

variable (hR : KeptByAppend R) (h : Alike R a b)
include hR h

theorem Alike.installData (hxy : ageless x = ageless y) :
    Alike R (a.installData x) (b.installData y) := by
  obtain ⟨hid, _, hlsn, _⟩ := ageless_fields hxy
  unfold WalIndex.installData
  rw [h.stale, hid, hlsn, h.tombstones]
  split
  · exact h
  cases htb : b.tombstones.lookup y.needleId with
  | some tb => exact (h.buryTombstone hR y.needleId tb).addNeedle hxy
  | none =>
    rcases h.live y.needleId with ⟨ha, hb⟩ | ⟨old₁, old₂, ha, hb, hold⟩
    · rw [ha, hb]
      exact h.addNeedle hxy
    · rw [ha, hb]
      exact h.replaceNeedle hR hxy hold

/-- **The same record keeps two indexes alike**, whenever it is applied. -/
theorem Alike.apply (r : Effect) (t u : Int64) : Alike R (r.apply a t) (r.apply b u) := by
  cases r with
  | data p id dataLen =>
    have hseen := h.seenNeedle id p.lsn
    show Alike R (a.applyDataRecord p id dataLen t) (b.applyDataRecord p id dataLen u)
    unfold applyDataRecord
    dsimp only
    rw [hseen.suppressed]
    split
    · exact hseen
    have herase : Alike R
        { a.seenNeedle id p.lsn with purged := (a.seenNeedle id p.lsn).purged.erase id }
        { b.seenNeedle id p.lsn with purged := (b.seenNeedle id p.lsn).purged.erase id } :=
      { hseen with purged := congrArg (·.erase id) hseen.purged }
    exact herase.installData hR rfl
  | delete lsn id deletedAt retentionUntil =>
    have hseen := h.seen lsn
    show Alike R (a.applyDeleteRecord lsn id deletedAt retentionUntil)
      (b.applyDeleteRecord lsn id deletedAt retentionUntil)
    unfold applyDeleteRecord
    dsimp only
    rw [hseen.stale]
    split
    · exact hseen
    rcases hseen.live id with ⟨ha, hb⟩ | ⟨x, y, ha, hb, hxy⟩
    · rw [ha, hb]
      exact hseen
    rw [ha, hb]
    dsimp only
    rw [tombstoneOf_ageless hxy]
    exact hseen.entomb id (ageless_fields hxy).2.1 _
  | migrate p id expectVersion dataLen =>
    have hseen := h.seenNeedle id p.lsn
    show Alike R (a.applyGcMigrateRecord p id expectVersion dataLen t).1
      (b.applyGcMigrateRecord p id expectVersion dataLen u).1
    unfold applyGcMigrateRecord
    dsimp only
    rw [hseen.suppressed, hseen.tombstones]
    split
    · exact hseen
    cases (b.seenNeedle id p.lsn).tombstones.lookup id with
    | some tb => exact hseen
    | none =>
      rcases hseen.live id with ⟨ha, hb⟩ | ⟨x, y, ha, hb, hxy⟩
      · rw [ha, hb]
        exact hseen.addNeedle rfl
      rw [ha, hb]
      dsimp only
      rw [(ageless_fields hxy).2.2.1]
      split
      · exact hseen.replaceNeedle hR rfl hxy
      · exact hseen
  | purge lsn id =>
    have hbury := (h.seen lsn).bury hR id
    exact { hbury with purged := congrArg (markPurged · id lsn) hbury.purged }
  | volume lsn newSize => exact { h with }
  | anchor lsn ckptSeq appliedLsn =>
    obtain ⟨_, ha⟩ := a.applyCkptAnchor_eq ckptSeq appliedLsn lsn
    obtain ⟨_, hb⟩ := b.applyCkptAnchor_eq ckptSeq appliedLsn lsn
    rw [Effect.apply, Effect.apply, ha, hb]
    exact { h with }
  | nothing => exact h

/-- The same records keep two indexes alike, whatever the clock showed. -/
theorem Alike.applyRecords (c c' : Nat → Int64)
    (rs : List Located) : Alike R (applyRecords c a rs) (applyRecords c' b rs) := by
  induction rs generalizing a b with
  | nil => exact h
  | cons r rs ih =>
    refine ih ?_
    dsimp only
    rw [applyFrame_effect, applyFrame_effect]
    exact h.apply hR _ _ _

end

/-! ## The cursors -/

theorem applyRecords_lastLsn (h : a.lastLsn = b.lastLsn) (c c' : Nat → Int64) (rs : List Located) :
    (applyRecords c a rs).lastLsn = (applyRecords c' b rs).lastLsn := by
  induction rs generalizing a b with
  | nil => exact h
  | cons r rs ih =>
    refine ih ?_
    dsimp only
    rw [applyFrame_effect, applyFrame_effect, Effect.apply_lastLsn, Effect.apply_lastLsn, h]

theorem applyRecords_maxNeedleId (h : a.maxNeedleId ≤ b.maxNeedleId) (c c' : Nat → Int64)
    (rs : List Located) :
    (applyRecords c a rs).maxNeedleId ≤ (applyRecords c' b rs).maxNeedleId := by
  induction rs generalizing a b with
  | nil => exact h
  | cons r rs ih =>
    refine ih ?_
    dsimp only
    rw [applyFrame_effect, applyFrame_effect, Effect.apply_maxNeedleId, Effect.apply_maxNeedleId]
    exact max_le_max_right _ h

/-! ## No entry is beyond the cursors -/

structure Dated (idx : WalIndex) : Prop where
  needles : ∀ id n, idx.needles.lookup id = some n → n.versionLsn ≤ idx.lastLsn
  tombstones : ∀ id t, idx.tombstones.lookup id = some t → t.versionLsn ≤ idx.lastLsn
  purged : ∀ id l, idx.purged.lookup id = some l → l ≤ idx.lastLsn
  ids : ∀ id n, idx.needles.lookup id = some n → n.needleId ≤ idx.maxNeedleId

theorem empty_dated : Dated empty := by
  refine ⟨?_, ?_, ?_, ?_⟩ <;> simp [empty]

section Dated

variable {idx : WalIndex}

theorem Dated.insertNeedle (h : Dated idx) {n : NeedleEntry} (hn : n.versionLsn ≤ idx.lastLsn)
    (hid : n.needleId ≤ idx.maxNeedleId) (k : Nat) (dead : List DeadCopy) (st : IndexStats) :
    Dated { idx with needles := idx.needles.insert k n, deadCopies := dead, stats := st } := by
  refine ⟨fun id m hm => ?_, h.tombstones, h.purged, fun id m hm => ?_⟩
  · rcases lookup_insert_some hm with ⟨-, rfl⟩ | hm
    · exact hn
    · exact h.needles id m hm
  · rcases lookup_insert_some hm with ⟨-, rfl⟩ | hm
    · exact hid
    · exact h.ids id m hm

theorem Dated.buryTombstone (h : Dated idx) (id : Nat) (tb : TombstoneEntry) :
    Dated (idx.buryTombstone id tb) :=
  ⟨h.needles, fun k t ht => h.tombstones k t (lookup_erase_some ht), h.purged, h.ids⟩

theorem Dated.entomb (h : Dated idx) (id : Nat) (active : NeedleEntry) {tb : TombstoneEntry}
    (htb : tb.versionLsn ≤ idx.lastLsn) : Dated (idx.entomb id active tb) := by
  refine ⟨fun k n hn => h.needles k n (lookup_erase_some hn), ?_, h.purged,
    fun k n hn => h.ids k n (lookup_erase_some hn)⟩
  intro k t ht
  rcases lookup_insert_some ht with ⟨-, rfl⟩ | ht
  · exact htb
  · exact h.tombstones k t ht

/-- Nothing that a record puts into the tables is newer than the record. -/
theorem Dated.record {lsn id : Nat} {out : WalIndex} (h : Dated idx)
    (hrec : WalIndex.Recorded lsn id idx out) : Dated out := by
  obtain ⟨idx', hs, hm⟩ := hrec
  have hold : idx.lastLsn ≤ idx'.lastLsn := hs.lastLsn ▸ le_max_left _ _
  have hnew : lsn ≤ idx'.lastLsn := hs.lastLsn ▸ le_max_right _ _
  have hseen : Dated idx' := by
    refine ⟨fun k n hn => ?_, fun k t ht => ?_, fun k l hl => ?_, fun k n hn => ?_⟩
    · exact le_trans (h.needles k n (hs.needles ▸ hn)) hold
    · exact le_trans (h.tombstones k t (hs.tombstones ▸ ht)) hold
    · rcases hs.purged k l hl with hl | rfl
      · exact le_trans (h.purged k l hl) hold
      refine max_le ?_ hnew
      cases hm : idx.purged.lookup k with
      | none => exact Nat.zero_le _
      | some m => exact le_trans (h.purged k m hm) hold
    · exact le_trans (h.ids k n (hs.needles ▸ hn)) (hs.maxNeedleId ▸ le_max_left _ _)
  cases hm with
  | nothing => exact hseen
  | add e _ _ hv hid => exact hseen.insertNeedle (hv.trans_le hnew) hid _ _ _
  | replace old e _ hv hid => exact hseen.insertNeedle (hv.trans_le hnew) hid _ _ _
  | bury id tb => exact hseen.buryTombstone id tb
  | revive tb e _ hv hid =>
    exact (hseen.buryTombstone _ tb).insertNeedle (hv.trans_le hnew) hid _ _ _
  | entomb id active tb _ _ _ hv => exact hseen.entomb id active (hv.trans_le hnew)

theorem Dated.apply (h : Dated idx) (r : Effect) (t : Int64) : Dated (r.apply idx t) := by
  obtain ⟨size, hrec⟩ := r.recorded idx t
  have hsized : Dated (idx.setVolumeSize size) := { h with }
  exact hsized.record hrec

end Dated

/-! ## Checkpoints bring the index back -/

theorem foldl_max_le {α : Type} (f : α → Nat) (xs : List α) {init bound : Nat}
    (hinit : init ≤ bound) (h : ∀ x ∈ xs, f x ≤ bound) :
    xs.foldl (fun l x => max l (f x)) init ≤ bound := by
  induction xs generalizing init with
  | nil => exact hinit
  | cons x xs ih =>
    exact ih (max_le hinit (h x (by simp))) fun y hy => h y (by simp [hy])

theorem mem_values (o : HashOrder) {V : Type} {m : Table V} {v : V} (h : v ∈ o.values m) :
    ∃ k, m.lookup k = some v := by
  obtain ⟨⟨k, w⟩, he, rfl⟩ := List.mem_map.mp h
  exact ⟨k, mem_toList.mp ((o.perm m).mem_iff.mp he)⟩

/-- **A checkpoint of an index, loaded with the cursor it was taken at, is alike.** -/
theorem loaded_alike (o : HashOrder) (header : CkptHeader) (segs : List CkptSegEntry)
    {idx : WalIndex} (hc : Consistent idx) (hd : Dated idx) :
    Alike Eq ((intoIndex (build o header segs idx)).advanceReplayCursor idx.lastLsn) idx ∧
    ((intoIndex (build o header segs idx)).advanceReplayCursor idx.lastLsn).lastLsn =
      idx.lastLsn ∧
    (intoIndex (build o header segs idx)).volumeSize = idx.volumeSize ∧
    (intoIndex (build o header segs idx)).maxNeedleId ≤ idx.maxNeedleId := by
  rw [intoIndex_build o header segs hc]
  refine ⟨⟨fun _ => rfl, rfl, rfl, rfl, rfl⟩, ?_, rfl, foldl_max_le _ _ (Nat.zero_le _)
    fun n hn => ?_⟩
  rotate_left
  · obtain ⟨k, hk⟩ := mem_values o hn
    exact hd.ids k n hk
  refine max_eq_right
    (foldl_max_le _ _ (foldl_max_le _ _ (foldl_max_le _ _ (Nat.zero_le _) ?_) ?_) ?_)
  · intro n hn
    obtain ⟨k, hk⟩ := mem_values o hn
    exact hd.needles k n hk
  · intro t ht
    obtain ⟨k, hk⟩ := mem_values o ht
    exact hd.tombstones k t hk
  · rintro ⟨k, l⟩ hl
    exact hd.purged k l (mem_toList.mp ((o.perm idx.purged).mem_iff.mp hl))

/-! ## The capacity -/

/-- The capacity that a record sets. -/
def newSize : Effect → Option Nat
  | .volume _ size => some size
  | _ => none

theorem apply_volumeSize (r : Effect) (idx : WalIndex) (t : Int64) :
    (r.apply idx t).volumeSize = (newSize r).getD idx.volumeSize := by
  cases r with
  | data => exact (idx.applyDataRecord_recorded ..).volumeSize
  | delete => exact (idx.applyDeleteRecord_recorded ..).volumeSize
  | migrate => exact (idx.applyGcMigrateRecord_recorded ..).volumeSize
  | purge => exact (idx.applyTombPurgeRecord_recorded ..).volumeSize
  | volume | nothing => rfl
  | anchor => exact (idx.applyCkptAnchor_recorded ..).volumeSize

/-- The capacity after records, for a volume that started with `size`. -/
def sizeAfter (size : Nat) (rs : List Located) : Nat :=
  rs.foldl (fun size r => (newSize (effectOf r.1 r.2)).getD size) size

theorem sizeAfter_append (size : Nat) (rs qs : List Located) :
    sizeAfter size (rs ++ qs) = sizeAfter (sizeAfter size rs) qs := by
  simp [sizeAfter]

theorem applyRecords_volumeSize (c : Nat → Int64) (idx : WalIndex) (rs : List Located) :
    (applyRecords c idx rs).volumeSize = sizeAfter idx.volumeSize rs := by
  induction rs generalizing idx with
  | nil => rfl
  | cons r rs ih =>
    refine (ih _).trans ?_
    dsimp only
    rw [applyFrame_effect, apply_volumeSize]
    rfl

/-- Records that never set the capacity to zero set it, or leave the start value. -/
theorem sizeAfter_eq {rs : List Located}
    (h : ∀ r ∈ rs, newSize (effectOf r.1 r.2) ≠ some 0) (size : Nat) :
    sizeAfter size rs = if sizeAfter 0 rs = 0 then size else sizeAfter 0 rs := by
  induction rs using List.reverseRecOn generalizing size with
  | nil => rfl
  | append_singleton rs r ih =>
    have hrs := ih (fun q hq => h q (by simp [hq])) size
    rw [sizeAfter_append, sizeAfter_append]
    cases hr : newSize (effectOf r.1 r.2) with
    | none =>
      have hkeep : ∀ v, sizeAfter v [r] = v := fun v => by simp [sizeAfter, hr]
      rw [hkeep, hkeep, hrs]
    | some s =>
      have hs : s ≠ 0 := fun h0 => h r (by simp) (by rw [hr, h0])
      have hset : ∀ v, sizeAfter v [r] = s := fun v => by simp [sizeAfter, hr]
      rw [hset, hset, if_neg hs]

end PowerFS.Wal.IndexAlike
