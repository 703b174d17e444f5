import PowerFS.Wal.Checkpoint

/-! # The accounting invariant of the index

The statistics are redundant: they are the totals of the tables. `Books` states
this together with what keeps it true, that every entry is stored under its own id
and that no id is both live and tombstoned. Each move of bytes between the accounts
preserves it, so each operation does, and an index rebuilt from a checkpoint has it
again. -/
namespace PowerFS.Wal.IndexAccounting
open Lib.ByteString Lib.FinTable Index Checkpoint List IndexStats WalIndex

def deadBytes (dead : List DeadCopy) : Nat := (dead.map (·.dataLen)).sum

/-- The statistics `st` are the books of the tables. -/
structure Books (needles : Table NeedleEntry) (tombstones : Table TombstoneEntry)
    (dead : List DeadCopy) (st : IndexStats) : Prop where
  needleKey : ∀ k e, needles.lookup k = some e → e.needleId = k
  tombstoneKey : ∀ k t, tombstones.lookup k = some t → t.needleId = k
  disjoint : ∀ k, needles.lookup k = none ∨ tombstones.lookup k = none
  used : st.usedBytes = total (·.dataLen) needles
  staging : st.stagingBytes = total (·.dataLen) tombstones
  garbage : st.garbageBytes = deadBytes dead
  pinned : st.pinnedBytes = 0
  active : st.activeCount = size needles
  deleted : st.deletedCount = size tombstones
  noUnderflow : st.underflow = false

/-- The invariant I4 of the index. -/
def Consistent (idx : WalIndex) : Prop :=
  Books idx.needles idx.tombstones idx.deadCopies idx.stats

theorem empty_consistent : Consistent empty :=
  ⟨by simp [empty], by simp [empty], by simp [empty], rfl, rfl, rfl, rfl, rfl, rfl, rfl⟩

/-- The tables determine the statistics. -/
theorem Books.stats_eq {n : Table NeedleEntry} {t : Table TombstoneEntry}
    {d d' : List DeadCopy} {st st' : IndexStats} (h : Books n t d st) (h' : Books n t d' st')
    (hd : deadBytes d = deadBytes d') : st = st' := by
  obtain ⟨_, _, _, h1, h2, h3, h4, h5, h6, h7⟩ := h
  obtain ⟨_, _, _, g1, g2, g3, g4, g5, g6, g7⟩ := h'
  cases st
  cases st'
  simp_all

theorem deadBytes_filter (dead : List DeadCopy) (p : DeadCopy → Bool) :
    deadBytes dead = deadBytes (dead.filter p) + deadBytes (dead.filter fun x => !p x) := by
  induction dead with
  | nil => rfl
  | cons x dead ih =>
    cases hp : p x with
    | true | false =>
      simp only [deadBytes, filter_cons, hp] at ih ⊢
      simp
      omega

theorem deadBytes_concat (dead : List DeadCopy) (d : DeadCopy) :
    deadBytes (dead ++ [d]) = deadBytes dead + d.dataLen := by
  simp [deadBytes]

/-! ## The moves keep the books -/

section Moves

variable {n : Table NeedleEntry} {t : Table TombstoneEntry} {d : List DeadCopy} {st : IndexStats}

section

variable (h : Books n t d st)
include h

theorem Books.addLive (e : NeedleEntry) (hn : n.lookup e.needleId = none)
    (ht : t.lookup e.needleId = none) :
    Books (n.insert e.needleId e) t d (st.addLive e.dataLen) := by
  obtain ⟨hkn, hkt, hdis, h1, h2, h3, h4, h5, h6, h7⟩ := h
  refine ⟨lookup_insert_key hkn rfl, hkt, ?_, ?_, h2, h3, h4, ?_, h6, h7⟩
  · intro k
    by_cases hk : k = e.needleId
    · subst hk; exact .inr ht
    · rw [Finmap.lookup_insert_of_ne _ hk]; exact hdis k
  · rw [total_insert_new _ e hn]
    simp only [IndexStats.addLive]
    omega
  · rw [size_insert_new e hn]
    simp only [IndexStats.addLive]
    omega

variable {e : NeedleEntry} {k : Nat} {tb : TombstoneEntry}

theorem Books.replaceLive {old : NeedleEntry} (hn : n.lookup e.needleId = some old) :
    Books (n.insert e.needleId e) t (d ++ [old.toDead]) (st.replaceLive old.dataLen e.dataLen) := by
  obtain ⟨hkn, hkt, hdis, h1, h2, h3, h4, h5, h6, h7⟩ := h
  have hle : old.dataLen ≤ st.usedBytes := by
    rw [h1]
    exact le_total (·.dataLen) hn
  have htot := total_insert_old (·.dataLen) e hn
  refine ⟨lookup_insert_key hkn rfl, hkt, ?_, ?_, h2, ?_, h4, ?_, h6, ?_⟩
  · intro k
    by_cases hk : k = e.needleId
    · subst hk
      obtain hnone | hnone := hdis e.needleId
      · rw [hn] at hnone; cases hnone
      · exact .inr hnone
    · rw [Finmap.lookup_insert_of_ne _ hk]; exact hdis k
  · simp only [IndexStats.replaceLive]
    omega
  · rw [deadBytes_concat, IndexStats.replaceLive, h3]
    rfl
  · rw [size_insert_old e hn]; exact h5
  · simp [IndexStats.replaceLive, h7, hle]

theorem Books.buryTombstone (ht : t.lookup k = some tb) :
    Books n (t.erase k) (d ++ [tb.toDead]) ((st.dropStaged tb.dataLen).addGarbage tb.dataLen) := by
  obtain ⟨hkn, hkt, hdis, h1, h2, h3, h4, h5, h6, h7⟩ := h
  have htot := total_erase (·.dataLen) ht
  have hsize := size_erase ht
  refine ⟨hkn, fun x w hw => hkt x w (lookup_erase_some hw), ?_, h1, ?_, ?_, h4, h5, ?_, ?_⟩
  · intro x
    obtain hx | hx := hdis x
    · exact .inl hx
    · exact .inr (lookup_erase_none hx)
  · simp only [dropStaged, addGarbage]
    omega
  · rw [deadBytes_concat, addGarbage, dropStaged, h3]
    rfl
  · simp only [dropStaged, addGarbage]
    omega
  · have hone : 1 ≤ st.deletedCount := by omega
    have hle : tb.dataLen ≤ st.stagingBytes := by omega
    simp [dropStaged, addGarbage, h7, hle]
    omega

theorem Books.entomb (hn : n.lookup k = some e) (hkey : tb.needleId = k)
    (hlen : tb.dataLen = e.dataLen) :
    Books (n.erase k) (t.insert k tb) d ((st.dropLive e.dataLen).addStaged e.dataLen) := by
  obtain ⟨hkn, hkt, hdis, h1, h2, h3, h4, h5, h6, h7⟩ := h
  have htn := total_erase (·.dataLen) hn
  have hsn := size_erase hn
  have ht : t.lookup k = none := by
    obtain hk | hk := hdis k
    · rw [hn] at hk; cases hk
    · exact hk
  have htt := total_insert_new (·.dataLen) tb ht
  have hst := size_insert_new tb ht
  refine ⟨fun x w hw => hkn x w (lookup_erase_some hw), lookup_insert_key hkt hkey, ?_,
    ?_, ?_, h3, h4, ?_, ?_, ?_⟩
  · intro x
    by_cases hx : x = k
    · subst hx; exact .inl (Finmap.lookup_erase x n)
    · rw [Finmap.lookup_erase_ne hx, Finmap.lookup_insert_of_ne _ hx]; exact hdis x
  · simp only [dropLive, addStaged]
    omega
  · simp only [dropLive, addStaged]
    omega
  · simp only [dropLive, addStaged]
    omega
  · simp only [dropLive, addStaged]
    omega
  · have hone : 1 ≤ st.activeCount := by omega
    have hle : e.dataLen ≤ st.usedBytes := by omega
    simp [dropLive, addStaged, h7, hle]
    omega

/-- Bringing a tombstone back is burying it without the burial. -/
theorem Books.revive (ht : t.lookup k = some tb) (hkey : e.needleId = k)
    (hlen : e.dataLen = tb.dataLen) :
    Books (n.insert k e) (t.erase k) d ((st.dropStaged tb.dataLen).addLive tb.dataLen) := by
  have hn : n.lookup k = none := by
    obtain hk | hk := h.disjoint k
    · exact hk
    · rw [ht] at hk; cases hk
  obtain ⟨hkn, hkt, hdis, h1, h2, _, h4, h5, h6, h7⟩ := h.buryTombstone ht
  have hbare : Books n (t.erase k) d (st.dropStaged tb.dataLen) :=
    ⟨hkn, hkt, hdis, h1, h2, h.garbage, h4, h5, h6, h7⟩
  have hlive := hbare.addLive e (by rw [hkey]; exact hn)
    (by rw [hkey]; exact Finmap.lookup_erase k t)
  rwa [hkey, hlen] at hlive

end

end Moves

/-! ## The operations keep the books -/

variable {idx : WalIndex}

/-- A record keeps the books. -/
theorem Consistent.record {lsn id : Nat} {out : WalIndex} (h : Consistent idx)
    (hrec : WalIndex.Recorded lsn id idx out) : Consistent out := by
  obtain ⟨idx', hs, hm⟩ := hrec
  have hseen : Consistent idx' := by
    unfold Consistent
    rw [hs.needles, hs.tombstones, hs.deadCopies, hs.stats]
    exact h
  cases hm with
  | nothing => exact hseen
  | add e hn ht => exact hseen.addLive e hn ht
  | replace old e hn => exact hseen.replaceLive hn
  | bury id tb ht => exact hseen.buryTombstone ht
  | revive tb e ht =>
    have hn : idx'.needles.lookup e.needleId = none := by
      obtain hn | hn := hseen.disjoint e.needleId
      · exact hn
      · rw [ht] at hn; cases hn
    exact (hseen.buryTombstone ht).addLive e hn (Finmap.lookup_erase _ _)
  | entomb id active tb hn hkey hlen => exact hseen.entomb hn hkey hlen

theorem bury_consistent (h : Consistent idx) (needleId : Nat) : Consistent (idx.bury needleId) := by
  unfold bury
  split
  · rename_i tb ht
    exact h.buryTombstone ht
  · exact h

theorem restore_consistent (h : Consistent idx) (needleId : Nat) :
    Consistent (idx.restore needleId).1 := by
  unfold restore
  split
  · exact h
  · rename_i tb ht
    exact h.revive ht (h.tombstoneKey needleId tb ht) rfl

theorem purgeExpired_consistent (o : HashOrder) (h : Consistent idx) (now : Int64) :
    Consistent (idx.purgeExpired o now).1 := by
  have aux : ∀ (ids : List Nat) (idx : WalIndex), Consistent idx →
      Consistent (ids.foldl bury idx) := by
    intro ids
    induction ids with
    | nil => exact fun _ h => h
    | cons k ids ih => exact fun idx h => ih _ (bury_consistent h k)
  exact aux _ idx h

theorem removeSegGarbage_consistent (h : Consistent idx) (segId : Nat) :
    Consistent (idx.removeSegGarbage segId).1 := by
  obtain ⟨hkn, hkt, hdis, h1, h2, h3, h4, h5, h6, h7⟩ := h
  have hsum := deadBytes_filter idx.deadCopies fun d => decide (d.segId = segId)
  have hneg : (fun d : DeadCopy => !decide (d.segId = segId)) =
      fun d => decide (d.segId ≠ segId) := by
    funext d
    simp
  rw [hneg] at hsum
  have hle : deadBytes (idx.deadCopies.filter fun d => decide (d.segId = segId)) ≤
      idx.stats.garbageBytes := by omega
  refine ⟨hkn, hkt, hdis, h1, h2, ?_, h4, h5, h6, ?_⟩
  · show idx.stats.garbageBytes -
      deadBytes (idx.deadCopies.filter fun d => decide (d.segId = segId)) =
      deadBytes (idx.deadCopies.filter fun d => decide (d.segId ≠ segId))
    omega
  · show (idx.stats.underflow || decide (idx.stats.garbageBytes <
      deadBytes (idx.deadCopies.filter fun d => decide (d.segId = segId)))) = false
    rw [h7]
    simpa using hle

/-! ## Checkpoints give the tables back -/

theorem values_keyed (o : HashOrder) {V : Type} {key : V → Nat} {m : Table V}
    (hkey : ∀ k v, m.lookup k = some v → key v = k) :
    (o.values m).map (fun v => (key v, v)) = o.entries m := by
  rw [HashOrder.values, map_map]
  conv_rhs => rw [← map_id (o.entries m)]
  refine map_congr_left ?_
  intro e he
  have hmem := mem_toList.mp ((o.perm m).mem_iff.mp he)
  simp [hkey e.1 e.2 hmem]

/-- Inserting the values of a table, in any order, gives the table back. -/
theorem values_rebuild (o : HashOrder) {V : Type} {key : V → Nat} {m : Table V}
    (hkey : ∀ k v, m.lookup k = some v → key v = k) :
    (o.values m).foldl (fun m v => m.insert (key v) v) ∅ = m ∧
    (∀ f : V → Nat, ((o.values m).map f).sum = total f m) ∧ (o.values m).length = size m := by
  obtain ⟨hnd, hm⟩ := ofPairs_toList (o.perm m)
  have hsum : ∀ f : V → Nat, ((o.values m).map f).sum = total f m := by
    intro f
    conv_rhs => rw [← hm]
    rw [total_ofPairs f hnd, HashOrder.values, map_map]
    rfl
  refine ⟨?_, hsum, ?_⟩
  · rw [← ofPairs_map, values_keyed o hkey, hm]
  · rw [size_eq_total, ← hsum]
    simp

theorem foldl_loadNeedle (ns : List NeedleEntry) (idx : WalIndex) :
    ns.foldl loadNeedle idx = { idx with
      needles := ns.foldl (fun m n => m.insert n.needleId n) idx.needles
      stats := { idx.stats with
        usedBytes := idx.stats.usedBytes + (ns.map (·.dataLen)).sum
        activeCount := idx.stats.activeCount + ns.length }
      lastLsn := ns.foldl (fun l n => max l n.versionLsn) idx.lastLsn
      maxNeedleId := ns.foldl (fun l n => max l n.needleId) idx.maxNeedleId } := by
  induction ns generalizing idx with
  | nil => rfl
  | cons n ns ih =>
    rw [foldl_cons, ih]
    simp only [loadNeedle, seenNeedle, addNeedle, addLive,
      foldl_cons, map_cons, sum_cons, length_cons]
    congr 2 <;> omega

theorem foldl_loadTombstone (ts : List TombstoneEntry) (idx : WalIndex) :
    ts.foldl loadTombstone idx = { idx with
      tombstones := ts.foldl (fun m t => m.insert t.needleId t) idx.tombstones
      stats := { idx.stats with
        stagingBytes := idx.stats.stagingBytes + (ts.map (·.dataLen)).sum
        deletedCount := idx.stats.deletedCount + ts.length }
      lastLsn := ts.foldl (fun l t => max l t.versionLsn) idx.lastLsn } := by
  induction ts generalizing idx with
  | nil => rfl
  | cons t ts ih =>
    rw [foldl_cons, ih]
    simp only [loadTombstone, addStaged, foldl_cons, map_cons, sum_cons, length_cons]
    congr 2 <;> omega

theorem foldl_loadDead (ds : List DeadCopy) (idx : WalIndex) :
    ds.foldl loadDead idx = { idx with
      deadCopies := idx.deadCopies ++ ds
      stats := { idx.stats with garbageBytes := idx.stats.garbageBytes + deadBytes ds } } := by
  induction ds generalizing idx with
  | nil => simp [deadBytes]
  | cons d ds ih =>
    rw [foldl_cons, ih]
    simp only [loadDead, addGarbage, deadBytes, map_cons, sum_cons, append_assoc, singleton_append]
    congr 2
    omega

theorem foldl_loadPurged (ps : List (Nat × Nat)) (idx : WalIndex) :
    ps.foldl loadPurged idx = { idx with
      lastLsn := ps.foldl (fun l e => max l e.2) idx.lastLsn
      purged := ps.foldl (fun m e => markPurged m e.1 e.2) idx.purged } := by
  induction ps generalizing idx with
  | nil => rfl
  | cons e ps ih => rw [foldl_cons, ih]; rfl

/-- Markers of distinct ids are just inserted. -/
theorem foldl_markPurged {ps : List (Nat × Nat)} (h : (ps.map Prod.fst).Nodup) :
    ps.foldl (fun m e => markPurged m e.1 e.2) ∅ = ofPairs ps := by
  induction ps using reverseRecOn with
  | nil => rfl
  | append_singleton ps e ih =>
    obtain ⟨hps, hnew⟩ := nodup_concat h
    have hnone : (ofPairs ps).lookup e.1 = none := by
      rw [Option.eq_none_iff_forall_not_mem]
      exact fun v hv => hnew v ((lookup_ofPairs hps).mp hv)
    rw [foldl_append, ih hps, ofPairs_concat]
    simp [markPurged, hnone]

/-- The index that loading a checkpoint gives: everything but the cursors and the
anchor comes back. -/
def reloaded (o : HashOrder) (idx : WalIndex) : WalIndex :=
  { idx with
    lastLsn := (o.entries idx.purged).foldl (fun l e => max l e.2)
      ((o.values idx.tombstones).foldl (fun l t => max l t.versionLsn)
        ((o.values idx.needles).foldl (fun l n => max l n.versionLsn) 0))
    maxNeedleId := (o.values idx.needles).foldl (fun l n => max l n.needleId) 0
    lastCkptAnchor := none }

theorem intoIndex_build (o : HashOrder) (header : CkptHeader) (segs : List CkptSegEntry)
    (h : Consistent idx) : intoIndex (build o header segs idx) = reloaded o idx := by
  obtain ⟨hkn, hkt, hdis, h1, h2, h3, h4, h5, h6, h7⟩ := h
  obtain ⟨hneedles, hused, hactive⟩ := values_rebuild o hkn
  obtain ⟨htombs, hstaging, hdeleted⟩ := values_rebuild o hkt
  obtain ⟨hndp, hp⟩ := ofPairs_toList (o.perm idx.purged)
  simp only [intoIndex, build, loadFrom, foldl_loadNeedle, foldl_loadTombstone,
    foldl_loadDead, foldl_loadPurged, empty, zero, hneedles, htombs, hused,
    hstaging, hactive, hdeleted, foldl_markPurged hndp, hp, setVolumeSize, reloaded,
    nil_append, Nat.zero_add]
  rw [← h1, ← h2, ← h3, ← h4, ← h5, ← h6, ← h7]

theorem reloaded_consistent (o : HashOrder) (h : Consistent idx) : Consistent (reloaded o idx) := h

/-! ## Runs of operations -/

/-- The operations of the index that carry or move bytes, with every argument the
callers can pass, and the replacement of the index by one rebuilt from a
checkpoint of it. -/
inductive Op where
  | applyData (p : WalIndex.Place) (payload : Bytes) (now : Int64)
  | applyDelete (lsn : Nat) (payload : Bytes)
  | applyGcMigrate (p : WalIndex.Place) (payload : Bytes) (now : Int64)
  | restore (needleId : Nat)
  | applyTombPurge (lsn : Nat) (payload : Bytes)
  | purgeExpired (o : HashOrder) (now : Int64)
  | removeSegGarbage (segId : Nat)
  | applyVolumeMeta (lsn : Nat) (payload : Bytes)
  | reload (o : HashOrder) (header : CkptHeader) (segs : List CkptSegEntry)

/-- The index an operation leaves, and its error if it returned one. -/
def Op.run (idx : WalIndex) : Op → WalIndex × Except IndexError Unit
  | .applyData p payload now => idx.applyData p payload now
  | .applyDelete lsn payload => idx.applyDelete lsn payload
  | .applyGcMigrate p payload now =>
    let out := idx.applyGcMigrate p payload now
    (out.1, out.2.map fun _ => ())
  | .restore needleId => idx.restore needleId
  | .applyTombPurge lsn payload => idx.applyTombPurge lsn payload
  | .purgeExpired o now => ((idx.purgeExpired o now).1, .ok ())
  | .removeSegGarbage segId => ((idx.removeSegGarbage segId).1, .ok ())
  | .applyVolumeMeta lsn payload =>
    let out := idx.applyVolumeMeta lsn payload
    (out.1, out.2.map fun _ => ())
  | .reload o header segs => (intoIndex (build o header segs idx), .ok ())

def runOps (ops : List Op) : WalIndex :=
  ops.foldl (fun idx op => (op.run idx).1) WalIndex.empty

/-- An operation either fails and returns the index it was given, or succeeds and
keeps the books. -/
theorem op_cases (idx : WalIndex) (op : Op) :
    (∃ e, op.run idx = (idx, .error e)) ∨
    ((op.run idx).2 = .ok () ∧ (Consistent idx → Consistent (op.run idx).1)) := by
  cases op with
  | applyData p payload now =>
    obtain ⟨e, he⟩ | ⟨_, hok⟩ := idx.applyData_cases p payload now
    · exact .inl ⟨e, he⟩
    · rw [Op.run, hok]
      exact .inr ⟨rfl, fun h => h.record (idx.applyDataRecord_recorded ..)⟩
  | applyDelete lsn payload =>
    obtain ⟨e, he⟩ | ⟨_, hok⟩ := idx.applyDelete_cases lsn payload
    · exact .inl ⟨e, he⟩
    · rw [Op.run, hok]
      exact .inr ⟨rfl, fun h => h.record (idx.applyDeleteRecord_recorded ..)⟩
  | applyGcMigrate p payload now =>
    obtain ⟨e, he⟩ | ⟨_, out, hout, hok⟩ := idx.applyGcMigrate_cases p payload now
    · exact .inl ⟨e, by rw [Op.run, he]; rfl⟩
    · rw [Op.run, hok, hout]
      exact .inr ⟨rfl, fun h => h.record (idx.applyGcMigrateRecord_recorded ..)⟩
  | restore needleId =>
    refine .inr ⟨?_, fun h => restore_consistent h needleId⟩
    unfold Op.run restore
    dsimp only
    split <;> rfl
  | applyTombPurge lsn payload =>
    obtain ⟨e, he⟩ | ⟨_, hok⟩ := idx.applyTombPurge_cases lsn payload
    · exact .inl ⟨e, he⟩
    · rw [Op.run, hok]
      exact .inr ⟨rfl, fun h => h.record (idx.applyTombPurgeRecord_recorded ..)⟩
  | purgeExpired o now => exact .inr ⟨rfl, fun h => purgeExpired_consistent o h now⟩
  | removeSegGarbage segId => exact .inr ⟨rfl, fun h => removeSegGarbage_consistent h segId⟩
  | applyVolumeMeta lsn payload =>
    obtain ⟨e, he⟩ | ⟨newSize, hok⟩ := idx.applyVolumeMeta_cases lsn payload
    · exact .inl ⟨e, by rw [Op.run, he]; rfl⟩
    · rw [Op.run, hok]
      exact .inr ⟨rfl, fun h => h⟩
  | reload o header segs =>
    refine .inr ⟨rfl, fun h => ?_⟩
    rw [Op.run, intoIndex_build o header segs h]
    exact reloaded_consistent o h

theorem runOps_consistent (ops : List Op) : Consistent (runOps ops) := by
  induction ops using reverseRecOn with
  | nil => exact empty_consistent
  | append_singleton ops op ih =>
    rw [runOps, foldl_append]
    obtain ⟨e, he⟩ | ⟨_, hkeep⟩ := op_cases (runOps ops) op
    · show Consistent (op.run (runOps ops)).1
      rw [he]
      exact ih
    · exact hkeep ih

/-- **Index accounting.** In whatever order the operations are applied, with whatever
payloads, the statistics are the totals of the tables, no id is both live and
tombstoned, and no subtraction has gone below zero. An operation that returns an
error leaves the index as it was. -/
theorem index_accounting (ops : List Op) :
    let idx := runOps ops
    (∀ id, idx.needles.lookup id = none ∨ idx.tombstones.lookup id = none) ∧
    idx.stats.usedBytes = total (·.dataLen) idx.needles ∧
    idx.stats.stagingBytes = total (·.dataLen) idx.tombstones ∧
    idx.stats.garbageBytes = (idx.deadCopies.map (·.dataLen)).sum ∧
    idx.stats.activeCount = size idx.needles ∧
    idx.stats.deletedCount = size idx.tombstones ∧
    idx.stats.underflow = false ∧
    ∀ (op : Op) (e : IndexError), (op.run idx).2 = .error e → (op.run idx).1 = idx := by
  have h := runOps_consistent ops
  refine ⟨h.disjoint, h.used, h.staging, h.garbage, h.active, h.deleted, h.noUnderflow, ?_⟩
  intro op e he
  obtain ⟨e', herr⟩ | ⟨hok, _⟩ := op_cases (runOps ops) op
  · rw [herr]
  · rw [hok] at he; cases he

end PowerFS.Wal.IndexAccounting
