import PowerFS.OrSet.Convergence

/-! # Synchronisation by deltas

A replica asks another one for the deltas that its own vector clock does not dominate. That
misses nothing as long as the counter of a client moves with the operations of that client
only: then a clock that has reached a delta belongs to a replica that knows the delta.
`remove` counts under the client of the entry, whoever removes it. -/
namespace PowerFS.OrSet.DeltaSync
open Lib.StepRuns Directory Convergence

variable {ρ : Type}

/-- A replica, and the deltas it has generated or recorded. The client that generated a
delta is a ghost. -/
structure Peer (ρ : Type) where
  set : DirORSet ρ
  deltaLog : List (UInt64 × DeltaOp ρ)

abbrev Peers (ρ : Type) := UInt64 → Peer ρ

def start : Peers ρ := fun _ => ⟨.new, []⟩

inductive Event (ρ : Type) where
  | operate (client : UInt64) (op : Op ρ)
  | sync (a b : UInt64)

section Sync

variable (clients : List UInt64) (find : DirORSet ρ → DeltaOp ρ → Option EntryId)

/-- The counters of other clients are zero in all clocks. -/
def dominates (c other : VectorClock) : Bool :=
  clients.all (fun x => decide (other x ≤ c x)) && clients.any fun x => decide (other x < c x)

def getDeltasSince (p : Peer ρ) (since : VectorClock) : List (UInt64 × DeltaOp ρ) :=
  p.deltaLog.filter fun d => !dominates clients since d.2.vclock

/-- Apply the delta and record it; `find` is the search by inode. -/
def Peer.receive (p : Peer ρ) (d : UInt64 × DeltaOp ρ) : Peer ρ :=
  ⟨applyDelta (find p.set d.2) p.set d.2, p.deltaLog ++ [d]⟩

/-- Replica `b` after it has applied the deltas of `a` since its own clock. -/
def synced (s : Peers ρ) (a b : UInt64) : Peer ρ :=
  (getDeltasSince clients (s a) (s b).set.vclock).foldl (Peer.receive find) (s b)

def step (s : Peers ρ) : Event ρ → Peers ρ
  | .operate c op =>
    match perform (s c).set op with
    | none => s
    | some (set, delta) => Function.update s c ⟨set, (s c).deltaLog ++ [(c, delta)]⟩
  | .sync a b => Function.update s b (synced clients find s a b)

/-- Everyone writes under their own client id, and removes what they see. -/
def Legal (s : Peers ρ) : Event ρ → Prop
  | .operate c op => c ∈ clients ∧
    match op with
    | .add entry => entry.id.clientId = c
    | .remove id => (s c).set.entries id ≠ none
    | .renameEntry _ _ clientId _ => clientId = c
    | .updateAttr _ _ clientId _ => clientId = c
  | .sync _ _ => True

end Sync

/-- An entry is removed under the client that made it, and an identity that has been removed
is not given again by a rename. -/
def Owned (s : Peers ρ) : Event ρ → Prop
  | .operate c (.remove id) => id.clientId = c
  | .operate c (.renameEntry oldId newName clientId _) =>
    newId (s c).set newName clientId ∉ insert oldId (s c).set.tombstones
  | _ => True

/-- What was removed at `a` is not in `b'`, what is at `a` and not removed at `b` is. -/
def Complete (a b b' : DirORSet ρ) : Prop :=
  (∀ id ∈ a.tombstones, b'.entries id = none) ∧
  ∀ id, a.entries id ≠ none → id ∉ b.tombstones → b'.entries id ≠ none

/-! ## What the deltas tell -/

def Introduced (log : List (UInt64 × DeltaOp ρ)) (id : EntryId) : Prop :=
  ∃ d ∈ log, ∃ e, d.2.introduced = some e ∧ e.id = id

def Buried (log : List (UInt64 × DeltaOp ρ)) (id : EntryId) : Prop :=
  ∃ d ∈ log, d.2.removed = some id

/-- A replica has what its deltas introduced and did not remove. -/
structure Told (p : Peer ρ) : Prop where
  tombstones : ∀ id, id ∈ p.set.tombstones ↔ Buried p.deltaLog id
  entries : ∀ id, p.set.entries id ≠ none ↔
    Introduced p.deltaLog id ∧ ¬ Buried p.deltaLog id

variable {log : List (UInt64 × DeltaOp ρ)} {p : Peer ρ} {d : UInt64 × DeltaOp ρ} {id : EntryId}

theorem introduced_append : Introduced (log ++ [d]) id ↔
    Introduced log id ∨ ∃ e, d.2.introduced = some e ∧ e.id = id := by
  simp [Introduced, or_and_right, exists_or]

theorem buried_append : Buried (log ++ [d]) id ↔ Buried log id ∨ d.2.removed = some id := by
  simp [Buried, or_and_right, exists_or]

/-- A delta adds what it introduces unless that is removed, before or by itself. -/
theorem applyDelta_present {s : DirORSet ρ} {found : Option EntryId} (d : DeltaOp ρ)
    (h : ∀ id, s.entries id ≠ none → id ∉ s.tombstones) (id : EntryId) :
    (applyDelta found s d).entries id ≠ none ↔
      (s.entries id ≠ none ∨ ∃ e, d.introduced = some e ∧ e.id = id) ∧
      ¬ (id ∈ s.tombstones ∨ d.removed = some id) := by
  have hlive := h id
  cases d with
  | add | rename =>
    simp only [applyDelta, DeltaOp.introduced, DeltaOp.removed, Option.some.injEq, exists_eq_left']
    split <;> grind [Function.update_apply]
  | remove oldId vclock =>
    simp only [applyDelta, DeltaOp.introduced, DeltaOp.removed, Function.update_apply]
    grind
  | setAttr inode attrs vclock =>
    simp only [applyDelta, DeltaOp.introduced, DeltaOp.removed]
    cases found with
    | none => grind [DirORSet.setFound]
    | some f =>
      simp only [DirORSet.setFound, Function.update_apply]
      grind [Option.map_eq_none_iff]

theorem Told.apply (h : Told p) (found : Option EntryId) :
    Told ⟨applyDelta found p.set d.2, p.deltaLog ++ [d]⟩ where
  tombstones id := by
    rw [buried_append, ← h.tombstones, or_comm]
    exact applyDelta_tombstones
  entries id := by
    rw [introduced_append, buried_append, ← h.tombstones]
    have hlive : ∀ id, p.set.entries id ≠ none → id ∉ p.set.tombstones :=
      fun id hid hdead => ((h.entries id).mp hid).2 ((h.tombstones id).mp hdead)
    refine (applyDelta_present d.2 hlive id).trans (and_congr_left fun hno => or_congr_left ?_)
    rw [h.entries, ← h.tombstones, and_iff_left (fun hd => hno (.inl hd))]

/-! ## What the clocks tell -/

/-- The clock of a replica and those of its deltas. -/
def Peer.clocks (p : Peer ρ) : List VectorClock := p.set.vclock :: p.deltaLog.map (·.2.vclock)

variable {clients : List UInt64} {find : DirORSet ρ → DeltaOp ρ → Option EntryId}
  {s : Peers ρ} {a b : UInt64}

/-- No clock is ahead of a client, and a clock that has reached a delta belongs to a replica
that knows it. -/
structure Inv (clients : List UInt64) (s : Peers ρ) : Prop where
  told : ∀ p, Told (s p)
  listed : ∀ p, ∀ d ∈ (s p).deltaLog, d.1 ∈ clients
  own : ∀ p, ∀ v ∈ (s p).clocks, ∀ c, v c ≤ (s c).set.vclock c
  known : ∀ p q, ∀ v ∈ (s p).clocks, ∀ d ∈ (s q).deltaLog, d.2.vclock d.1 ≤ v d.1 →
    d ∈ (s p).deltaLog

theorem inv_start : Inv clients (start : Peers ρ) where
  told p := ⟨by simp [start, DirORSet.new, Buried], by simp [start, DirORSet.new, Introduced]⟩
  listed := by simp [start]
  own := by simp [start, Peer.clocks, DirORSet.new]
  known := by simp [start]

theorem dominates_le {c other : VectorClock} (h : dominates clients c other = true) :
    ∀ x ∈ clients, other x ≤ c x := by
  intro x hx
  have hall := List.all_eq_true.mp (Bool.and_eq_true_iff.mp h).1 x hx
  exact of_decide_eq_true hall

theorem applyDelta_vclock (found : Option EntryId) (s : DirORSet ρ) (d : DeltaOp ρ)
    (x : UInt64) : s.vclock x ≤ (applyDelta found s d).vclock x ∧
      (applyDelta found s d).vclock x ≤ max (s.vclock x) (d.vclock x) := by
  cases d with
  | add entry vclock =>
    rw [applyDelta]
    split
    · exact ⟨le_rfl, le_max_left _ _⟩
    · exact ⟨le_max_left _ _, le_rfl⟩
  | remove | rename | setAttr => exact ⟨le_max_left _ _, le_rfl⟩

/-- Applying deltas one after another. -/
theorem receive_all (find : DirORSet ρ → DeltaOp ρ → Option EntryId)
    (ds : List (UInt64 × DeltaOp ρ)) (p : Peer ρ) (h : Told p) :
    Told (ds.foldl (Peer.receive find) p) ∧
    (ds.foldl (Peer.receive find) p).deltaLog = p.deltaLog ++ ds ∧
    ∀ c, p.set.vclock c ≤ (ds.foldl (Peer.receive find) p).set.vclock c ∧
      ∃ w ∈ p.set.vclock :: ds.map (·.2.vclock),
        (ds.foldl (Peer.receive find) p).set.vclock c ≤ w c := by
  induction ds generalizing p with
  | nil => exact ⟨h, (List.append_nil _).symm, fun c => ⟨le_rfl, _, by simp, le_rfl⟩⟩
  | cons d ds ih =>
    obtain ⟨htold, hlog, hclock⟩ := ih (p.receive find d) (h.apply _)
    refine ⟨htold, ?_, fun c => ?_⟩
    · rw [List.foldl_cons, hlog]
      simp [Peer.receive]
    · obtain ⟨hge, hle⟩ := applyDelta_vclock (find p.set d.2) p.set d.2 c
      obtain ⟨hmono, w, hw, hbound⟩ := hclock c
      refine ⟨hge.trans hmono, ?_⟩
      rcases List.mem_cons.mp hw with rfl | hw
      · rcases le_max_iff.mp (hbound.trans hle) with hold | hnew
        · exact ⟨_, by simp, hold⟩
        · exact ⟨d.2.vclock, by simp, hnew⟩
      · exact ⟨w, by simp only [List.map_cons, List.mem_cons, hw, or_true], hbound⟩

section

variable (h : Inv clients s)
include h

/-- Whatever `a` knows, `b` knows after it has asked `a`. -/
theorem Inv.learns (hd : d ∈ (s a).deltaLog) : d ∈ (synced clients find s a b).deltaLog := by
  rw [synced, (receive_all find _ _ (h.told b)).2.1, List.mem_append]
  cases hdom : dominates clients (s b).set.vclock d.2.vclock with
  | false => exact .inr (List.mem_filter.mpr ⟨hd, by rw [hdom]; rfl⟩)
  | true =>
    exact .inl (h.known b a _ (by simp [Peer.clocks]) d hd (dominates_le hdom _ (h.listed a d hd)))

theorem Inv.complete : Complete (s a).set (s b).set (synced clients find s a b).set := by
  obtain ⟨htold, hlog, -⟩ := receive_all find
    (getDeltasSince clients (s a) (s b).set.vclock) _ (h.told b)
  refine ⟨fun id hid => ?_, fun id hid hlive => ?_⟩
  · obtain ⟨d, hd, hrem⟩ := ((h.told a).tombstones id).mp hid
    by_contra hne
    exact ((htold.entries id).mp hne).2 ⟨d, h.learns hd, hrem⟩
  · obtain ⟨⟨d, hd, hintro⟩, hnot⟩ := ((h.told a).entries id).mp hid
    refine (htold.entries id).mpr ⟨⟨d, h.learns hd, hintro⟩, ?_⟩
    rintro ⟨d', hd', hrem⟩
    rw [hlog] at hd'
    rcases List.mem_append.mp hd' with hb | ha
    · exact hlive (((h.told b).tombstones id).mpr ⟨d', hb, hrem⟩)
    · exact hnot ⟨d', (List.mem_filter.mp ha).1, hrem⟩

/-! ## Runs -/

/-- Replica `b` becomes `q`: its clocks come from replicas whose deltas it knows, up to its
own counter, and its new deltas are ahead of that counter. -/
theorem Inv.update {q : Peer ρ} (htold : Told q) (hkept : ∀ d ∈ (s b).deltaLog, d ∈ q.deltaLog)
    (hmono : (s b).set.vclock b ≤ q.set.vclock b)
    (hlog : ∀ d ∈ q.deltaLog, (∃ r, d ∈ (s r).deltaLog) ∨
      d.1 = b ∧ b ∈ clients ∧ (s b).set.vclock b < d.2.vclock b)
    (hclock : ∀ v ∈ q.clocks, ∀ c, c = b ∧ v c ≤ q.set.vclock b ∨ ∃ r, ∃ w ∈ (s r).clocks,
      v c ≤ w c ∧ ∀ d ∈ (s r).deltaLog, d ∈ q.deltaLog) :
    Inv clients (Function.update s b q) := by
  generalize hs : Function.update s b q = s'
  have hb : s' b = q := by rw [← hs, Function.update_self]
  have hother : ∀ p, p ≠ b → s' p = s p := fun p hp => by rw [← hs, Function.update_of_ne hp]
  have hup : ∀ c, (s c).set.vclock c ≤ (s' c).set.vclock c := by
    intro c
    by_cases hc : c = b
    · rwa [hc, hb]
    · rw [hother c hc]
  constructor
  · intro p
    by_cases hp : p = b
    · rwa [hp, hb]
    · rw [hother p hp]
      exact h.told p
  · intro p d hd
    by_cases hp : p = b
    · rw [hp, hb] at hd
      rcases hlog d hd with ⟨r, hr⟩ | ⟨hd, hb, -⟩
      · exact h.listed r d hr
      · rwa [hd]
    · exact h.listed p d (hother p hp ▸ hd)
  · intro p v hv c
    by_cases hp : p = b
    · rw [hp, hb] at hv
      rcases hclock v hv c with ⟨rfl, hle⟩ | ⟨r, w, hw, hle, -⟩
      · rwa [hb]
      · exact hle.trans ((h.own r w hw c).trans (hup c))
    · exact (h.own p v (hother p hp ▸ hv) c).trans (hup c)
  · intro p p' v hv d hd hle
    have horigin : (∃ r, d ∈ (s r).deltaLog) ∨
        d ∈ q.deltaLog ∧ d.1 = b ∧ (s b).set.vclock b < d.2.vclock b := by
      by_cases hp : p' = b
      · rw [hp, hb] at hd
        exact (hlog d hd).imp_right fun hnew => ⟨hd, hnew.1, hnew.2.2⟩
      · exact .inl ⟨p', hother p' hp ▸ hd⟩
    by_cases hp : p = b
    · rw [hp, hb] at hv ⊢
      rcases horigin with ⟨r', hr'⟩ | ⟨hq, -⟩
      · rcases hclock v hv d.1 with ⟨hown, -⟩ | ⟨r, w, hw, hvw, hknown⟩
        · -- a delta of its own client, which it has reached before
          refine hkept d (h.known b r' _ List.mem_cons_self d hr' ?_)
          rw [hown]
          exact h.own r' _ (List.mem_cons_of_mem _ (List.mem_map_of_mem hr')) b
        · exact hknown d (h.known r r' w hw d hr' (hle.trans hvw))
      · exact hq
    · rw [hother p hp] at hv ⊢
      rcases horigin with ⟨r', hr'⟩ | ⟨-, hd, hnew⟩
      · exact h.known p r' v hv d hr' hle
      have hown := h.own p v hv b
      rw [hd] at hle
      omega

theorem Inv.sync : Inv clients (Function.update s b (synced clients find s a b)) := by
  obtain ⟨htold, hlog, hclock⟩ := receive_all find
    (getDeltasSince clients (s a) (s b).set.vclock) _ (h.told b)
  have hsent : ∀ d ∈ getDeltasSince clients (s a) (s b).set.vclock, d ∈ (s a).deltaLog :=
    fun d hd => (List.mem_filter.mp hd).1
  have hclocks : ∀ d ∈ getDeltasSince clients (s a) (s b).set.vclock, d.2.vclock ∈ (s a).clocks :=
    fun d hd => List.mem_cons_of_mem _ (List.mem_map_of_mem (hsent d hd))
  have hkept : ∀ d ∈ (s b).deltaLog, d ∈ (synced clients find s a b).deltaLog :=
    fun d hd => by rw [synced, hlog]; exact List.mem_append_left _ hd
  refine h.update htold hkept (hclock b).1 (fun d hd => .inl ?_) fun v hv c => .inr ?_
  · rw [synced, hlog] at hd
    rcases List.mem_append.mp hd with hd | hd
    · exact ⟨b, hd⟩
    · exact ⟨a, hsent d hd⟩
  · rcases List.mem_cons.mp hv with rfl | hv
    · obtain ⟨-, w, hw, hle⟩ := hclock c
      rcases List.mem_cons.mp hw with rfl | hw
      · exact ⟨b, _, List.mem_cons_self, hle, hkept⟩
      · obtain ⟨d, hd, rfl⟩ := List.mem_map.mp hw
        exact ⟨a, _, hclocks d hd, hle, fun _ => h.learns⟩
    · obtain ⟨d, hd, rfl⟩ := List.mem_map.mp hv
      rw [synced, hlog] at hd
      rcases List.mem_append.mp hd with hd | hd
      · exact ⟨b, _, List.mem_cons_of_mem _ (List.mem_map_of_mem hd), le_rfl, hkept⟩
      · exact ⟨a, _, hclocks d hd, le_rfl, fun _ => h.learns⟩

variable {c : UInt64} {op : Op ρ} {set : DirORSet ρ} {delta : DeltaOp ρ}

omit h in
theorem perform_delta (hop : perform (s c).set op = some (set, delta))
    (hlegal : Legal clients s (.operate c op)) (howned : Owned s (.operate c op)) :
    set = applyDelta op.found (s c).set delta ∧ set.vclock = (s c).set.vclock.increment c ∧
      delta.vclock = set.vclock := by
  have hnew : (∀ e, delta.introduced = some e →
      e.id ∉ (s c).set.tombstones ∧ delta.removed ≠ some e.id) ∧
      set.vclock = (s c).set.vclock.increment c ∧ delta.vclock = set.vclock := by
    cases op with
    | add entry =>
      simp only [perform] at hop
      split_ifs at hop with hdead
      cases hop
      refine ⟨?_, by rw [← hlegal.2], rfl⟩
      rintro _ ⟨⟩
      exact ⟨hdead, fun heq => by cases heq⟩
    | remove id =>
      cases hop
      exact ⟨by rintro _ ⟨⟩, by rw [← howned], rfl⟩
    | renameEntry oldId newName clientId now =>
      obtain ⟨old, -, hop⟩ := Option.map_eq_some_iff.mp hop
      cases hop
      refine ⟨?_, by rw [← hlegal.2], rfl⟩
      rintro _ ⟨⟩
      refine ⟨fun hdead => howned (Finset.mem_insert_of_mem hdead), fun heq => howned ?_⟩
      rw [Option.some.inj heq]
      exact Finset.mem_insert_self _ _
    | updateAttr inode attrs clientId found =>
      cases hop
      exact ⟨by rintro _ ⟨⟩, by rw [← hlegal.2], rfl⟩
  exact ⟨perform_applyDelta hop hnew.1, hnew.2⟩

theorem Inv.operate (hop : perform (s c).set op = some (set, delta))
    (hlegal : Legal clients s (.operate c op)) (howned : Owned s (.operate c op)) :
    Inv clients (Function.update s c ⟨set, (s c).deltaLog ++ [(c, delta)]⟩) := by
  obtain ⟨hset, hclock, hdelta⟩ := perform_delta hop hlegal howned
  have hcount : (s c).set.vclock c < set.vclock c := by
    rw [hclock, VectorClock.increment, Function.update_self]
    exact Nat.lt_succ_self _
  have htold : Told ⟨set, (s c).deltaLog ++ [(c, delta)]⟩ :=
    hset ▸ (h.told c).apply (d := (c, delta)) op.found
  have hkept : ∀ d ∈ (s c).deltaLog, d ∈ (s c).deltaLog ++ [(c, delta)] :=
    fun d hd => List.mem_append_left _ hd
  refine h.update htold hkept hcount.le (fun d hd => ?_) fun v hv x => ?_
  · rcases List.mem_append.mp hd with hd | hd
    · exact .inl ⟨c, hd⟩
    · cases List.mem_singleton.mp hd
      exact .inr ⟨rfl, hlegal.1, by rwa [hdelta]⟩
  · have hv : v = set.vclock ∨ v ∈ (s c).clocks := by
      simp only [Peer.clocks, List.map_append, List.map_cons, List.map_nil, List.mem_cons,
        List.mem_append, hdelta, List.not_mem_nil, or_false] at hv
      rcases hv with hv | hv | hv
      · exact .inl hv
      · exact .inr (List.mem_cons_of_mem _ hv)
      · exact .inl hv
    rcases hv with rfl | hv
    · by_cases hx : x = c
      · exact .inl ⟨hx, hx ▸ le_rfl⟩
      · refine .inr ⟨c, _, List.mem_cons_self, ?_, hkept⟩
        rw [hclock, VectorClock.increment, Function.update_of_ne hx]
    · exact .inr ⟨c, v, hv, le_rfl, hkept⟩

theorem Inv.step {ev : Event ρ} (hlegal : Legal clients s ev) (howned : Owned s ev) :
    Inv clients (step clients find s ev) := by
  cases ev with
  | operate c op =>
    rw [DeltaSync.step]
    cases hop : perform (s c).set op with
    | none => exact h
    | some r => exact h.operate hop hlegal howned
  | sync a b => exact h.sync

end

/-- **Synchronisation misses nothing** between any two replicas in every run in which entries
are removed by the clients that made them and no rename gives a removed identity again. -/
theorem sync_complete (clients : List UInt64) (find : DirORSet ρ → DeltaOp ρ → Option EntryId)
    (evs : List (Event ρ))
    (h : Along (step clients find) (fun s ev => Legal clients s ev ∧ Owned s ev) start evs)
    (a b : UInt64) :
    let s := evs.foldl (step clients find) start
    Complete (s a).set (s b).set (synced clients find s a b).set :=
  (h.invariant (I := Inv clients) (fun _ _ hs hev => hs.step hev.1 hev.2) inv_start).complete

/-- Replica 2 knows an entry of client 1, which then removes it and makes another one, while
client 2 makes one of its own: replica 2 learns of the removal and of the new entry. -/
theorem removal_and_add_synced :
    let e := sampleEntry 1 100
    let f : DirEntry Unit := ⟨⟨"notes", 1, 3⟩, 200, fun _ => 0, ()⟩
    let s := [.operate 1 (.add e), .sync 1 2, .operate 1 (.remove e.id), .operate 1 (.add f),
      .operate 2 (.add (sampleEntry 2 300))].foldl (step [1, 2] fun _ _ => none) start
    (s 2).set.entries e.id ≠ none ∧
    (synced [1, 2] (fun _ _ => none) s 1 2).set.entries e.id = none ∧
      (synced [1, 2] (fun _ _ => none) s 1 2).set.entries f.id ≠ none := by
  intro e f s
  have hcomplete := sync_complete [1, 2] (fun _ _ => none) [.operate 1 (.add e), .sync 1 2,
    .operate 1 (.remove e.id), .operate 1 (.add f), .operate 2 (.add (sampleEntry 2 300))]
    ⟨⟨⟨by simp, rfl⟩, trivial⟩, ⟨trivial, trivial⟩, ⟨⟨by simp, fun h => by cases h⟩, rfl⟩,
      ⟨⟨by simp, rfl⟩, trivial⟩, ⟨⟨by simp, rfl⟩, trivial⟩, trivial⟩ 1 2
  exact ⟨fun h => (by cases h), hcomplete.1 e.id (by decide),
    hcomplete.2 f.id (fun h => by cases h) (by decide)⟩

/-- Client 2 removes the entry of client 1, under the counter that client 1 uses for its next
entry, and makes one of its own: the entry of client 1 is never sent. -/
theorem removal_hides_add :
    let e := sampleEntry 1 100
    let f : DirEntry Unit := ⟨⟨"notes", 1, 2⟩, 200, fun _ => 0, ()⟩
    let evs : List (Event Unit) := [.operate 1 (.add e), .sync 1 2, .operate 2 (.remove e.id),
      .operate 1 (.add f), .operate 2 (.add (sampleEntry 2 300))]
    Along (step [1, 2] fun _ _ => none) (Legal [1, 2]) start evs ∧
    ¬ let s := evs.foldl (step [1, 2] fun _ _ => none) start
      Complete (s 1).set (s 2).set (synced [1, 2] (fun _ _ => none) s 1 2).set := by
  refine ⟨⟨⟨by simp, rfl⟩, trivial, ⟨by simp, nofun⟩, ⟨by simp, rfl⟩, ⟨by simp, rfl⟩, trivial⟩,
    fun h => ?_⟩
  exact h.2 ⟨"notes", 1, 2⟩ nofun (by decide) rfl

end PowerFS.OrSet.DeltaSync
