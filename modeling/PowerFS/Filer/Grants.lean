import PowerFS.Filer.WriterExclusion

/-! # Standing grants

A client may write under a serial from the moment a grant of write or exclusive capabilities
under that serial is returned to it, until the grant is given up: the serial is unlocked, its
recall is acknowledged or runs out of time, the client is evicted, or the lease expires.
`note` keeps the list of the grants that stand, from the answers and the messages alone.

`Backed` ties that list to one lock: every standing grant has a record with its serial that
has write or exclusive capabilities. Then no other client can be granted such capabilities,
and beside a grant of `xlock` there is no other holder. `Careful` says what the clients must
keep to for it, and here the requests are shown to keep `Backed`. -/
namespace PowerFS.Filer.Grants
open Lib.FirstMatch Locks Arbiter LockFacts WriterExclusion List MdLock

variable {C : Type}

/-! ## Standing grants -/

/-- A grant of write or exclusive capabilities that a client was told of. -/
structure Grant (C : Type) where
  client : C
  sn : Nat
  expireAt : Nat
  /-- It was returned by `xlock`. -/
  sole : Bool
  deriving DecidableEq

/-- What the answer to a section gives to a client: a serial and capabilities. A promotion is
sent to the promoted client. -/
def issued : (act : Act C) → act.Answer → Option (C × Nat × CapSet × Bool)
  | .rdlock c => fun (r : LockGrantResult C) => some (c, r.sn, r.grantedCaps, false)
  | .wrlock c => fun (r : LockGrantResult C) => some (c, r.sn, r.grantedCaps, false)
  | .xlock c => fun (r : LockGrantResult C) => some (c, r.sn, r.grantedCaps, true)
  | .unlock _ | .posixUnlock _ | .evict _ | .sweep _ => fun (d : Departure C) =>
    d.promoted.map fun p => (p.1, p.2.1, p.2.2, false)
  | _ => fun _ => none

/-- The moment at which a section drops expired holders. -/
def moment [Env] (k : Counters) : Act C → Option Nat
  | .rdlock _ | .wrlock _ | .xlock _ | .scatterWrlock _ => some (instant k.reads)
  | .sweep now => some now
  | _ => none

section

variable [DecidableEq C]

/-- The section gives the grant up by itself. -/
def yields (g : Grant C) : Act C → Bool
  | .unlock sn => g.sn = sn
  | .recallAck c sn => g.client = c && g.sn = sn
  | .evict c | .posixUnlock c => g.client = c
  | _ => false

variable (k : Counters) (l : MdLock C)

/-- The grants that stand after a section, but for one it makes itself. -/
def kept [Env] (act : Act C) (out : List (Grant C)) : List (Grant C) :=
  out.filter fun g => !yields g act && (moment k act).all (fun now => now < g.expireAt) &&
    (g.client, g.sn) ∉ (act.run k l).reclaimed

/-- The grant a section makes, with the lease of the record it is made for. -/
def made [Env] (act : Act C) : List (Grant C) :=
  let o := act.run k l
  match issued act o.reply with
  | some (c, sn, caps, sole) =>
    if caps.conflicts then
      [⟨c, sn, ((o.lock.findHolder c).map (·.expireAt)).getD 0, sole⟩]
    else []
  | none => []

def note [Env] (act : Act C) (out : List (Grant C)) : List (Grant C) :=
  kept k l act out ++ made k l act

/-! ## What the clients keep to -/

/-- Outside a gather, no holder is on the list of recalls. -/
def Quiet : Prop :=
  l.state = .gather ∨ ∀ e ∈ l.gatherList, ∀ h ∈ l.holders, h.clientId ≠ e.clientId

/-- A request of a client that no recall of the lock concerns; a `wrlock` comes from a client
without write capabilities of its own, unless it is the LONER, an upgrade from one that has
them. No list of recalls is left over when a holder may be promoted. The lock is not fenced
from under a writer, no writer is flushed to SYNC, and the lock
is not used as a local or a scatter lock. -/
def Careful [Env] : Act C → Prop
  | .rdlock c => ∀ e ∈ l.gatherList, e.clientId ≠ c
  | .wrlock c => (∀ e ∈ l.gatherList, e.clientId ≠ c) ∧ Patient k l (.wrlock c) ∧
      ((l.collect (instant k.reads)).lonerOf c = none →
        ∀ h ∈ unexpired l (instant k.reads), h.clientId = c → h.grantedCaps.conflicts = false)
  | .xlock c => (∀ e ∈ l.gatherList, e.clientId ≠ c) ∧ Patient k l (.xlock c) ∧
      ∀ h, unexpired l (instant k.reads) = [h] → h.clientId = c →
        h.grantedCaps.conflicts = true
  | .unlock _ | .posixUnlock _ | .evict _ | .sweep _ => Quiet l
  | .fenceEpoch => ∀ h ∈ l.holders, h.grantedCaps.conflicts = false
  | .fileFlushToSync c => ∀ h ∈ l.holders, h.clientId ≠ c →
      (h.grantedCaps.inter CapSet.capW).isEmpty = true
  | .localLock | .localUnlock | .scatterWrlock _ | .scatterUnlock _ => False
  | _ => True

instance : Decidable (Quiet l) := by
  unfold Quiet
  infer_instance

instance decidableSole {α : Type} (P : α → Prop) [DecidablePred P] :
    (xs : List α) → Decidable (∀ h, xs = [h] → P h)
  | [x] => decidable_of_iff (P x) ⟨fun hx y hy => by cases hy; exact hx, fun hx => hx x rfl⟩
  | [] => .isTrue fun y hy => by cases hy
  | _ :: _ :: _ => .isTrue fun y hy => by cases hy

instance [Env] : (act : Act C) → Decidable (Careful k l act)
  | .rdlock c => inferInstanceAs (Decidable (∀ e ∈ l.gatherList, e.clientId ≠ c))
  | .wrlock _ => inferInstanceAs (Decidable (_ ∧ _ ∧ (_ → ∀ h ∈ unexpired l _, _ → _)))
  | .xlock _ => inferInstanceAs (Decidable (_ ∧ _ ∧ ∀ h, unexpired l _ = [h] → _ → _))
  | .unlock _ | .posixUnlock _ | .evict _ | .sweep _ => inferInstanceAs (Decidable (Quiet l))
  | .fenceEpoch => inferInstanceAs (Decidable (∀ h ∈ l.holders, _))
  | .fileFlushToSync _ => inferInstanceAs (Decidable (∀ h ∈ l.holders, _ → _))
  | .localLock | .localUnlock | .scatterWrlock _ | .scatterUnlock _ => .isFalse id
  | .enqueue _ | .drainWaiters | .recallAck _ _ | .quiesce _ _ _ | .quiesceCheck
  | .fileSyncToShared => .isTrue trivial

end

/-! ## The invariant -/

/-- The states of a lock that is not used as a scatter lock. -/
def plainState (t : LockType) : LockState → Bool
  | .dscatter | .inactive | .revoking => false
  | .sync => t.lockClass = .fileLock
  | _ => true

def plainTarget (t : LockType) : GatherTarget → Bool
  | .toDscatter => false
  | .toSync => t.lockClass = .fileLock
  | _ => true

/-- A record that backs a grant. -/
def Backs (h : LockHolder C) (g : Grant C) : Prop :=
  h.clientId = g.client ∧ h.sn = g.sn ∧ h.grantedCaps.conflicts = true ∧ g.expireAt ≤ h.expireAt

structure Backed (l : MdLock C) (out : List (Grant C)) : Prop where
  carries : l.lockType.capBits.conflicts = true
  state : plainState l.lockType l.state = true
  target : plainTarget l.lockType l.gatherTarget = true
  one : OneWriter l.holders
  full : ∀ h ∈ l.holders, h.grantedCaps.conflicts = true → h.grantedCaps = l.lockType.capBits
  retained : ∀ h ∈ l.holders, h.retainCaps.conflicts = false
  backed : ∀ g ∈ out, ∃ h ∈ l.holders, Backs h g
  /-- A recall is for the serial that its client has, and is open as long as it has it. -/
  recalled : ∀ e ∈ l.gatherList, ∀ g ∈ out, g.client = e.clientId →
    g.sn = e.sn ∧ e.acked = false
  sole : ∀ g ∈ out, g.sole = true → ∀ h ∈ l.holders, h.clientId = g.client

variable {k : Counters} {l : MdLock C} {out out' K : List (Grant C)} {g : Grant C}
  {x y : LockHolder C}

theorem Backed.mono (h : Backed l out) (hsub : ∀ g ∈ out', g ∈ out) : Backed l out' :=
  { h with
    backed := fun g hg => h.backed g (hsub g hg)
    recalled := fun e he g hg => h.recalled e he g (hsub g hg)
    sole := fun g hg => h.sole g (hsub g hg) }

theorem Backed.eval (h : Backed l out) : Backed l.eval out := by
  obtain ⟨caps, he⟩ := eval_with l
  rw [he]
  exact { h with }

/-- A change of the state alone. -/
theorem Backed.goTo (h : Backed l out) {s : LockState} (hs : plainState l.lockType s = true) :
    Backed (l.goTo s) out :=
  Backed.eval { h with state := hs }

variable {target : GatherTarget} {recalled : LockHolder C → Option (CapSet × CapSet)} {now : Nat}
  {act : Act C} {c : C}

theorem plainState_stateAfter {t : LockType} (n : Nat) (h : plainTarget t target = true) :
    plainState t (stateAfter target n) = true := by
  cases target with
  | toDscatter => cases h
  | toSync => exact h
  | toLoner =>
    simp only [stateAfter]
    split <;> rfl
  | _ => rfl

section

variable (h : Backed l out)
include h

/-- The records after a section: each is an old one, but for its capabilities to be recalled,
or is full and brings no client that was not there. -/
theorem Backed.shrink {l' : MdLock C} (ht : l'.lockType = l.lockType)
    (hs : plainState l.lockType l'.state = true)
    (htg : plainTarget l.lockType l'.gatherTarget = true) (hm : Milder l'.holders l.holders)
    (hold : ∀ x ∈ l'.holders, ∃ y ∈ l.holders, x.clientId = y.clientId ∧
      (x.grantedCaps = y.grantedCaps ∨ x.grantedCaps.conflicts = false) ∧
      x.retainCaps.conflicts = false) (hsub : ∀ g ∈ out', g ∈ out)
    (hstay : ∀ g ∈ out', ∀ y ∈ l.holders, Backs y g → ∃ x ∈ l'.holders, Backs x g)
    (hrec : ∀ e ∈ l'.gatherList, ∀ g ∈ out', g.client = e.clientId →
      g.sn = e.sn ∧ e.acked = false) : Backed l' out' := by
  refine ⟨ht ▸ h.carries, ht ▸ hs, ht ▸ htg, h.one.milder hm, ?_, ?_, ?_, hrec, ?_⟩
  · intro x hx hc
    obtain ⟨y, hy, -, hg | hg, -⟩ := hold x hx
    · rw [hg, ht]
      exact h.full y hy (hg ▸ hc)
    · rw [hg] at hc
      cases hc
  · intro x hx
    obtain ⟨y, hy, -, -, hr⟩ := hold x hx
    exact hr
  · intro g hg
    obtain ⟨y, hy, hb⟩ := h.backed g (hsub g hg)
    exact hstay g hg y hy hb
  · intro g hg hsole x hx
    obtain ⟨y, hy, hc, -⟩ := hold x hx
    rw [hc]
    exact h.sole g (hsub g hg) hsole y hy

/-- A grant that a record backs and no recall concerns can be added. -/
theorem Backed.add (hx : x ∈ l.holders) (hb : Backs x g)
    (hfree : ∀ e ∈ l.gatherList, e.clientId ≠ g.client)
    (hsole : g.sole = true → ∀ y ∈ l.holders, y.clientId = g.client) : Backed l (out ++ [g]) := by
  refine { h with backed := ?_, recalled := ?_, sole := ?_ }
  · exact forall_mem_append.mpr ⟨h.backed, forall_mem_singleton.mpr ⟨x, hx, hb⟩⟩
  · exact fun e he => forall_mem_append.mpr
      ⟨h.recalled e he, forall_mem_singleton.mpr fun hc => absurd hc.symm (hfree e he)⟩
  · exact forall_mem_append.mpr ⟨h.sole, forall_mem_singleton.mpr hsole⟩

/-- All standing grants are of the client whose record has the capabilities. -/
theorem Backed.client_eq (hx : x ∈ l.holders)
    (hc : x.grantedCaps.conflicts = true) : ∀ g ∈ out, g.client = x.clientId := by
  intro g hg
  obtain ⟨y, hy, hb⟩ := h.backed g hg
  rw [← hb.1, h.one.eq_of_conflicts hx hy hc hb.2.2.1]

theorem Backed.eq_nil (hfree : ∀ x ∈ l.holders, x.grantedCaps.conflicts = false) : out = [] := by
  refine eq_nil_iff_forall_not_mem.mpr fun g hg => ?_
  obtain ⟨y, hy, hb⟩ := h.backed g hg
  have := hb.2.2.1
  rw [hfree y hy] at this
  cases this

/-! ## Parts of a section -/

theorem Backed.garbageCollect (now : Nat) :
    Backed (l.garbageCollect now).2 (out.filter fun g => now < g.expireAt) := by
  refine h.shrink rfl ?_ h.target (milder_filter _ _) ?_ (fun g hg => (mem_filter.mp hg).1)
    ?_ (fun e he g hg => h.recalled e he g (mem_filter.mp hg).1)
  · dsimp only [MdLock.garbageCollect]
    split
    · rfl
    · exact h.state
  · intro x hx
    have hx := (mem_filter.mp hx).1
    exact ⟨x, hx, rfl, .inl rfl, h.retained x hx⟩
  · intro g hg y hy hb
    refine ⟨y, mem_filter.mpr ⟨hy, decide_eq_true ?_⟩, hb⟩
    exact Nat.lt_of_lt_of_le (of_decide_eq_true (mem_filter.mp hg).2) hb.2.2.2

theorem Backed.collect (now : Nat) :
    Backed (l.collect now) (out.filter fun g => now < g.expireAt) := by
  unfold MdLock.collect
  dsimp only
  split
  · exact (h.garbageCollect now).eval
  · exact h.garbageCollect now

/-- A recall that leaves the holders nothing that conflicts. -/
def Taking (recalled : LockHolder C → Option (CapSet × CapSet)) : Prop :=
  ∀ h taken kept, recalled h = some (taken, kept) → kept.conflicts = false

omit h in
theorem Taking.tame (h : Taking recalled) : Tame recalled := by
  intro x taken kept hr _ hc
  rw [h x taken kept hr] at hc
  cases hc

variable [DecidableEq C]

/-- The end of a gather drops nobody who has a grant. -/
theorem Backed.gatherComplete : Backed l.gatherComplete out := by
  refine h.shrink lockType_gatherComplete ?_ (by rw [gatherTarget_gatherComplete]; exact h.target)
    (milder_gatherComplete l) ?_ (fun _ hg => hg) ?_ ?_
  · rw [state_gatherComplete]
    exact plainState_stateAfter _ h.target
  · intro x hx
    obtain ⟨y, hy, rfl, -⟩ := mem_gatherComplete hx
    exact ⟨y, hy, rfl, .inl rfl, h.retained y hy⟩
  · intro g hg y hy hb
    refine ⟨settled y, ?_, hb⟩
    by_cases ht : l.gatherTarget = .toExcl
    · rw [holders_gatherComplete_toExcl ht]
      refine mem_filter.mpr ⟨mem_map_of_mem hy, decide_eq_true fun hack => ?_⟩
      obtain ⟨e, he, hacked, hc⟩ := mem_ackedClients.mp hack
      have hopen := (h.recalled e he g hg (hb.1.symm.trans hc.symm)).2
      rw [hacked] at hopen
      cases hopen
    · rw [holders_gatherComplete ht]
      exact mem_map_of_mem hy
  · rw [gatherList_gatherComplete]
    exact fun e he => by cases he

/-- Recalls that run out of time give up the grants they are for. -/
theorem Backed.markLapsed (timeout now : Nat) :
    Backed (l.markLapsed timeout now)
      (out.filter fun g => (g.client, g.sn) ∉ l.lapses timeout now) := by
  refine h.shrink rfl h.state h.target (.refl _) (fun x hx => ⟨x, hx, rfl, .inl rfl,
    h.retained x hx⟩) (fun g hg => (mem_filter.mp hg).1) (fun g _ y hy hb => ⟨y, hy, hb⟩) ?_
  intro e he g hg hc
  obtain ⟨e₀, he₀, rfl⟩ := mem_map.mp he
  obtain ⟨hg, hnot⟩ := mem_filter.mp hg
  split at hc
  · rename_i hlapsed
    have hsn := (h.recalled e₀ he₀ g hg hc).1
    refine absurd ?_ (of_decide_eq_true hnot)
    exact mem_map.mpr ⟨e₀, mem_filter.mpr ⟨he₀, hlapsed⟩, by rw [hc, hsn]⟩
  · rename_i hlapsed
    rw [if_neg hlapsed]
    exact h.recalled e₀ he₀ g hg hc

theorem Backed.gatherTimeout [Env] (k : Counters) (hK : ∀ g ∈ K, g ∈ out)
    (hrec : ∀ g ∈ K, (g.client, g.sn) ∉ (l.gatherTimeout k).reclaimed) :
    Backed (l.gatherTimeout k).lock K := by
  refine Backed.mono ?_ fun g hg => mem_filter.mpr ⟨hK g hg, decide_eq_true (hrec g hg)⟩
  rcases gatherTimeout_cases k l with ⟨-, ht⟩ | ⟨m, _, rfl, rfl, -, -, ⟨-, ht⟩ | ⟨-, ht⟩⟩
  · rw [ht]
    exact h.mono fun g hg => (mem_filter.mp hg).1
  · rw [ht]
    exact h.markLapsed _ _
  · rw [ht]
    exact (h.markLapsed _ _).gatherComplete

omit h in
theorem recallConflicting_taking (c : C) : Taking (recallConflicting conflictCaps c) := by
  intro h taken kept hr
  simp only [recallConflicting] at hr
  split at hr
  · cases hr
  · cases hr
    exact conflicts_remove_inter _

omit h in
theorem recallAll_taking (exclude : Option C) : Taking (recallAll exclude) := by
  intro h taken kept hr
  simp only [recallAll] at hr
  split at hr
  · cases hr
  · cases hr
    rfl

variable (htake : Taking recalled) (htg : plainTarget l.lockType target = true)

section

include htake htg

omit [DecidableEq C] in
/-- The record a recall is sent for is the one that backs the grant. -/
theorem Backed.recallHolders (now newEpoch : Nat) :
    Backed (({ l with state := .gather, gatherTarget := target } : MdLock C).recallHolders now
      newEpoch recalled) out := by
  refine h.shrink rfl rfl htg (milder_recallHolders htake.tame now newEpoch) ?_
    (fun _ hg => hg) ?_ ?_
  · intro x hx
    obtain ⟨y, hy, rfl⟩ := mem_map.mp hx
    refine ⟨y, hy, ?_⟩
    cases hr : recalled y with
    | none => exact ⟨rfl, .inl rfl, h.retained y hy⟩
    | some caps => exact ⟨rfl, .inl rfl, htake y _ _ hr⟩
  · intro g hg y hy hb
    refine ⟨_, mem_map_of_mem hy, ?_⟩
    cases hr : recalled y with
    | none | some => exact hb
  · intro e he g hg hc
    rcases mem_append.mp he with he | he
    · exact h.recalled e he g hg hc
    obtain ⟨y, hy, rfl⟩ := mem_map.mp he
    obtain ⟨x, hx, hb⟩ := h.backed g hg
    have hxy := h.one.unique hx (mem_filter.mp hy).1 (hb.1.trans hc)
    exact ⟨by rw [← hxy]; exact hb.2.1.symm, rfl⟩

omit [DecidableEq C] in
theorem Backed.openGather (k : Counters) (now : Nat) :
    Backed (l.openGather k now target recalled).lock out := by
  unfold MdLock.openGather
  split
  · exact h
  · exact h.recallHolders htake htg now k.epoch

theorem Backed.gatherStage [Env] (hK : ∀ g ∈ K, g ∈ out)
    (hrec : ∀ g ∈ K, (g.client, g.sn) ∉ (l.gatherStage k now target recalled).reclaimed) :
    Backed (l.gatherStage k now target recalled).lock K :=
  (h.openGather htake htg k now).gatherTimeout _ hK hrec

/-- A gather that ends at once gives up every grant that a recall of it is for. -/
theorem Backed.stage_clears [Env]
    (hrem : (l.openGather k now target recalled).lock.gatherRemaining ≠ 0)
    (hlisted : ∀ g ∈ out, ∃ e ∈ (l.openGather k now target recalled).lock.gatherList,
      e.clientId = g.client)
    (hdone : ¬ 0 < (l.gatherStage k now target recalled).lock.gatherRemaining) :
    Backed (l.gatherStage k now target recalled).lock.gatherComplete [] ∧
      ∀ g ∈ out, (g.client, g.sn) ∈ (l.gatherStage k now target recalled).reclaimed := by
  refine ⟨(h.gatherStage htake htg (K := []) (by simp) (by simp)).gatherComplete, fun g hg => ?_⟩
  obtain ⟨e, he, hc⟩ := hlisted g hg
  obtain ⟨hsn, hopen⟩ := (h.openGather htake htg k now).recalled e he g hg hc.symm
  rcases gatherTimeout_cases (l.openGather k now target recalled).counters
    (l.openGather k now target recalled).lock with
    ⟨hidle, ht⟩ | ⟨m, _, rfl, rfl, -, -, ⟨-, ht⟩ | ⟨hall, ht⟩⟩
  · exact absurd hidle (not_or.mpr ⟨not_not.mpr state_openGather, hrem⟩)
  · rw [MdLock.gatherStage, ht] at hdone
    exact absurd (Nat.pos_of_ne_zero hrem) hdone
  rw [MdLock.gatherStage, ht]
  have hmark := hall _ (mem_map_of_mem he)
  split at hmark
  · rename_i hlapsed
    exact mem_map.mpr ⟨e, mem_filter.mpr ⟨he, hlapsed⟩, by rw [hc, hsn]⟩
  · rw [hopen] at hmark
    cases hmark

/-- A gather that drops the rivals of a request gives up the grants that rivals have. -/
theorem Backed.cleared [Env] {rival : LockHolder C → Prop}
    (hclears : Clears (l.openGather k now target recalled).lock rival)
    (hrival : ∀ g ∈ out, ∀ x, Backs x g → rival x)
    (hdone : ¬ 0 < (l.gatherStage k now target recalled).lock.gatherRemaining) :
    Backed (l.gatherStage k now target recalled).lock.gatherComplete [] ∧
      ∀ g ∈ out, (g.client, g.sn) ∈ (l.gatherStage k now target recalled).reclaimed := by
  refine h.stage_clears htake htg hclears.1 (fun g hg => ?_) hdone
  obtain ⟨x, hx, hb⟩ := (h.openGather htake htg k now).backed g hg
  obtain ⟨e, he, hex⟩ := hclears.2.2 x hx (hrival g hg x hb)
  exact ⟨e, he, hex.trans hb.1⟩

end

end

/-! ## Answers -/

/-- What is needed of a section that issues a serial and capabilities to a client. -/
structure Served (l : MdLock C) (c : C) (sn : Nat) (caps : CapSet) (alone : Bool) : Prop where
  present : sn ≠ 0 → ∃ x ∈ l.holders, x.clientId = c
  writes : caps.conflicts = true →
    ∃ x ∈ l.holders, x.clientId = c ∧ x.sn = sn ∧ x.grantedCaps.conflicts = true
  free : caps.conflicts = true → ∀ e ∈ l.gatherList, e.clientId ≠ c
  sole : alone = true → sn ≠ 0 ∨ caps.conflicts = true → ∀ x ∈ l.holders, x.clientId = c
  full : alone = true → sn ≠ 0 → caps.conflicts = true

/-- A refusal issues nothing. -/
theorem served_refusal (l : MdLock C) (c : C) (sole : Bool) : Served l c 0 CapSet.none sole :=
  ⟨fun h => absurd rfl h, fun h => (by cases h), fun h => (by cases h),
    fun _ h => h.elim (fun h => absurd rfl h) fun h => (by cases h), fun _ h => absurd rfl h⟩

theorem served_renewal (hfree : ∀ e ∈ l.gatherList, e.clientId ≠ c) (hx : x ∈ l.holders)
    (hc : x.clientId = c) : Served l c x.sn x.grantedCaps false :=
  ⟨fun _ => ⟨x, hx, hc⟩, fun hcaps => ⟨x, hx, hc, rfl, hcaps⟩, fun _ => hfree,
    fun h => (by cases h), fun h => by cases h⟩

/-! ## New holders -/

/-- A lock that carries write or exclusive capabilities is of a class that has a LONER. -/
theorem promotable_of_carries (h : l.lockType.capBits.conflicts = true) :
    l.lockType.lockClass = .simpleLock ∨ l.lockType.lockClass = .fileLock := by
  revert h
  cases l.lockType <;> decide

/-- A record without conflicting capabilities joins a lock that nobody has a grant of. -/
theorem Backed.admitReader [Env] (h : Backed l []) (hnew : ∀ x ∈ l.holders, x.clientId ≠ c)
    (now sn : Nat) : Backed (l.admitReader now sn c) [] := by
  have hone : OneWriter (l.admitReader now sn c).holders := h.one.admitReader hnew now sn
  rw [MdLock.admitReader, holders_goTo] at hone
  refine Backed.eval { h with
    state := ?_
    one := hone
    full := forall_mem_append.mpr ⟨h.full, forall_mem_singleton.mpr fun hc => ?_⟩
    retained := forall_mem_append.mpr ⟨h.retained, forall_mem_singleton.mpr rfl⟩
    backed := by simp, sole := by simp }
  · dsimp only
    split
    · rfl
    · exact h.state
  · dsimp only [newHolder] at hc
    split at hc <;> cases hc

/-- A reader is told that it may read, and no more. -/
theorem issued_admitReader [Env] (h : Backed l out) (hopen : closedToReaders l.state = false)
    (now sn : Nat) (c : C) : (l.admitReader now sn c).evalIssued = CapSet.capR := by
  have hclass := promotable_of_carries h.carries
  have hstate := h.state
  unfold admitReader goTo eval
  cases hs : l.state with
  | sync =>
    rw [hs] at hstate
    have hfile : l.lockType.lockClass = .fileLock := of_decide_eq_true hstate
    simp [hfile]
  | available | shared | loner => rcases hclass with hc | hc <;> simp [hc]
  | dscatter | inactive | revoking =>
    rw [hs] at hstate
    cases hstate
  | excl | gather | lock =>
    rw [hs] at hopen
    cases hopen

theorem served_reader [Env] (m : MdLock C) (now sn : Nat) (c : C) :
    Served (m.admitReader now sn c) c sn CapSet.capR false := by
  obtain ⟨caps, -, hh⟩ := holders_admitReader m now sn c
  refine ⟨fun _ => ⟨newHolder c sn caps (now + leaseDuration), ?_, rfl⟩,
    fun h => (by cases h), fun h => (by cases h), fun h => (by cases h), fun h => by cases h⟩
  rw [hh]
  exact mem_append_right _ (mem_singleton_self _)

/-- The only holder of an EXCL lock is told that it has the full set. -/
theorem evalIssued_excl (hclass : l.lockType.lockClass = .simpleLock ∨
    l.lockType.lockClass = .fileLock) (hs : l.state = .excl) (hlen : l.holders.length = 1) :
    l.eval.evalIssued = l.lockType.capBits := by
  unfold eval
  rcases hclass with hc | hc
  · simp [hc, hs, hlen]
  have hfile : l.lockType = .file := by
    revert hc
    cases l.lockType <;> simp [LockType.lockClass]
  simp [hs, hlen, hfile, LockType.lockClass]

/-- The only holder is left alone on the lock. -/
theorem served_alone (hcarries : l.lockType.capBits.conflicts = true) (hx : l.holders = [x])
    (hfull : x.grantedCaps.conflicts = true) (hfree : ∀ e ∈ l.gatherList, e.clientId ≠ x.clientId) :
    Served (l.goTo .excl) x.clientId x.sn (l.goTo .excl).evalIssued true := by
  have hcaps : (l.goTo .excl).evalIssued = l.lockType.capBits :=
    evalIssued_excl (l := { l with state := .excl }) (promotable_of_carries hcarries) rfl
      (by rw [hx]; rfl)
  have hmem : ∀ y, y ∈ (l.goTo .excl).holders ↔ y = x := by simp [hx]
  refine ⟨fun _ => ⟨x, (hmem x).mpr rfl, rfl⟩, fun _ => ⟨x, (hmem x).mpr rfl, rfl, rfl, hfull⟩,
    fun _ => by rw [gatherList_goTo]; exact hfree, fun _ _ y hy => by rw [(hmem y).mp hy],
    fun _ _ => by rw [hcaps]; exact hcarries⟩

theorem Backed.admitExclusive [Env] (h : Backed l []) (hnil : l.holders = [])
    (hfree : ∀ e ∈ l.gatherList, e.clientId ≠ c) (now sn : Nat) :
    Backed (l.admitExclusive now sn c) [] ∧ Served (l.admitExclusive now sn c) c sn
      (l.admitExclusive now sn c).evalIssued true := by
  have hone : OneWriter (l.admitExclusive now sn c).holders :=
    h.one.admitExclusive hnil now sn c
  rw [MdLock.admitExclusive, holders_eval] at hone
  refine ⟨Backed.eval { h with
    state := rfl, one := hone, full := ?_, retained := ?_, backed := by simp, sole := by simp }, ?_⟩
  · rw [hnil]
    exact forall_mem_singleton.mpr fun _ => rfl
  · rw [hnil]
    exact forall_mem_singleton.mpr rfl
  · refine served_alone (l := { l with holders := l.holders ++
      [MdLock.newHolder c sn l.lockType.capBits (now + leaseDuration)] })
      (x := MdLock.newHolder c sn l.lockType.capBits (now + leaseDuration))
      h.carries ?_ h.carries hfree
    rw [hnil]
    rfl

/-- A holder that a fresh gather recalls from is on its list. -/
theorem listed_of_recalled (hs : l.state ≠ .gather) (k : Counters) (now : Nat)
    (target : GatherTarget) (hy : y ∈ l.holders) (hr : (recalled y).isSome = true) :
    (l.openGather k now target recalled).lock.gatherRemaining ≠ 0 ∧
      ∃ e ∈ (l.openGather k now target recalled).lock.gatherList, e.clientId = y.clientId := by
  have hin : y ∈ l.holders.filter fun h => (recalled h).isSome := mem_filter.mpr ⟨hy, hr⟩
  rw [openGather, if_neg hs]
  refine ⟨Nat.ne_of_gt ?_, _, mem_append_right _ (mem_map_of_mem hin), rfl⟩
  exact Nat.lt_of_lt_of_le (length_pos_of_mem hin) (Nat.le_add_left _ _)

/-- Nothing stands of what a call gave up. -/
theorem none_left {reclaimed : List (C × Nat)} (hK : ∀ g ∈ K, g ∈ out)
    (hrec : ∀ g ∈ K, (g.client, g.sn) ∉ reclaimed)
    (hall : ∀ g ∈ out, (g.client, g.sn) ∈ reclaimed) : K = [] :=
  eq_nil_iff_forall_not_mem.mpr fun g hg => hrec g hg (hall g (hK g hg))

variable [DecidableEq C]

/-! ## Sound sections -/

/-- What one section keeps and shows. -/
structure Sound [Env] (k : Counters) (l : MdLock C) (act : Act C)
    (out : List (Grant C)) : Prop where
  backed : Backed (act.run k l).lock (note k l act out)
  handed : ∀ g ∈ made k l act, ∀ g' ∈ kept k l act out, g'.client = g.client
  alone : ∀ c sn caps sole, issued act (act.run k l).reply = some (c, sn, caps, sole) →
    sn ≠ 0 → ∀ g ∈ kept k l act out, g.sole = true → g.client = c
  exclusive : ∀ c sn caps, issued act (act.run k l).reply = some (c, sn, caps, true) →
    sn ≠ 0 → (∀ x ∈ (act.run k l).lock.holders, x.clientId = c) ∧
      ∃ g ∈ made k l act, g.client = c ∧ g.sn = sn ∧ g.sole = true

theorem findHolder_of_mem (h : OneWriter l.holders) (hx : x ∈ l.holders) :
    l.findHolder x.clientId = some x := by
  cases hf : l.findHolder x.clientId with
  | none => exact absurd rfl (findHolder_none hf x hx)
  | some y =>
    rw [h.unique (findHolder_some hf).1 hx (findHolder_some hf).2]

theorem sound_of [Env] (hb : Backed (act.run k l).lock (kept k l act out))
    (hs : ∀ c sn caps sole, issued act (act.run k l).reply = some (c, sn, caps, sole) →
      Served (act.run k l).lock c sn caps sole) : Sound k l act out := by
  have hmade : made k l act = [] ∨ ∃ g x, made k l act = [g] ∧
      x ∈ (act.run k l).lock.holders ∧ Backs x g ∧
      (∀ e ∈ (act.run k l).lock.gatherList, e.clientId ≠ g.client) ∧
      (g.sole = true → ∀ y ∈ (act.run k l).lock.holders, y.clientId = g.client) := by
    cases hi : issued act (act.run k l).reply with
    | none => exact .inl (by simp only [made, hi])
    | some p =>
      obtain ⟨c, sn, caps, sole⟩ := p
      have hserved := hs c sn caps sole hi
      simp only [made, hi]
      split
      · rename_i hc
        obtain ⟨x, hx, rfl, rfl, hxc⟩ := hserved.writes hc
        rw [findHolder_of_mem hb.one hx]
        exact .inr ⟨_, x, rfl, hx, ⟨rfl, rfl, hxc, le_refl _⟩, hserved.free hc,
          fun h => hserved.sole h (.inr hc)⟩
      · exact .inl rfl
  refine ⟨?_, ?_, ?_, ?_⟩
  · rw [note]
    rcases hmade with hm | ⟨g, x, hm, hx, hbacks, hfree, hsole⟩
    · rw [hm, append_nil]
      exact hb
    · rw [hm]
      exact hb.add hx hbacks hfree hsole
  · intro g hg g' hg'
    rcases hmade with hm | ⟨g₀, x, hm, hx, hbacks, -, -⟩
    · rw [hm] at hg
      cases hg
    · rw [hm] at hg
      rw [mem_singleton.mp hg, hb.client_eq hx hbacks.2.2.1 g' hg', hbacks.1]
  · intro c sn caps sole hi hne g hg hsole
    obtain ⟨x, hx, rfl⟩ := (hs c sn caps sole hi).present hne
    exact (hb.sole g hg hsole x hx).symm
  · intro c sn caps hi hne
    refine ⟨(hs c sn caps true hi).sole rfl (.inl hne), ?_⟩
    simp only [made, hi, (hs c sn caps true hi).full rfl hne, if_true]
    exact ⟨_, mem_singleton_self _, rfl, rfl, rfl⟩

/-- A section that issues nothing. -/
theorem sound_silent [Env] (hb : Backed (act.run k l).lock (kept k l act out))
    (hi : issued act (act.run k l).reply = none) : Sound k l act out :=
  sound_of hb fun c sn caps sole h => by rw [hi] at h; cases h

theorem mem_kept [Env] (h : g ∈ kept k l act out) :
    g ∈ out ∧ yields g act = false ∧ (∀ now, moment k act = some now → now < g.expireAt) ∧
      (g.client, g.sn) ∉ (act.run k l).reclaimed := by
  simp only [kept, mem_filter, Bool.and_eq_true, Bool.not_eq_true', decide_eq_true_eq] at h
  obtain ⟨hg, ⟨hy, hm⟩, hr⟩ := h
  refine ⟨hg, hy, fun now hnow => ?_, hr⟩
  rw [hnow] at hm
  simpa using hm

/-! ## Requests -/

/-- The grants that stand after a request, as far as the clock and the timeouts go. -/
theorem sound_request [Env] {s : Bool} {f : act.Answer → LockGrantResult C}
    (hmoment : moment k act = some now)
    (hissued : ∀ r, issued act r = some (c, (f r).sn, (f r).grantedCaps, s))
    (h : ∀ o, act.run k l = o → ∀ K : List (Grant C),
      (∀ g ∈ K, g ∈ out.filter fun g => now < g.expireAt) →
      (∀ g ∈ K, (g.client, g.sn) ∉ o.reclaimed) →
      Backed o.lock K ∧ Served o.lock c (f o.reply).sn (f o.reply).grantedCaps s) :
    Sound k l act out := by
  obtain ⟨hb, hs⟩ := h _ rfl (kept k l act out) (fun g hg => mem_filter.mpr
      ⟨(mem_kept hg).1, decide_eq_true ((mem_kept hg).2.2.1 now hmoment)⟩)
    fun g hg => (mem_kept hg).2.2.2
  refine sound_of hb fun c' sn caps sole' hi => ?_
  rw [hissued] at hi
  cases hi
  exact hs

theorem recallConflicting_isSome (hy : y.clientId ≠ c) (hc : y.grantedCaps.conflicts = true) :
    (recallConflicting conflictCaps c y).isSome = true := by
  have hne : (y.grantedCaps.inter conflictCaps).isEmpty = false := by
    simpa [CapSet.conflicts] using hc
  simp [recallConflicting, hy, hne]

theorem rdlock_sound [Env] (h : Backed l out) (hc : Careful k l (.rdlock c)) :
    Sound k l (.rdlock c) out := by
  refine sound_request (s := false) (f := id) rfl (fun _ => rfl) fun o ho K hK hrec => ?_
  have hm := h.collect (instant k.reads)
  have hfree : ∀ e ∈ (l.collect (instant k.reads)).gatherList, e.clientId ≠ c := by
    rw [gatherList_collect]
    exact hc
  simp only [Act.run, rdlock] at ho
  split at ho
  · subst ho
    exact ⟨hm.mono hK, served_refusal _ c _⟩
  rename_i hopen
  have hopen := Bool.eq_false_iff.mpr hopen
  split at ho
  · rename_i x hx
    subst ho
    exact ⟨hm.mono hK, served_renewal hfree (findHolder_some hx).1 (findHolder_some hx).2⟩
  rename_i hnone
  have hnew := findHolder_none hnone
  split at ho
  · rename_i hneeds
    have hfresh : (l.collect (instant k.reads)).state ≠ .gather := by
      intro hs
      rw [hs] at hopen
      cases hopen
    have hlist : ∀ y ∈ (l.collect (instant k.reads)).holders,
        y.grantedCaps.conflicts = true → _ := fun y hy hcy =>
      listed_of_recalled hfresh k.read.nextSn (instant k.reads) .toShared hy
        (recallConflicting_isSome (hnew y hy) hcy)
    split at ho
    · subst ho
      exact ⟨hm.gatherStage (recallConflicting_taking c) rfl hK hrec, served_refusal _ c _⟩
    · -- the recalls are new, so the gather ends only if they all ran out of time at once
      rename_i hdone
      subst ho
      obtain ⟨y, hy, hrival⟩ := any_eq_true.mp hneeds
      obtain ⟨hend, hgone⟩ := hm.stage_clears (recallConflicting_taking c) rfl
        (hlist y hy (by simpa [hnew y hy] using hrival)).1 (fun g hg => by
          obtain ⟨z, hz, hb⟩ := hm.backed g hg
          obtain ⟨-, e, he, hec⟩ := hlist z hz hb.2.2.1
          exact ⟨e, he, hec.trans hb.1⟩) hdone
      rw [none_left hK hrec hgone]
      have hmild := (milder_gatherComplete _).trans (milder_gatherStage
        k.read.nextSn (l.collect (instant k.reads)) (recallConflicting_taking c).tame
        (instant k.reads) .toShared)
      refine ⟨hend.admitReader (fun x hx => ?_) _ _, ?_⟩
      · obtain ⟨z, hz, hw⟩ := Milder.origin hmild hx
        rw [hw.clientId]
        exact hnew z hz
      · rw [issued_admitReader hend]
        · exact served_reader _ _ _ _
        · rw [state_gatherComplete, gatherStage, gatherTarget_gatherTimeout,
            openGather, if_neg hfresh]
          rfl
  · rename_i hneeds
    subst ho
    have hnil : K = [] := (hm.mono hK).eq_nil fun x hx => by
      by_contra hcx
      exact hnew x hx (needsGather_false (Bool.eq_false_iff.mpr hneeds) x hx
        (Bool.not_eq_false _ ▸ hcx))
    rw [hnil]
    refine ⟨(hm.mono (by simp)).admitReader hnew _ _, ?_⟩
    rw [issued_admitReader hm hopen]
    exact served_reader _ _ _ _

theorem mem_admitWriter [Env] {sn : Nat} (hx : x ∈ (l.admitWriter now sn c).holders) :
    x ∈ l.holders ∨ x.grantedCaps = l.lockType.capBits ∧
      (x.retainCaps = CapSet.none ∨ ∃ y ∈ l.holders, x.retainCaps = y.retainCaps) := by
  rw [admitWriter, holders_eval] at hx
  cases hf : l.findHolder c with
  | none =>
    rw [hf] at hx
    rcases mem_append.mp hx with hx | hx
    · exact .inl hx
    · rw [mem_singleton.mp hx]
      exact .inr ⟨rfl, .inl rfl⟩
  | some old =>
    rw [hf] at hx
    rcases mem_modifyFirst hx with hx | ⟨y, hy, -, rfl⟩
    · exact .inl hx
    · exact .inr ⟨rfl, .inr ⟨y, hy, rfl⟩⟩

/-- The LONER's record has the full set, under the serial that the client is told. -/
theorem Backed.admitWriter [Env] (h : Backed l [])
    (honly : ∀ x ∈ l.holders, x.grantedCaps.conflicts = true → x.clientId = c)
    (hfree : ∀ e ∈ l.gatherList, e.clientId ≠ c) (now sn : Nat) :
    Backed (l.admitWriter now sn c) [] ∧
      Served (l.admitWriter now sn c) c sn (l.admitWriter now sn c).lockType.capBits
        false := by
  have hone : OneWriter (l.admitWriter now sn c).holders :=
    OneWriter.admitWriter h.carries h.one honly now sn
  have hlist : (l.admitWriter now sn c).gatherList = l.gatherList := gatherList_eval _
  have hrecord : ∃ x ∈ (l.admitWriter now sn c).holders,
      x.clientId = c ∧ x.sn = sn ∧ x.grantedCaps = l.lockType.capBits := by
    rw [MdLock.admitWriter, holders_eval]
    cases hf : l.findHolder c with
    | none => exact ⟨_, mem_append_right _ (mem_singleton_self _), rfl, rfl, rfl⟩
    | some old =>
      exact ⟨_, mem_modifyFirst_of_find hf, (findHolder_some hf).2, rfl, rfl⟩
  have hmem : ∀ x ∈ (l.admitWriter now sn c).holders, _ := fun x hx => mem_admitWriter hx
  rw [MdLock.admitWriter, holders_eval] at hone hmem
  refine ⟨Backed.eval { h with
    state := rfl, one := hone, full := fun x hx hc => ?_, retained := fun x hx => ?_
    backed := by simp, sole := by simp }, ?_⟩
  · rcases hmem x hx with hx | ⟨hcaps, -⟩
    · exact h.full x hx hc
    · exact hcaps
  · rcases hmem x hx with hx | ⟨-, hret | ⟨y, hy, hret⟩⟩
    · exact h.retained x hx
    · rw [hret]
      rfl
    · rw [hret]
      exact h.retained y hy
  · obtain ⟨x, hx, hc, hsn, hcaps⟩ := hrecord
    have hconf : x.grantedCaps.conflicts = true := by rw [hcaps]; exact h.carries
    exact ⟨fun _ => ⟨x, hx, hc⟩, fun _ => ⟨x, hx, hc, hsn, hconf⟩,
      fun _ => by rw [hlist]; exact hfree, fun h => (by cases h), fun h => by cases h⟩

theorem wrlock_sound [Env] (h : Backed l out) (hc : Careful k l (.wrlock c)) :
    Sound k l (.wrlock c) out := by
  refine sound_request (s := false) (f := id) rfl (fun _ => rfl) fun o ho K hK hrec => ?_
  have hm := h.collect (instant k.reads)
  obtain ⟨hfree, hpatient, hown⟩ := hc
  rw [← gatherList_collect (instant k.reads)] at hfree
  rw [← holders_collect] at hown
  simp only [Act.run, wrlock] at ho
  split at ho
  · rename_i x hx
    obtain ⟨-, hhead, hclient⟩ := lonerOf_some hx
    subst ho
    exact ⟨hm.mono hK, served_renewal hfree (mem_of_mem_head? hhead) hclient⟩
  rename_i hloner
  have hown := hown hloner
  have hrival : ∀ g ∈ out.filter fun g => instant k.reads < g.expireAt, g.client ≠ c := by
    intro g hg hgc
    obtain ⟨x, hx, hb⟩ := hm.backed g hg
    have := hb.2.2.1
    rw [hown x hx (hb.1.trans hgc)] at this
    cases this
  split at ho
  · rename_i hneeds
    have htarget : plainTarget (l.collect (instant k.reads)).lockType
        (l.collect (instant k.reads)).wrlockTarget = true := by
      unfold wrlockTarget
      split <;> rfl
    split at ho
    · subst ho
      exact ⟨hm.gatherStage (recallConflicting_taking c) htarget hK hrec, served_refusal _ c _⟩
    · rename_i hdone
      subst ho
      rcases hpatient hloner hneeds with hopen | hclears
      · exact absurd hopen.waits hdone
      obtain ⟨hend, hgone⟩ := hm.cleared (recallConflicting_taking c) htarget hclears
        (fun g hg x hb => ⟨by rw [hb.1]; exact hrival g hg, hb.2.2.1⟩) hdone
      rw [none_left hK hrec hgone]
      have hclear := hclears.cleared (fun x hx => hx) hdone
      exact hend.admitWriter (fun x hx hcx => by
        by_contra hne
        exact hclear x hx ⟨hne, hcx⟩) (by simp) _ _
  · rename_i hneeds
    subst ho
    have hsafe := needsGather_false (Bool.eq_false_iff.mpr hneeds)
    have hnil : K = [] := eq_nil_iff_forall_not_mem.mpr fun g hg => by
      obtain ⟨x, hx, hb⟩ := hm.backed g (hK g hg)
      exact hrival g (hK g hg) (hb.1.symm.trans (hsafe x hx hb.2.2.1))
    rw [hnil]
    exact (hm.mono (by simp)).admitWriter hsafe hfree _ _

theorem xlock_sound [Env] (h : Backed l out) (hc : Careful k l (.xlock c)) :
    Sound k l (.xlock c) out := by
  refine sound_request (s := true) (f := id) rfl (fun _ => rfl) fun o ho K hK hrec => ?_
  have hm := h.collect (instant k.reads)
  obtain ⟨hfree, hpatient, hupgrade⟩ := hc
  rw [← gatherList_collect (instant k.reads)] at hfree
  rw [← holders_collect] at hupgrade
  simp only [Act.run, xlock] at ho
  split at ho
  · rename_i hnil
    subst ho
    have hK : K = [] := (hm.mono hK).eq_nil fun x hx => by rw [hnil] at hx; cases hx
    rw [hK]
    exact (hm.mono (by simp)).admitExclusive hnil hfree _ _
  rename_i x rest hcons
  split at ho
  · rename_i hone
    obtain ⟨hrest, rfl⟩ := hone
    rw [isEmpty_iff.mp hrest] at hcons
    subst ho
    exact ⟨(hm.mono hK).goTo rfl, served_alone hm.carries hcons (hupgrade x hcons rfl) hfree⟩
  · rename_i hother
    split at ho
    · subst ho
      exact ⟨hm.gatherStage (recallAll_taking (some c)) rfl hK hrec, served_refusal _ c _⟩
    · rename_i hdone
      subst ho
      rcases hpatient (hm.one.exists_other hcons hother) with hopen | hclears
      · exact absurd hopen.waits hdone
      obtain ⟨hend, hgone⟩ := hm.cleared (recallAll_taking (some c)) rfl hclears
        (fun _ _ _ _ => trivial) hdone
      rw [none_left hK hrec hgone]
      refine hend.admitExclusive ?_ (by simp) _ _
      exact eq_nil_iff_forall_not_mem.mpr fun x hx =>
        hclears.cleared (fun _ _ => trivial) hdone x hx trivial

end PowerFS.Filer.Grants
