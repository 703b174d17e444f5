import PowerFS.Lib.StepRuns
import PowerFS.Lease.Exclusion

/-! # Leases across restarts

`powerfs-lease/src/persistence.rs` and the calls of the store that use it: a granted or renewed
entry is saved under its token, a removed one is deleted, and `persist_epoch` saves the epoch
counter. After a crash a fresh store loads the entries that have not expired and sets its
counter from them and from the saved epoch. A lease that is gone by then is not among them, so
its epoch comes again unless a later one was saved. -/
namespace PowerFS.Lease.Persistence
open Lib.StepRuns Store StripeLeases List

/-- A lease store with its backend. -/
structure Node (K : Type) where
  store : MemoryLeaseStore K
  saved : Map LeaseToken (LeaseEntry K)
  savedEpoch : Nat
  /-- The epochs assigned to grants and renewals, in order. -/
  issued : List Nat
  boots : Nat

/-- `acts` says for which tokens the backend does what it is asked; a failure is only logged.
`times` are the moments a saved entry gets when it is decoded, none if it has expired. -/
inductive Event (K : Type)
  | call (q : Request K) (acts : LeaseToken → Bool)
  | persistEpoch
  | restart (times : LeaseToken → Option (Nat × Nat))

variable {K : Type} [LeaseKey K]

section Calls

variable [Env]

/-- The entries that a call grants or renews. -/
def written (s : MemoryLeaseStore K) : Request K → List (LeaseEntry K)
  | .acquire key holder mode duration =>
    (acquire s key holder mode duration).2.toOption.toList
  | .acquireBatch keys holder mode duration =>
    (acquireBatch s keys holder mode duration).2.toOption.getD []
  | .renew token holder duration =>
    match renew s token holder duration with
    | (s', .ok ()) => (s'.leases.lookup token).toList
    | (_, .error _) => []
  | .release .. | .disconnectHolder _ | .cleanupExpired => []

def Node.call (n : Node K) (q : Request K) (acts : LeaseToken → Bool) : Node K :=
  let entries := written n.store q
  let store := handle n.store q
  let saved := (entries.filter fun e => acts e.token).foldl (fun m e => m.insert e.token e) n.saved
  { n with
    store
    saved := (n.store.leases.keys.filter fun t => t ∉ store.leases && acts t).foldl
      (fun m t => m.erase t) saved
    issued := n.issued ++ entries.map (·.epoch) }

end Calls

/-- The part of `load_from_persistence` for one saved entry. -/
def loadEntry (times : LeaseToken → Option (Nat × Nat)) (s : MemoryLeaseStore K)
    (entry : LeaseEntry K) : MemoryLeaseStore K :=
  match times entry.token with
  | none => s
  | some (acquiredAt, expireAt) =>
    grant { s with epochCounter :=
        if s.epochCounter ≤ entry.epoch then entry.epoch + 1 else s.epochCounter }
      { entry with acquiredAt, expireAt }

/-- The saved entries, in the order the backend returns them. -/
def Node.entries (n : Node K) : List (LeaseEntry K) := n.saved.entries.map Sigma.snd

/-- A crash, and a fresh store that loads what was saved. -/
def Node.restart (n : Node K) (times : LeaseToken → Option (Nat × Nat)) : Node K :=
  { n with
    store := n.entries.foldl (loadEntry times) { MemoryLeaseStore.new n.store.cleanupGrace with
      epochCounter := if 0 < n.savedEpoch then n.savedEpoch + 1 else 0 }
    saved := (n.saved.keys.filter fun t => (times t).isNone).foldl (fun m t => m.erase t) n.saved
    boots := n.boots + 1 }

/-- The clock and the random parts of tokens are those of the running process. -/
def Node.step (env : Nat → Env) (n : Node K) : Event K → Node K
  | .call q acts => letI := env n.boots; n.call q acts
  | .persistEpoch => { n with savedEpoch := n.store.epochCounter }
  | .restart times => n.restart times

variable (K) in
def Node.start (cleanupGrace : Nat) : Node K := ⟨.new cleanupGrace, ∅, 0, [], 0⟩

/-! ## The epochs of a call -/

omit [LeaseKey K] in
theorem epochCounter_foldl {β : Type} {f : MemoryLeaseStore K → β → MemoryLeaseStore K}
    (hf : ∀ s b, (f s b).epochCounter = s.epochCounter) (bs : List β) (s : MemoryLeaseStore K) :
    (bs.foldl f s).epochCounter = s.epochCounter :=
  (foldl_hom MemoryLeaseStore.epochCounter fun s b => (hf s b).symm).symm.trans (foldl_fixed bs)

theorem epochCounter_removeLease (s : MemoryLeaseStore K) (t : LeaseToken) :
    (removeLease s t).epochCounter = s.epochCounter := by
  fun_cases removeLease <;> rfl

section Epochs

variable [Env] {s : MemoryLeaseStore K}

/-- A batch takes one epoch for each key it has checked. -/
theorem checkBatch_epochs {holder : String} {mode : LeaseMode} {now duration : Nat} {keys : List K}
    {pending : List (LeaseEntry K)} {n n' epoch epoch' : Nat}
    {r : Except LeaseError (List (LeaseEntry K))}
    (h : checkBatch s holder mode now duration keys pending n epoch = (r, n', epoch')) :
    epoch ≤ epoch' ∧ ∀ out, r = .ok out → epoch' = epoch + keys.length ∧
      ∃ new, out = pending ++ new ∧ new.map (·.epoch) = range' epoch keys.length := by
  fun_induction checkBatch with
  | case1 =>
    cases h
    refine ⟨le_refl _, ?_⟩
    rintro out ⟨⟩
    exact ⟨rfl, [], (append_nil _).symm, rfl⟩
  | case2 | case3 =>
    cases h
    refine ⟨le_refl _, ?_⟩
    rintro out ⟨⟩
  | case4 key keys pending _ epoch _ _ _ _ ih =>
    obtain ⟨hle, hok⟩ := ih h
    refine ⟨Nat.le_of_succ_le hle, fun out hout => ?_⟩
    obtain ⟨hnext, new, rfl, hepochs⟩ := hok out hout
    refine ⟨by rw [hnext, length_cons]; omega, _ :: new, append_assoc .., ?_⟩
    rw [map_cons, hepochs]
    rfl

variable (s) in
/-- **A call takes the next epochs.** -/
theorem written_epochs (q : Request K) :
    ∃ n, (written s q).map (·.epoch) = range' s.epochCounter n ∧
      s.epochCounter + n ≤ (handle s q).epochCounter := by
  cases q with
  | acquire key holder mode duration =>
    simp only [written, handle]
    fun_cases acquire with
    | case1 => exact ⟨0, rfl, le_refl _⟩
    | case2 => exact ⟨1, rfl, le_refl _⟩
  | acquireBatch keys holder mode duration =>
    simp only [written, handle]
    fun_cases acquireBatch with
    | case1 => exact ⟨0, rfl, le_refl _⟩
    | case2 _ _ _ _ _ hcheck => exact ⟨0, rfl, (checkBatch_epochs hcheck).1⟩
    | case3 _ _ pending _ epoch hcheck =>
      obtain ⟨hnext, new, rfl, hepochs⟩ := (checkBatch_epochs hcheck).2 _ rfl
      refine ⟨keys.length, hepochs, ?_⟩
      exact (epochCounter_foldl (f := grant) (fun _ _ => rfl) pending _).symm ▸ hnext.ge
  | renew token holder duration =>
    simp only [written, handle]
    fun_cases renew with
    | case1 | case2 => exact ⟨0, rfl, le_refl _⟩
    | case3 => exact ⟨1, by simp, le_refl _⟩
  | release token holder =>
    refine ⟨0, rfl, ?_⟩
    simp only [handle]
    fun_cases release <;> exact le_refl _
  | disconnectHolder holder =>
    exact ⟨0, rfl, (epochCounter_foldl epochCounter_removeLease _ s).ge⟩
  | cleanupExpired =>
    refine ⟨0, rfl, Eq.ge (epochCounter_foldl (fun s t => ?_) _ { s with ticks := s.ticks + 1 })⟩
    fun_cases expireLease with
    | case1 => rfl
    | case2 => exact epochCounter_removeLease s t

end Epochs

/-! ## Restarts -/

/-- The epochs assigned so far rise, and the next one will be above them all. -/
def NeverReused (n : Node K) : Prop :=
  n.issued.Pairwise (· < ·) ∧ ∀ e ∈ n.issued, e < n.store.epochCounter

/-- At a restart every epoch assigned so far is covered by the saved epoch, or by a saved entry
that has not expired. -/
def Remembered (n : Node K) : Event K → Prop
  | .restart times => ∀ e ∈ n.issued, 0 < n.savedEpoch ∧ e ≤ n.savedEpoch ∨
      ∃ entry ∈ n.entries, times entry.token ≠ none ∧ e ≤ entry.epoch
  | _ => True

/-- The counter after loading is above an epoch iff it was, or an entry that is loaded covers
it. -/
theorem lt_epochCounter_load {times : LeaseToken → Option (Nat × Nat)} {e : Nat}
    (entries : List (LeaseEntry K)) (s : MemoryLeaseStore K) :
    e < (entries.foldl (loadEntry times) s).epochCounter ↔
      e < s.epochCounter ∨ ∃ entry ∈ entries, times entry.token ≠ none ∧ e ≤ entry.epoch := by
  induction entries generalizing s with
  | nil => simp
  | cons entry entries ih =>
    have hone : e < (loadEntry times s entry).epochCounter ↔
        e < s.epochCounter ∨ times entry.token ≠ none ∧ e ≤ entry.epoch := by
      fun_cases loadEntry with
      | case1 hgone => simp [hgone]
      | case2 _ _ hread =>
        simp only [grant, hread, ne_eq, reduceCtorEq, not_false_eq_true, true_and]
        split <;> omega
    rw [foldl_cons, ih, hone, exists_mem_cons_iff, or_assoc]

theorem step_neverReused_iff (env : Nat → Env) {n : Node K} (h : NeverReused n)
    (event : Event K) : NeverReused (n.step env event) ↔ Remembered n event := by
  cases event with
  | call q acts =>
    let _ := env n.boots
    obtain ⟨m, hepochs, hnext⟩ := written_epochs n.store q
    refine iff_of_true ⟨?_, ?_⟩ trivial
    · refine pairwise_append.mpr ⟨h.1, ?_, fun e he x hx => ?_⟩
      · rw [hepochs]
        exact pairwise_lt_range'
      · rw [hepochs, mem_range'_1] at hx
        exact (h.2 e he).trans_le hx.1
    · refine forall_mem_append.mpr ⟨fun e he => ?_, fun e he => ?_⟩
      · exact (h.2 e he).trans_le (Nat.le_of_add_right_le hnext)
      · rw [hepochs, mem_range'_1] at he
        exact he.2.trans_le hnext
  | persistEpoch => exact iff_of_true h trivial
  | restart times =>
    refine (and_iff_right h.1).trans (forall₂_congr fun e _ => ?_)
    refine (lt_epochCounter_load n.entries _).trans (or_congr_left ?_)
    dsimp only
    split <;> omega

/-- **Epochs are never reused iff each restart finds them remembered**: the saved epoch or the
saved entries that have not expired reach up to every epoch assigned before. -/
theorem epochs_never_reused_iff (env : Nat → Env) (cleanupGrace : Nat) (events : List (Event K)) :
    Along (Node.step env) (fun n event => NeverReused (n.step env event))
      (.start K cleanupGrace) events ↔
    Along (Node.step env) Remembered (.start K cleanupGrace) events :=
  along_iff (I := NeverReused) (fun _ _ _ h => h)
    (fun _ event h => step_neverReused_iff env h event) events ⟨.nil, forall_mem_nil _⟩

/-- A lease is released, the server restarts, and the next lease is granted. -/
def releasedBefore : List (Event StripeWords) :=
  [.call (.acquire ⟨1, 0, 4⟩ "a" .exclusive 10) fun _ => true,
    .call (.release ⟨0, 0⟩ "a") fun _ => true,
    .restart fun _ => some (0, 10),
    .call (.acquire ⟨1, 0, 4⟩ "b" .exclusive 10) fun _ => true]

/-- Both leases have the epoch 0. -/
theorem epoch_reused : (releasedBefore.foldl (Node.step fun boots => ⟨id, fun _ => boots⟩)
    (.start StripeWords 5000)).issued = [0, 0] := rfl

end PowerFS.Lease.Persistence
