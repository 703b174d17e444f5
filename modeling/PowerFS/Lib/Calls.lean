import Mathlib

/-! # Calls on a state

A call changes a state and returns a value or an error. What it did before an error
stays done. It may also not return at all. `Returns` says how a call ends; one
inversion lemma per combinator takes a composed call apart. -/
namespace PowerFS.Lib.Calls

/-- `none` means that the call does not return. -/
def Call (σ ε α : Type) : Type := σ → Option (Except ε α × σ)

variable {σ ε α β : Type}

/-- The first error ends a sequence of calls. -/
instance : Monad (Call σ ε) where
  pure a := fun s => some (.ok a, s)
  bind x f := fun s => match x s with
    | none => none
    | some (.error e, s') => some (.error e, s')
    | some (.ok a, s') => f a s'

namespace Call

def fail (e : ε) : Call σ ε α := fun s => some (.error e, s)

def hang : Call σ ε α := fun _ => none

def get : Call σ ε σ := fun s => some (.ok s, s)

def modify (f : σ → σ) : Call σ ε Unit := fun s => some (.ok (), f s)

/-- Run a call and go on whether it fails or not. -/
def attempt (x : Call σ ε α) : Call σ ε (Except ε α) := fun s =>
  match x s with
  | none => none
  | some (r, s') => some (.ok r, s')

/-- Change the state once a call is over, however it ends. -/
def ensuring (x : Call σ ε α) (f : σ → σ) : Call σ ε α := fun s =>
  match x s with
  | none => none
  | some (r, s') => some (r, f s')

end Call

variable {x : Call σ ε α}

/-- The first part of a sequence has returned. -/
theorem bind_eq {f : α → Call σ ε β} {s s' : σ} {a : α} (h : x s = some (.ok a, s')) :
    (x >>= f) s = f a s' := by
  show (match x s with
    | none => none
    | some (.error e, s') => some (.error e, s')
    | some (.ok a, s') => f a s') = f a s'
  rw [h]

/-- From `s` the call returns `r` and leaves `s'`. -/
def Returns (x : Call σ ε α) (s : σ) (r : Except ε α) (s' : σ) : Prop := x s = some (r, s')

theorem Returns.unique {s s₁ s₂ : σ} {r₁ r₂ : Except ε α} (h₁ : Returns x s r₁ s₁)
    (h₂ : Returns x s r₂ s₂) : r₁ = r₂ ∧ s₁ = s₂ := by
  have heq : some (r₁, s₁) = some (r₂, s₂) := h₁.symm.trans h₂
  cases heq
  exact ⟨rfl, rfl⟩

/-- What is asked of the end of a call is decided by making the call. -/
instance {s : σ} {P : Except ε α → σ → Prop} [∀ r s', Decidable (P r s')] :
    Decidable (∀ r s', Returns x s r s' → P r s') :=
  match h : x s with
  | none => .isTrue fun _ _ hr => by cases h.symm.trans hr
  | some (r, s') => decidable_of_iff (P r s')
    ⟨fun hp _ _ hr => by cases h.symm.trans hr; exact hp, fun hall => hall r s' h⟩

section Inversion

variable {s s' : σ} {e : ε} {a : α} {r : Except ε α}

theorem Returns.pure (h : Returns (Pure.pure a : Call σ ε α) s r s') : r = .ok a ∧ s' = s := by
  cases h
  exact ⟨rfl, rfl⟩

theorem Returns.fail (h : Returns (Call.fail e : Call σ ε α) s r s') : r = .error e ∧ s' = s := by
  cases h
  exact ⟨rfl, rfl⟩

theorem Returns.modify {f : σ → σ} {r : Except ε Unit} (h : Returns (Call.modify f) s r s') :
    r = .ok () ∧ s' = f s := by
  cases h
  exact ⟨rfl, rfl⟩

theorem Returns.hang (h : Returns (Call.hang : Call σ ε α) s r s') : False := by
  cases h

variable {f : α → Call σ ε β} {x : Call σ ε α}

/-- A sequence stops at the error of its first part, or goes on with its value. -/
theorem Returns.bind {r : Except ε β} (h : Returns (x >>= f) s r s') :
    (∃ e, r = .error e ∧ Returns x s (.error e) s') ∨
    ∃ a s₁, Returns x s (.ok a) s₁ ∧ Returns (f a) s₁ r s' := by
  change (match x s with
    | none => none
    | some (.error e, s') => some (.error e, s')
    | some (.ok a, s') => f a s') = some (r, s') at h
  rcases hx : x s with _ | ⟨e | a, s₁⟩
  · rw [hx] at h
    cases h
  · rw [hx] at h
    cases h
    exact .inl ⟨e, rfl, hx⟩
  · rw [hx] at h
    exact .inr ⟨a, s₁, hx, h⟩

/-- What a sequence makes of the end of its first part: an error ends it. -/
def Then (f : α → Call σ ε β) : Except ε α → σ → Except ε β → σ → Prop
  | .error e, s₁, r, s' => r = .error e ∧ s' = s₁
  | .ok a, s₁, r, s' => Returns (f a) s₁ r s'

theorem Then.ok {r : Except ε β} (h : Then f (.ok a) s r s') : Returns (f a) s r s' := h

/-- The two parts of a sequence, however the first one ends. -/
theorem Returns.parts {r : Except ε β} (h : Returns (x >>= f) s r s') :
    ∃ r₀ s₁, Returns x s r₀ s₁ ∧ Then f r₀ s₁ r s' := by
  rcases h.bind with ⟨e, rfl, hx⟩ | ⟨a, s₁, hx, h⟩
  · exact ⟨.error e, s', hx, rfl, rfl⟩
  · exact ⟨.ok a, s₁, hx, h⟩

/-- A call that reads the state first. -/
theorem Returns.get_bind {f : σ → Call σ ε β} {r : Except ε β}
    (h : Returns (Call.get >>= f) s r s') : Returns (f s) s r s' := h

theorem Returns.modify_bind {g : σ → σ} {f : Unit → Call σ ε β} {r : Except ε β}
    (h : Returns (Call.modify g >>= f) s r s') : Returns (f ()) (g s) r s' := h

theorem Returns.bind_error {err : ε} (h : Returns x s (.error err) s') :
    Returns (x >>= f) s (.error err) s' := by
  show (match x s with
    | none => none
    | some (.error e, s') => some (.error e, s')
    | some (.ok a, s') => f a s') = some (.error err, s')
  rw [show x s = some (.error err, s') from h]

/-- A last step that only passes a result on. -/
theorem Returns.bind_pure {b : β} {r : Except ε β}
    (h : Returns (x >>= fun _ => Pure.pure b) s r s') : ∃ r', Returns x s r' s' := by
  rcases h.bind with ⟨e, _, hx⟩ | ⟨_, s₁, hx, hpure⟩
  · exact ⟨_, hx⟩
  · obtain ⟨_, rfl⟩ := hpure.pure
    exact ⟨_, hx⟩

theorem Returns.attempt {r : Except ε (Except ε α)} (h : Returns (Call.attempt x) s r s') :
    ∃ r₀, r = .ok r₀ ∧ Returns x s r₀ s' := by
  unfold Returns Call.attempt at h
  rcases hx : x s with _ | ⟨r₀, s₁⟩
  · rw [hx] at h
    cases h
  rw [hx] at h
  cases h
  exact ⟨r₀, rfl, hx⟩

theorem Returns.attempt_bind {f : Except ε α → Call σ ε β} {r : Except ε β}
    (h : Returns (Call.attempt x >>= f) s r s') :
    ∃ r₀ s₁, Returns x s r₀ s₁ ∧ Returns (f r₀) s₁ r s' := by
  obtain ⟨r₁, s₁, hatt, h⟩ := h.parts
  obtain ⟨r₀, rfl, hx⟩ := hatt.attempt
  exact ⟨r₀, s₁, hx, h⟩

theorem Returns.ensuring {f : σ → σ} (h : Returns (Call.ensuring x f) s r s') :
    ∃ s₁, Returns x s r s₁ ∧ s' = f s₁ := by
  unfold Returns Call.ensuring at h
  rcases hx : x s with _ | ⟨r₀, s₁⟩
  · rw [hx] at h
    cases h
  rw [hx] at h
  cases h
  exact ⟨s₁, hx, rfl⟩

end Inversion

/-! ## Calls that always return -/

def Answers (x : Call σ ε α) : Prop := ∀ s, ∃ r s', Returns x s r s'

theorem answers_pure (a : α) : Answers (pure a : Call σ ε α) := fun s => ⟨.ok a, s, rfl⟩

theorem answers_fail (e : ε) : Answers (Call.fail e : Call σ ε α) := fun s => ⟨.error e, s, rfl⟩

theorem answers_get : Answers (Call.get : Call σ ε σ) := fun s => ⟨.ok s, s, rfl⟩

theorem answers_modify (f : σ → σ) : Answers (Call.modify f : Call σ ε Unit) :=
  fun s => ⟨.ok (), f s, rfl⟩

theorem Answers.bind {f : α → Call σ ε β} (hx : Answers x) (hf : ∀ a, Answers (f a)) :
    Answers (x >>= f) := by
  intro s
  obtain ⟨r, s₁, h⟩ := hx s
  cases r with
  | error e => exact ⟨.error e, s₁, h.bind_error⟩
  | ok a =>
    obtain ⟨r', s₂, h'⟩ := hf a s₁
    exact ⟨r', s₂, (bind_eq h).trans h'⟩

theorem Answers.attempt (hx : Answers x) : Answers (Call.attempt x) := by
  intro s
  obtain ⟨r, s₁, h⟩ := hx s
  refine ⟨.ok r, s₁, ?_⟩
  unfold Returns Call.attempt
  rw [show x s = _ from h]

end PowerFS.Lib.Calls
