import Mathlib.Data.List.Basic

/-! # Runs under a condition

A deterministic machine takes one step after another. `Along step P a bs` says that
every step of the run `bs` from `a` meets the condition `P` in the state it is taken
from; the lemmas carry an invariant along such a run. -/
namespace PowerFS.Lib.StepRuns

variable {σ β : Type} {step : σ → β → σ} {P Q : σ → β → Prop}

/-- Every step of the run meets `P` in the state it starts from. -/
def Along (step : σ → β → σ) (P : σ → β → Prop) : σ → List β → Prop
  | _, [] => True
  | a, b :: bs => P a b ∧ Along step P (step a b) bs

instance Along.decidable [∀ a b, Decidable (P a b)] :
    (a : σ) → (bs : List β) → Decidable (Along step P a bs)
  | _, [] => .isTrue trivial
  | a, b :: bs => @instDecidableAnd _ _ _ (Along.decidable (step a b) bs)

variable {a : σ} {bs : List β} {I : σ → Prop}

theorem along_append {cs : List β} :
    Along step P a (bs ++ cs) ↔ Along step P a bs ∧ Along step P (bs.foldl step a) cs := by
  induction bs generalizing a with
  | nil => exact ⟨fun h => ⟨trivial, h⟩, And.right⟩
  | cons b bs ih =>
    rw [List.cons_append, Along, Along, ih, List.foldl_cons, and_assoc]

theorem along_and :
    Along step (fun a b => P a b ∧ Q a b) a bs ↔ Along step P a bs ∧ Along step Q a bs := by
  induction bs generalizing a with
  | nil => exact ⟨fun _ => ⟨trivial, trivial⟩, fun _ => trivial⟩
  | cons b bs ih =>
    rw [Along, Along, Along, ih]
    exact and_and_and_comm

/-- A run that meets the condition meets it up to every moment. -/
theorem Along.before {cs : List β} (h : Along step P a (bs ++ cs)) : Along step P a bs :=
  (along_append.mp h).1

/-- What every step keeps holds at the end of the run. -/
theorem Along.invariant (hstep : ∀ a b, I a → P a b → I (step a b)) (ha : I a)
    (h : Along step P a bs) : I (bs.foldl step a) := by
  induction bs generalizing a with
  | nil => exact ha
  | cons b bs ih => exact ih (hstep a b ha h.1) h.2

/-- What an invariant shows of one step is so of every step of the run. -/
theorem Along.each (hstep : ∀ a b, I a → P a b → I (step a b) ∧ Q a b) (ha : I a)
    (h : Along step P a bs) : Along step Q a bs := by
  induction bs generalizing a with
  | nil => trivial
  | cons b bs ih =>
    obtain ⟨hnext, hq⟩ := hstep a b ha h.1
    exact ⟨hq, ih hnext h.2⟩

/-- Two conditions that say the same under an invariant, which either of them keeps, say the
same of the whole run. -/
theorem along_iff (hstep : ∀ a b, I a → P a b → I (step a b)) (heq : ∀ a b, I a → (P a b ↔ Q a b))
    (bs : List β) (ha : I a) : Along step P a bs ↔ Along step Q a bs := by
  induction bs generalizing a with
  | nil => exact Iff.rfl
  | cons b bs ih =>
    rw [Along, Along, heq a b ha]
    refine and_congr_right fun hq => ?_
    exact ih (hstep a b ha ((heq a b ha).mpr hq))

/-- Two conditions that say the same under an invariant say the same of the whole run. -/
theorem along_congr (hstep : ∀ a b, I a → I (step a b)) (heq : ∀ a b, I a → (P a b ↔ Q a b))
    (bs : List β) (ha : I a) : Along step P a bs ↔ Along step Q a bs :=
  along_iff (fun a b h _ => hstep a b h) heq bs ha

end PowerFS.Lib.StepRuns
