import Mathlib

/-! # Extents

Ranges of a store that are handed out from below: they do not overlap, and all of them
lie between a lower bound and a mark up to which the store is in use. A new range is
taken at the mark. Whoever owns a range may hand it on to another owner. -/
namespace PowerFS.Lib.Extents

structure Extent where
  start : Nat
  len : Nat

def Extent.stop (e : Extent) : Nat := e.start + e.len

/-- The ranges of two owners do not overlap. -/
def Extent.Apart (a b : Extent) : Prop := a.stop ≤ b.start ∨ b.stop ≤ a.start

variable {ι κ : Type}

/-- The ranges of all owners lie apart and between `lo` and `hi`. -/
structure Packed (place : ι → Option Extent) (lo hi : Nat) : Prop where
  inside : ∀ i e, place i = some e → lo ≤ e.start ∧ e.stop ≤ hi
  apart : ∀ i j a b, i ≠ j → place i = some a → place j = some b → a.Apart b

variable {place : ι → Option Extent} {lo hi : Nat}

theorem packed_none (lo hi : Nat) : Packed (fun _ : ι => none) lo hi := ⟨nofun, nofun⟩

theorem Packed.mono (h : Packed place lo hi) {hi' : Nat} (hle : hi ≤ hi') : Packed place lo hi' :=
  ⟨fun i e hi => ⟨(h.inside i e hi).1, (h.inside i e hi).2.trans hle⟩, h.apart⟩

/-- The owner `i` gets another range, apart from those of the others. -/
theorem Packed.replace [DecidableEq ι] (h : Packed place lo hi) (i : ι) {e : Extent}
    (hin : lo ≤ e.start ∧ e.stop ≤ hi) (hapart : ∀ j b, j ≠ i → place j = some b → e.Apart b) :
    Packed (Function.update place i (some e)) lo hi := by
  have hcases : ∀ j a, Function.update place i (some e) j = some a →
      (j = i ∧ a = e) ∨ (j ≠ i ∧ place j = some a) := by
    intro j a hj
    by_cases hji : j = i
    · subst hji
      rw [Function.update_self] at hj
      exact .inl ⟨rfl, (Option.some.inj hj).symm⟩
    · rw [Function.update_of_ne hji] at hj
      exact .inr ⟨hji, hj⟩
  refine ⟨fun j a hj => ?_, fun j k a b hjk hj hk => ?_⟩
  · rcases hcases j a hj with ⟨_, rfl⟩ | ⟨_, hja⟩
    · exact hin
    · exact h.inside j a hja
  · rcases hcases j a hj with ⟨rfl, rfl⟩ | ⟨hji, hja⟩
    · rcases hcases k b hk with ⟨rfl, rfl⟩ | ⟨hki, hkb⟩
      · exact absurd rfl hjk
      · exact hapart k b hki hkb
    · rcases hcases k b hk with ⟨rfl, rfl⟩ | ⟨_, hkb⟩
      · exact (hapart j a hji hja).symm
      · exact h.apart j k a b hjk hja hkb

/-- The owner `i` gets a range at the mark, in place of the one it had. -/
theorem Packed.append [DecidableEq ι] (h : Packed place lo hi) (hlo : lo ≤ hi) (i : ι)
    {n space : Nat} (hn : n ≤ space) :
    Packed (Function.update place i (some ⟨hi, n⟩)) lo (hi + space) :=
  (h.mono (Nat.le_add_right hi space)).replace i ⟨hlo, Nat.add_le_add_left hn hi⟩
    fun j b _ hj => .inr (h.inside j b hj).2

/-- Every range comes from a different owner of before. -/
theorem Packed.reindex (h : Packed place lo hi) {place' : κ → Option Extent} (f : κ → ι)
    (hfrom : ∀ j e, place' j = some e → place (f j) = some e)
    (hinj : ∀ j k a b, place' j = some a → place' k = some b → f j = f k → j = k) :
    Packed place' lo hi := by
  refine ⟨fun j e hj => h.inside (f j) e (hfrom j e hj), fun j k a b hjk hj hk => ?_⟩
  exact h.apart (f j) (f k) a b (fun hf => hjk (hinj j k a b hj hk hf)) (hfrom j a hj)
    (hfrom k b hk)

/-- With two families of owners, `i` hands its range from one family on to the other. -/
theorem Packed.handOver [DecidableEq ι] {place place' : Bool × ι → Option Extent}
    (h : Packed place lo hi) (b : Bool) (i : ι) (hgone : place' (b, i) = none)
    (hnew : place' (!b, i) = place (b, i))
    (hrest : ∀ c j, j ≠ i → place' (c, j) = place (c, j)) : Packed place' lo hi := by
  have hother : ∀ c e, place' (c, i) = some e → c = !b := by
    intro c e hc
    by_contra hne
    rw [Bool.not_eq_not.mp hne, hgone] at hc
    cases hc
  refine h.reindex (fun p => if p.2 = i then (b, i) else p) ?_ ?_
  · rintro ⟨c, j⟩ e he
    by_cases hj : j = i
    · subst hj
      rw [if_pos rfl, ← hnew, ← hother c e he]
      exact he
    · rw [if_neg hj, ← hrest c j hj]
      exact he
  · rintro ⟨c, j⟩ ⟨d, k⟩ e f he hf heq
    by_cases hj : j = i
    · by_cases hk : k = i
      · subst hj
        subst hk
        rw [hother c e he, hother d f hf]
      · rw [if_pos hj, if_neg hk] at heq
        exact absurd (Prod.mk.inj heq).2.symm hk
    · by_cases hk : k = i
      · rw [if_neg hj, if_pos hk] at heq
        exact absurd (Prod.mk.inj heq).2 hj
      · rwa [if_neg hj, if_neg hk] at heq

theorem Packed.sub (h : Packed place lo hi) {place' : ι → Option Extent}
    (hsub : ∀ j e, place' j = some e → place j = some e) : Packed place' lo hi :=
  h.reindex id hsub fun _ _ _ _ _ _ hjk => hjk

/-- Of two ranges the one that starts first ends before the other starts. -/
theorem Packed.stop_le_start (h : Packed place lo hi) {i j : ι} {a b : Extent} (hij : i ≠ j)
    (hi' : place i = some a) (hj : place j = some b) (hle : a.start ≤ b.start) (hb : 0 < b.len) :
    a.stop ≤ b.start := by
  rcases h.apart i j a b hij hi' hj with hab | hba
  · exact hab
  · unfold Extent.stop at hba
    omega

end PowerFS.Lib.Extents
