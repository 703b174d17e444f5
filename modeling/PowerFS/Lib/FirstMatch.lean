import Mathlib.Data.List.Basic

/-! # Changing the first match of a list

`modifyFirst p f` changes the first element that satisfies `p`, as a loop does that
looks for an element and edits it in place. -/
namespace PowerFS.Lib.FirstMatch
open List

variable {α β : Type}

def modifyFirst (p : α → Bool) (f : α → α) : List α → List α
  | [] => []
  | x :: xs => if p x then f x :: xs else x :: modifyFirst p f xs

variable {p : α → Bool} {f : α → α} {xs : List α} {x : α}

/-- Every element is an old one, or the image of an old one that matched. -/
theorem mem_modifyFirst {y : α} (h : y ∈ modifyFirst p f xs) :
    y ∈ xs ∨ ∃ x ∈ xs, p x = true ∧ y = f x := by
  induction xs with
  | nil => cases h
  | cons x xs ih =>
    rw [modifyFirst] at h
    split at h
    · rename_i hx
      rcases mem_cons.mp h with rfl | h
      · exact .inr ⟨x, by simp, hx, rfl⟩
      · exact .inl (by simp [h])
    · rcases mem_cons.mp h with rfl | h
      · exact .inl (by simp)
      rcases ih h with h | ⟨z, hz, hp, rfl⟩
      · exact .inl (by simp [h])
      · exact .inr ⟨z, by simp [hz], hp, rfl⟩

/-- The element that is changed is the one that a search finds. -/
theorem mem_modifyFirst_of_find (h : xs.find? p = some x) : f x ∈ modifyFirst p f xs := by
  induction xs with
  | nil => cases h
  | cons z xs ih =>
    rw [find?_cons] at h
    rw [modifyFirst]
    split at h
    · rename_i hz
      cases h
      rw [if_pos hz]
      exact mem_cons_self
    · rename_i hz
      rw [if_neg (by simp [hz])]
      exact mem_cons_of_mem _ (ih h)

/-- An element that does not match stays. -/
theorem mem_modifyFirst_of_not (hx : x ∈ xs) (hp : p x = false) : x ∈ modifyFirst p f xs := by
  induction xs with
  | nil => cases hx
  | cons z xs ih =>
    rw [modifyFirst]
    split
    · rename_i hz
      rcases mem_cons.mp hx with rfl | hx
      · rw [hp] at hz
        cases hz
      · simp [hx]
    · rcases mem_cons.mp hx with rfl | hx
      · simp
      · simp [ih hx]

/-- Where the matching elements have one key and keys are distinct, a matching element of the
result is a changed one. -/
theorem eq_of_mem_modifyFirst {g : α → β} (hd : (xs.map g).Nodup)
    (hkey : ∀ x y, p x = true → p y = true → g x = g y) {y : α} (h : y ∈ modifyFirst p f xs)
    (hy : p y = true) : ∃ x ∈ xs, p x = true ∧ y = f x := by
  induction xs with
  | nil => cases h
  | cons z xs ih =>
    rw [map_cons, nodup_cons] at hd
    rw [modifyFirst] at h
    split at h
    · rename_i hz
      rcases mem_cons.mp h with rfl | h
      · exact ⟨z, mem_cons_self, hz, rfl⟩
      · exact absurd (mem_map.mpr ⟨y, h, hkey y z hy hz⟩) hd.1
    · rename_i hz
      rcases mem_cons.mp h with rfl | h
      · exact absurd hy hz
      · obtain ⟨x, hx, hpx, rfl⟩ := ih hd.2 h
        exact ⟨x, mem_cons_of_mem _ hx, hpx, rfl⟩

/-- What the change keeps of each element, it keeps of the list. -/
theorem map_modifyFirst (g : α → β) (hf : ∀ x, g (f x) = g x) (xs : List α) :
    (modifyFirst p f xs).map g = xs.map g := by
  induction xs with
  | nil => rfl
  | cons x xs ih =>
    rw [modifyFirst]
    split
    · rw [map_cons, map_cons, hf]
    · rw [map_cons, map_cons, ih]

end PowerFS.Lib.FirstMatch
