import PowerFS.Lib.ByteString

/-! # Buffers by position

A buffer as the bytes at its positions, with zeros past its end; what cutting, extending
and writing do to a position; and the buffer cut or zero-extended to a length. -/
namespace PowerFS.Lib.Positions
open ByteString List

/-- The byte at a position, zero past the end. -/
def byteAt (b : Bytes) (p : Nat) : UInt8 := b.getD p 0

variable {b a : Bytes} {p : Nat}

theorem byteAt_past (h : b.length ≤ p) : byteAt b p = 0 :=
  getD_eq_default _ _ h

theorem byteAt_append_left (h : p < a.length) : byteAt (a ++ b) p = byteAt a p :=
  getD_append _ _ _ _ h

theorem byteAt_append_right (h : a.length ≤ p) : byteAt (a ++ b) p = byteAt b (p - a.length) :=
  getD_append_right _ _ _ _ h

theorem byteAt_zeros (n p : Nat) : byteAt (zeros n) p = 0 := by
  unfold byteAt zeros
  rw [getD_eq_getElem?_getD, getElem?_replicate]
  split <;> rfl

/-- Zeros behind a buffer are not seen. -/
theorem byteAt_append_zeros (b : Bytes) (n p : Nat) : byteAt (b ++ zeros n) p = byteAt b p := by
  by_cases h : p < b.length
  · exact byteAt_append_left h
  · rw [byteAt_append_right (by omega), byteAt_zeros, byteAt_past (by omega)]

theorem byteAt_take (b : Bytes) (n p : Nat) :
    byteAt (b.take n) p = if p < n then byteAt b p else 0 := by
  unfold byteAt
  rw [getD_eq_getElem?_getD, getElem?_take]
  split
  · rw [getD_eq_getElem?_getD]
  · rfl

theorem byteAt_drop (b : Bytes) (n p : Nat) : byteAt (b.drop n) p = byteAt b (n + p) := by
  unfold byteAt
  rw [getD_eq_getElem?_getD, getElem?_drop, getD_eq_getElem?_getD]

theorem byteAt_pwrite (file : Bytes) (pos : Nat) (bs : Bytes) (p : Nat) :
    byteAt (pwrite file pos bs) p =
      if pos ≤ p ∧ p < pos + bs.length then byteAt bs (p - pos) else byteAt file p := by
  have hpos := pwrite_before_length file pos
  unfold pwrite
  by_cases hbefore : p < pos
  · rw [if_neg (by omega), append_assoc, byteAt_append_left (by omega),
      byteAt_append_zeros, byteAt_take, if_pos hbefore]
  by_cases hinside : p < pos + bs.length
  · rw [if_pos ⟨by omega, hinside⟩, byteAt_append_left (by rw [length_append]; omega),
      byteAt_append_right (by omega), hpos]
  rw [if_neg (by omega), byteAt_append_right (by rw [length_append]; omega),
    length_append, hpos, byteAt_drop]
  congr 1
  omega

/-- Buffers of one length that agree everywhere are equal. -/
theorem ext_byteAt (hlen : a.length = b.length) (h : ∀ p, byteAt a p = byteAt b p) : a = b := by
  refine ext_getElem hlen ?_
  intro p ha hb
  have hp := h p
  unfold byteAt at hp
  rwa [getD_eq_getElem _ _ ha, getD_eq_getElem _ _ hb] at hp

/-! ## Cutting and extending -/

/-- A buffer cut or zero-extended to a length. -/
def fit (n : Nat) (b : Bytes) : Bytes := b.take n ++ zeros (n - b.length)

theorem fit_length (n : Nat) (b : Bytes) : (fit n b).length = n := pwrite_before_length b n

theorem byteAt_fit (n : Nat) (b : Bytes) (p : Nat) :
    byteAt (fit n b) p = if p < n then byteAt b p else 0 := by
  unfold fit
  rw [byteAt_append_zeros, byteAt_take]

theorem fit_self (b : Bytes) : fit b.length b = b := by
  unfold fit
  rw [take_length, Nat.sub_self]
  exact append_nil b

/-- Only a buffer of that length is its own fit. -/
theorem fit_eq_iff (n : Nat) (b : Bytes) : fit n b = b ↔ n = b.length := by
  constructor
  · intro h
    rw [← fit_length n b, h]
  · rintro rfl
    exact fit_self b

/-! ## Several writes -/

/-- Writes at positions, one after another. -/
def writeAll (ws : List (Nat × Bytes)) (b : Bytes) : Bytes :=
  ws.foldl (fun b w => pwrite b w.1 w.2) b

/-- Where the file ends after the writes. -/
def endOf (ws : List (Nat × Bytes)) (n : Nat) : Nat :=
  ws.foldl (fun n w => max n (w.1 + w.2.length)) n

def Covered (ws : List (Nat × Bytes)) (p : Nat) : Prop :=
  ∃ w ∈ ws, w.1 ≤ p ∧ p < w.1 + w.2.length

theorem writeAll_length (ws : List (Nat × Bytes)) (b : Bytes) :
    (writeAll ws b).length = endOf ws b.length := by
  induction ws generalizing b with
  | nil => rfl
  | cons w ws ih =>
    have hone := ih (pwrite b w.1 w.2)
    rw [pwrite_length] at hone
    exact hone

theorem endOf_eq_max (ws : List (Nat × Bytes)) (n : Nat) : endOf ws n = max n (endOf ws 0) := by
  induction ws generalizing n with
  | nil => exact (Nat.max_zero n).symm
  | cons w ws ih =>
    show endOf ws (max n (w.1 + w.2.length)) = max n (endOf ws (max 0 (w.1 + w.2.length)))
    rw [ih (max n _), ih (max 0 _)]
    omega

/-- A position that no write covers keeps its byte. -/
theorem byteAt_writeAll_outside {ws : List (Nat × Bytes)} (h : ¬ Covered ws p) (b : Bytes) :
    byteAt (writeAll ws b) p = byteAt b p := by
  induction ws generalizing b with
  | nil => rfl
  | cons w ws ih =>
    have hrest : ¬ Covered ws p := by
      rintro ⟨v, hv, hcovers⟩
      exact h ⟨v, mem_cons_of_mem _ hv, hcovers⟩
    have hfirst := ih hrest (pwrite b w.1 w.2)
    rw [byteAt_pwrite, if_neg fun hcovers => h ⟨w, mem_cons_self, hcovers⟩] at hfirst
    exact hfirst

/-- A position that a write covers does not depend on what was there. -/
theorem byteAt_writeAll_inside {ws : List (Nat × Bytes)} (h : Covered ws p) (a b : Bytes) :
    byteAt (writeAll ws a) p = byteAt (writeAll ws b) p := by
  induction ws generalizing a b with
  | nil =>
    obtain ⟨w, hw, -⟩ := h
    cases hw
  | cons w ws ih =>
    show byteAt (writeAll ws (pwrite a w.1 w.2)) p = byteAt (writeAll ws (pwrite b w.1 w.2)) p
    by_cases hrest : Covered ws p
    · exact ih hrest _ _
    obtain ⟨v, hv, hcovers⟩ := h
    rcases mem_cons.mp hv with rfl | hv
    · rw [byteAt_writeAll_outside hrest, byteAt_writeAll_outside hrest, byteAt_pwrite,
        byteAt_pwrite, if_pos hcovers, if_pos hcovers]
    · exact absurd ⟨v, hv, hcovers⟩ hrest

end PowerFS.Lib.Positions
