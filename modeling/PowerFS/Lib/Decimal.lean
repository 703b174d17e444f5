import Mathlib

/-! # Decimal numbers in text

Numbers are written by `Nat.toDigits 10` and read back the way an unsigned integer type of a
given width reads them. Fields of a text are separated by a character that no number has. -/
namespace PowerFS.Lib.Decimal

/-- Reads an unsigned integer of `bits` bits: an optional plus sign, then digits only. -/
def parseUnsigned (bits : Nat) (s : List Char) : Option Nat :=
  let digits := match s with
    | '+' :: rest => rest
    | _ => s
  if digits ≠ [] ∧ digits.all Char.isDigit ∧ Nat.ofDigitChars 10 digits 0 < 2 ^ bits then
    some (Nat.ofDigitChars 10 digits 0)
  else none

/-- The text after the last separator, or all of it. -/
def lastSegment (sep : Char) (s : List Char) : List Char :=
  (s.reverse.takeWhile (· ≠ sep)).reverse

theorem isDigit_of_mem {n : Nat} {c : Char} (h : c ∈ Nat.toDigits 10 n) : c.isDigit = true :=
  Nat.isDigit_of_mem_toDigits (by decide) (by decide) h

/-- A character that is no digit does not occur in a number. -/
theorem notMem_toDigits {c : Char} (h : c.isDigit = false) (n : Nat) : c ∉ Nat.toDigits 10 n := by
  intro hc
  rw [isDigit_of_mem hc] at h
  cases h

/-- A number that is written and read again is the same, or too large. -/
theorem parseUnsigned_toDigits (bits n : Nat) :
    parseUnsigned bits (Nat.toDigits 10 n) = if n < 2 ^ bits then some n else none := by
  have hval : Nat.ofDigitChars 10 (Nat.toDigits 10 n) 0 = n :=
    Nat.ofDigitChars_toDigits (by decide) (by decide)
  have hplus : (match Nat.toDigits 10 n with
      | '+' :: rest => rest
      | _ => Nat.toDigits 10 n) = Nat.toDigits 10 n := by
    split
    · rename_i rest hcons
      exact absurd (by rw [hcons]; exact List.mem_cons_self) (notMem_toDigits (c := '+') rfl n)
    · rfl
  have hdigits : (Nat.toDigits 10 n).all Char.isDigit = true :=
    List.all_eq_true.mpr fun c hc => isDigit_of_mem hc
  simp only [parseUnsigned, hplus, hval, hdigits, Nat.toDigits_ne_nil, ne_eq, not_false_eq_true,
    true_and]

end PowerFS.Lib.Decimal
