import PowerFS.Lib.ByteString

/-! # Sparse files

A file as a length and a byte at every position. Positions that were never written read
as zero; a write past the end leaves a hole; cutting a file off forgets what was behind
the cut. What a read returns depends only on the bytes in its range. -/
namespace PowerFS.Lib.SparseFiles
open ByteString List

structure SparseFile where
  len : Nat
  byte : Nat → UInt8

namespace SparseFile

/-- A file of `n` bytes of which none has been written. -/
def hole (n : Nat) : SparseFile := ⟨n, fun _ => 0⟩

/-- The `n` bytes from `pos` on. -/
def range (f : SparseFile) (pos n : Nat) : Bytes := (List.range n).map fun i => f.byte (pos + i)

/-- Read exactly `n` bytes at `pos`; there may be fewer. -/
def read (f : SparseFile) (pos n : Nat) : Option Bytes :=
  if n ≤ f.len - pos then some (f.range pos n) else none

def write (f : SparseFile) (pos : Nat) (bs : Bytes) : SparseFile :=
  { len := if bs.isEmpty then f.len else max f.len (pos + bs.length)
    byte := fun i => if pos ≤ i then bs.getD (i - pos) (f.byte i) else f.byte i }

/-- Cut the file off at `n` bytes, or extend it by a hole. -/
def setLen (f : SparseFile) (n : Nat) : SparseFile :=
  { len := n, byte := fun i => if i < n then f.byte i else 0 }

@[simp] theorem range_length (f : SparseFile) (pos n : Nat) : (f.range pos n).length = n := by
  simp [range]

variable {f : SparseFile} {pos n i : Nat} {bs : Bytes}

theorem range_congr {g : SparseFile} (h : ∀ i, pos ≤ i → i < pos + n → f.byte i = g.byte i) :
    f.range pos n = g.range pos n := by
  unfold range
  apply map_congr_left
  intro i hi
  exact h _ (Nat.le_add_right _ _) (by rw [mem_range] at hi; omega)

theorem read_eq_some (h : pos + n ≤ f.len) : f.read pos n = some (f.range pos n) :=
  if_pos (by omega)

theorem eq_range_of_read (h : f.read pos n = some bs) : bs = f.range pos n := by
  unfold read at h
  split at h
  · exact (Option.some.inj h).symm
  · cases h

section

variable (f : SparseFile)

theorem write_byte_of_lt (bs : Bytes) (h : i < pos) : (f.write pos bs).byte i = f.byte i :=
  if_neg (by omega)

theorem write_byte_of_ge (h : pos + bs.length ≤ i) : (f.write pos bs).byte i = f.byte i := by
  show (if pos ≤ i then bs.getD (i - pos) (f.byte i) else f.byte i) = f.byte i
  rw [if_pos (by omega), getD_eq_default _ _ (by omega)]

theorem write_byte_inside (h : i < bs.length) : (f.write pos bs).byte (pos + i) = bs[i] := by
  show (if pos ≤ pos + i then bs.getD (pos + i - pos) _ else _) = bs[i]
  rw [if_pos (by omega), Nat.add_sub_cancel_left, getD_eq_getElem _ _ h]

theorem len_le_write (pos : Nat) (bs : Bytes) : f.len ≤ (f.write pos bs).len := by
  show f.len ≤ if bs.isEmpty then f.len else max f.len (pos + bs.length)
  split
  · exact Nat.le_refl _
  · exact Nat.le_max_left _ _

theorem end_le_write (pos : Nat) (h : bs ≠ []) : pos + bs.length ≤ (f.write pos bs).len := by
  show _ ≤ if bs.isEmpty then f.len else max f.len (pos + bs.length)
  rw [if_neg (by simpa using h)]
  exact Nat.le_max_right _ _

/-- What has been written can be read. -/
theorem range_write (pos : Nat) (bs : Bytes) : (f.write pos bs).range pos bs.length = bs := by
  apply ext_getElem
  · simp
  · intro i h₁ h₂
    simp only [range, getElem_map, getElem_range]
    exact write_byte_inside f h₂

theorem take_range (pos : Nat) {m : Nat} (h : m ≤ n) : (f.range pos n).take m = f.range pos m := by
  unfold range
  rw [← List.map_take, List.take_range, min_eq_left h]

theorem range_write_take (pos : Nat) (h : n ≤ bs.length) :
    (f.write pos bs).range pos n = bs.take n := by
  rw [← take_range _ pos h, range_write]

/-- A write leaves what lies beside it. -/
theorem range_write_beside {p : Nat} (h : p + n ≤ pos ∨ pos + bs.length ≤ p) :
    (f.write pos bs).range p n = f.range p n := by
  apply range_congr
  intro i hlo hhi
  rcases h with h | h
  · exact write_byte_of_lt f bs (by omega)
  · exact write_byte_of_ge f (by omega)

theorem range_setLen {m p : Nat} (h : p + n ≤ m) : (f.setLen m).range p n = f.range p n := by
  apply range_congr
  intro i _ hi
  exact if_pos (by omega)

end

end SparseFile

end PowerFS.Lib.SparseFiles
