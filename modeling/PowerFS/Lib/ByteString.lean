import Mathlib

/-! # Byte strings

Fixed-width little-endian numbers, half-open slices and positional writes on
lists of bytes. A write past the end of the string leaves a hole of zeros, as a
file does. -/
namespace PowerFS.Lib.ByteString
open List

abbrev Bytes := List UInt8

instance lawfulBEqBytes : LawfulBEq Bytes := inferInstanceAs (LawfulBEq (List UInt8))

/-! ## Little-endian numbers -/

/-- The low `w` bytes of `n`, least significant first. -/
def toLE : Nat → Nat → Bytes
  | 0, _ => []
  | w + 1, n => UInt8.ofNat n :: toLE w (n / 256)

/-- The number a byte string denotes, least significant byte first. -/
def ofLE : Bytes → Nat
  | [] => 0
  | b :: bs => b.toNat + 256 * ofLE bs

@[simp] theorem toLE_length (w n : Nat) : (toLE w n).length = w := by
  induction w generalizing n with
  | zero => rfl
  | succ w ih => simp [toLE, ih]

theorem ofLE_lt (bs : Bytes) : ofLE bs < 256 ^ bs.length := by
  induction bs with
  | nil => simp [ofLE]
  | cons b bs ih =>
    have hb := b.toNat_lt
    simp only [ofLE, length_cons, Nat.pow_succ]
    omega

theorem ofLE_toLE (w n : Nat) : ofLE (toLE w n) = n % 256 ^ w := by
  induction w generalizing n with
  | zero => simp [toLE, ofLE, Nat.mod_one]
  | succ w ih =>
    have hb : (UInt8.ofNat n).toNat = n % 256 := by simp
    simp only [toLE, ofLE, ih, hb]
    rw [Nat.pow_succ, Nat.mul_comm (256 ^ w), Nat.mod_mul]

theorem ofLE_toLE_of_lt {w n : Nat} (h : n < 256 ^ w) : ofLE (toLE w n) = n := by
  rw [ofLE_toLE, Nat.mod_eq_of_lt h]

@[simp] theorem ofLE_toLE_u64 (x : UInt64) : ofLE (toLE 8 x.toNat) = x.toNat :=
  ofLE_toLE_of_lt (by have := x.toNat_lt; norm_num; omega)

@[simp] theorem ofLE_toLE_u32 (x : UInt32) : ofLE (toLE 4 x.toNat) = x.toNat :=
  ofLE_toLE_of_lt (by have := x.toNat_lt; norm_num; omega)

/-! ## Slices -/

/-- The bytes at positions `i, …, j - 1`. -/
def slice (bs : Bytes) (i j : Nat) : Bytes := (bs.drop i).take (j - i)

@[simp] theorem slice_length (bs : Bytes) (i j : Nat) :
    (slice bs i j).length = min (j - i) (bs.length - i) := by
  simp [slice]

variable {a b : Bytes} {j : Nat}

theorem slice_left {i : Nat} (h : j ≤ a.length) : slice (a ++ b) i j = slice a i j := by
  unfold slice
  by_cases hi : i ≤ a.length
  · rw [drop_append_of_le_length hi, take_append_of_le_length]
    simp only [length_drop]
    omega
  · have hj : j - i = 0 := by omega
    simp [hj]

theorem slice_skip {i : Nat} (h : a.length ≤ i) :
    slice (a ++ b) i j = slice b (i - a.length) (j - a.length) := by
  unfold slice
  rw [drop_append, drop_eq_nil_of_le h, nil_append]
  congr 1
  omega

theorem slice_cons (b : UInt8) (bs : Bytes) (i j : Nat) :
    slice (b :: bs) (i + 1) (j + 1) = slice bs i j := by
  simp [slice]

theorem slice_self (a : Bytes) : slice a 0 a.length = a := by simp [slice]

theorem slice_head (h : j = a.length) : slice (a ++ b) 0 j = a := by
  rw [slice_left (by omega), h, slice_self]

/-! ## Zeros and positional writes -/

/-- Every byte is zero. -/
def allZero (bs : Bytes) : Bool := bs.all fun b => b == 0

def zeros (n : Nat) : Bytes := List.replicate n 0

@[simp] theorem zeros_length (n : Nat) : (zeros n).length = n := by simp [zeros]

@[simp] theorem allZero_zeros (n : Nat) : allZero (zeros n) = true := by simp [allZero, zeros]

@[simp] theorem allZero_append (a b : Bytes) : allZero (a ++ b) = (allZero a && allZero b) := by
  simp [allZero]

theorem eq_zeros_of_allZero (h : allZero b = true) : b = zeros b.length := by
  rw [allZero, all_eq_true] at h
  exact eq_replicate_of_mem fun x hx => by simpa using h x hx

/-- Only zeros denote zero. -/
theorem eq_zeros_of_ofLE (h : ofLE b = 0) : b = zeros b.length := by
  induction b with
  | nil => rfl
  | cons x xs ih =>
    simp only [ofLE] at h
    have hx : x = 0 := UInt8.toNat_inj.mp (by simp; omega)
    rw [hx, length_cons, zeros, replicate_succ, ih (by omega)]
    simp [zeros]

theorem zeros_add (m n : Nat) : zeros (m + n) = zeros m ++ zeros n :=
  replicate_add ..

/-- `write_all` at position `pos` of a file: the bytes replace what is there,
the file grows when they reach past its end. -/
def pwrite (file : Bytes) (pos : Nat) (bs : Bytes) : Bytes :=
  file.take pos ++ zeros (pos - file.length) ++ bs ++ file.drop (pos + bs.length)

/-- Writing at the start of a zero tail uses up that many zeros. -/
theorem pwrite_zeros (a bs : Bytes) (n : Nat) :
    pwrite (a ++ zeros n) a.length bs = a ++ bs ++ zeros (n - bs.length) := by
  simp [pwrite, zeros]

/-- Rewriting a prefix leaves the rest of the file. -/
theorem pwrite_head (a b c : Bytes) (h : c.length = a.length) : pwrite (a ++ b) 0 c = c ++ b := by
  simp [pwrite, zeros, h]

theorem pwrite_length (file : Bytes) (pos : Nat) (bs : Bytes) :
    (pwrite file pos bs).length = max file.length (pos + bs.length) := by
  simp [pwrite]
  omega

/-- A file as what lies before, inside and behind a write. -/
theorem pwrite_before_length (file : Bytes) (pos : Nat) :
    (file.take pos ++ zeros (pos - file.length)).length = pos := by
  simp
  omega

/-- Zeros that a write covers or fills up do not matter. -/
theorem pwrite_zeros_nil {n pos : Nat} {bs : Bytes} (h : n ≤ pos + bs.length) :
    pwrite (zeros n) pos bs = pwrite [] pos bs := by
  simp only [pwrite, zeros, take_replicate, drop_replicate, length_replicate,
    take_nil, drop_nil, length_nil, nil_append]
  rw [← replicate_add, show n - (pos + bs.length) = 0 by omega,
    show min pos n + (pos - n) = pos - 0 by omega]
  rfl

end PowerFS.Lib.ByteString
