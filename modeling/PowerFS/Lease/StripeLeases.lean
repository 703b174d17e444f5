import PowerFS.Lease.Store

/-! # Stripe leases

`powerfs-volume/src/range_lease.rs`: the lease store with stripe ranges of an inode as
its keys.

The source adds `stripe_start` and `stripe_count` as `u64` without a check: where the sum
needs a 65th bit a debug build panics and a release build wraps around. -/
namespace PowerFS.Lease.StripeLeases
open Store

/-- `StripeKey`: a range of stripes of an inode. -/
structure StripeWords where
  inode : UInt64
  stripeStart : UInt64
  stripeCount : UInt64
  deriving DecidableEq

namespace StripeWords

variable (a b : StripeWords)

/-- `stripe_start + stripe_count`; `none` where it overflows. -/
def stripeEnd : Option UInt64 :=
  let sum := a.stripeStart.toNat + a.stripeCount.toNat
  if sum < 2 ^ 64 then some (UInt64.ofNat sum) else none

def coversStripe (stripe : UInt64) : Option Bool :=
  if stripe < a.stripeStart then some false
  else a.stripeEnd.map fun e => decide (stripe < e)

def conflicts : Option Bool :=
  if a.inode ≠ b.inode then some false
  else a.stripeEnd.bind fun selfEnd => b.stripeEnd.map fun otherEnd =>
    decide (a.stripeStart < otherEnd) && decide (b.stripeStart < selfEnd)

/-- The stripes of a key, said without the end of its range. -/
def Covers (s : UInt64) : Prop := a.stripeStart ≤ s ∧ s - a.stripeStart < a.stripeCount

def Ends : Prop := a.stripeStart.toNat + a.stripeCount.toNat < 2 ^ 64

/-- An empty range strictly inside the other one. -/
def EmptyInside : Prop :=
  a.stripeCount = 0 ∧ b.stripeStart < a.stripeStart ∧ b.Covers a.stripeStart

variable {a b}

theorem covers_iff {s : UInt64} : a.Covers s ↔ a.stripeStart.toNat ≤ s.toNat ∧
    s.toNat < a.stripeStart.toNat + a.stripeCount.toNat := by
  unfold Covers
  rw [UInt64.le_iff_toNat_le]
  refine and_congr_right fun h => ?_
  rw [UInt64.lt_iff_toNat_lt, UInt64.toNat_sub_of_le _ _ (UInt64.le_iff_toNat_le.mpr h)]
  exact Nat.sub_lt_iff_lt_add' h

/-- A shared stripe is one from which both ranges go on. -/
theorem exists_covers_iff : (∃ s, a.Covers s ∧ b.Covers s) ↔
    (a.Covers a.stripeStart ∧ b.Covers a.stripeStart) ∨
    (a.Covers b.stripeStart ∧ b.Covers b.stripeStart) := by
  constructor
  · rintro ⟨s, hs⟩
    simp only [covers_iff] at hs ⊢
    omega
  · rintro (h | h)
    · exact ⟨_, h⟩
    · exact ⟨_, h⟩

theorem stripeEnd_some (h : a.Ends) : ∃ e, a.stripeEnd = some e ∧
    e.toNat = a.stripeStart.toNat + a.stripeCount.toNat :=
  ⟨_, if_pos h, UInt64.toNat_ofNat_of_lt' h⟩

theorem stripeEnd_none (h : ¬ a.Ends) : a.stripeEnd = none := if_neg h

/-- **Both tests are exact up to overflows and empty ranges.** -/
theorem stripe_tests_exact_iff (a b : StripeWords) (stripe : UInt64) :
    ((∃ r, a.conflicts b = some r ∧
        (r = true ↔ a.inode = b.inode ∧ ∃ s, a.Covers s ∧ b.Covers s)) ↔
      (a.inode = b.inode → a.Ends ∧ b.Ends ∧ ¬ a.EmptyInside b ∧ ¬ b.EmptyInside a)) ∧
    ((∃ r, a.coversStripe stripe = some r ∧ (r = true ↔ a.Covers stripe)) ↔
      (a.stripeStart ≤ stripe → a.Ends)) := by
  constructor
  · unfold conflicts
    by_cases hi : a.inode = b.inode
    · rw [if_neg (not_not.mpr hi), exists_covers_iff]
      by_cases ha : a.Ends
      · by_cases hb : b.Ends
        · obtain ⟨ea, hea, hsa⟩ := stripeEnd_some ha
          obtain ⟨eb, heb, hsb⟩ := stripeEnd_some hb
          simp only [hea, heb, Option.bind_some, Option.map_some, Option.some.injEq,
            exists_eq_left', Bool.and_eq_true, decide_eq_true_eq, hi, ha, hb,
            true_and, forall_const, EmptyInside, covers_iff, UInt64.lt_iff_toNat_lt,
            ← UInt64.toNat_inj, UInt64.toNat_zero]
          omega
        · simp [stripeEnd_none hb, hi, hb]
      · simp [stripeEnd_none ha, hi, ha]
    · rw [if_pos hi]
      exact iff_of_true ⟨false, rfl, by simp [hi]⟩ fun h => absurd h hi
  · unfold coversStripe
    by_cases hs : stripe < a.stripeStart
    · have hle : ¬ a.stripeStart ≤ stripe := UInt64.not_le.mpr hs
      rw [if_pos hs]
      exact iff_of_true ⟨false, rfl, by simp [Covers, hle]⟩ fun h => absurd h hle
    · have hle := UInt64.not_lt.mp hs
      rw [if_neg hs]
      by_cases ha : a.Ends
      · obtain ⟨e, he, hsum⟩ := stripeEnd_some ha
        refine iff_of_true ⟨_, by rw [he, Option.map_some], ?_⟩ fun _ => ha
        rw [decide_eq_true_eq, UInt64.lt_iff_toNat_lt, hsum, covers_iff]
        exact ⟨fun h => ⟨UInt64.le_iff_toNat_le.mp hle, h⟩, And.right⟩
      · simp [stripeEnd_none ha, ha, hle]

/-- A range that reaches past the end of the space, and an empty range in the middle of
another one. -/
theorem stripe_tests_inexact :
    (StripeWords.mk 7 1 0xffffffffffffffff).coversStripe 5 = none ∧
    (StripeWords.mk 7 1 0xffffffffffffffff).conflicts ⟨7, 5, 1⟩ = none ∧
    (StripeWords.mk 7 5 0).conflicts ⟨7, 0, 10⟩ = some true ∧
    ∀ s, ¬ (StripeWords.mk 7 5 0).Covers s := by
  refine ⟨rfl, rfl, rfl, fun s h => ?_⟩
  have := covers_iff.mp h
  simp at this
  omega

/-! ## Keys of the store -/

/-- The store asks a release build: the ends wrap around. -/
instance : LeaseKey StripeWords where
  groupId k := k.inode.toNat
  conflicts a b :=
    if a.inode ≠ b.inode then false
    else decide (a.stripeStart < b.stripeStart + b.stripeCount) &&
      decide (b.stripeStart < a.stripeStart + a.stripeCount)

theorem conflicts_comm (a b : StripeWords) : LeaseKey.conflicts a b = LeaseKey.conflicts b a := by
  show (if a.inode ≠ b.inode then false else _) = (if b.inode ≠ a.inode then false else _)
  by_cases h : a.inode = b.inode
  · rw [if_neg (not_not.mpr h), if_neg (not_not.mpr h.symm), Bool.and_comm]
  · rw [if_pos h, if_pos (Ne.symm h)]

theorem sum_of_ends (h : a.Ends) : a.stripeEnd = some (a.stripeStart + a.stripeCount) := by
  obtain ⟨e, he, hsum⟩ := stripeEnd_some h
  rw [he, Option.some_inj, ← UInt64.toNat_inj, hsum, UInt64.toNat_add, Nat.mod_eq_of_lt h]

/-- Without an overflow both builds give the same answer. -/
theorem conflicts_of_ends (ha : a.Ends) (hb : b.Ends) :
    a.conflicts b = some (LeaseKey.conflicts a b) := by
  show _ = some (if a.inode ≠ b.inode then false else _)
  unfold conflicts
  rw [sum_of_ends ha, sum_of_ends hb]
  split <;> rfl

/-- Ranges of an inode that share a stripe conflict. -/
theorem conflicts_of_covers {stripe : UInt64} (hinode : a.inode = b.inode) (ha : a.Ends)
    (hb : b.Ends) (hsa : a.Covers stripe) (hsb : b.Covers stripe) :
    LeaseKey.conflicts a b = true := by
  have hshared := conflicts_of_ends ha hb
  obtain ⟨ea, hea, hsuma⟩ := stripeEnd_some ha
  obtain ⟨eb, heb, hsumb⟩ := stripeEnd_some hb
  unfold conflicts at hshared
  rw [if_neg (not_not.mpr hinode), hea, heb, Option.bind_some, Option.map_some] at hshared
  rw [← Option.some_inj.mp hshared, Bool.and_eq_true, decide_eq_true_eq, decide_eq_true_eq,
    UInt64.lt_iff_toNat_lt, UInt64.lt_iff_toNat_lt]
  rw [covers_iff] at hsa hsb
  omega

/-- `covers_stripe` answers yes to the stripes of a range that ends. -/
theorem coversStripe_iff {stripe : UInt64} :
    a.coversStripe stripe = some true ↔ a.Ends ∧ a.Covers stripe := by
  unfold coversStripe
  rw [covers_iff]
  by_cases hs : stripe < a.stripeStart
  · rw [if_pos hs]
    rw [UInt64.lt_iff_toNat_lt] at hs
    refine iff_of_false (fun h => by cases h) ?_
    omega
  rw [if_neg hs]
  rw [UInt64.lt_iff_toNat_lt] at hs
  by_cases ha : a.Ends
  · obtain ⟨e, he, hsum⟩ := stripeEnd_some ha
    rw [he, Option.map_some, Option.some_inj, decide_eq_true_eq, UInt64.lt_iff_toNat_lt, hsum]
    simp only [ha, true_and]
    omega
  · simp [stripeEnd_none ha, ha]

end StripeWords

structure RangeLeaseManager where
  store : MemoryLeaseStore StripeWords

end PowerFS.Lease.StripeLeases
