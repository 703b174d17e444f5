import Mathlib

/-! # Finite tables

Finite maps keyed by numbers (`Finmap`), with what an accounting argument needs
of them: the total of a measure over the values, how insertion and removal move
it, and a listing of the entries from which the table can be rebuilt. -/
namespace PowerFS.Lib.FinTable
open List

abbrev Table (V : Type) := Finmap fun _ : Nat => V

variable {V : Type}

/-! ## Totals -/

/-- The sum of `f` over the values of a table. -/
def total (f : V → Nat) (m : Table V) : Nat := (m.entries.map fun e => f e.2).sum

/-- The number of entries. -/
def size (m : Table V) : Nat := m.keys.card

theorem size_eq_total (m : Table V) : size m = total (fun _ => 1) m := by
  simp only [size, total, Multiset.map_const', Multiset.sum_replicate, smul_eq_mul, mul_one]
  exact Multiset.card_map _ _

variable {m : Table V} {k : Nat} {v : V} {ps : List (Nat × V)}

theorem total_insert_new (f : V → Nat) (v : V) (h : m.lookup k = none) :
    total f (m.insert k v) = f v + total f m := by
  unfold total
  rw [Finmap.entries_insert_of_notMem (Finmap.lookup_eq_none.mp h)]
  simp

theorem insert_erase_self (h : m.lookup k = some v) : (m.erase k).insert k v = m := by
  apply Finmap.ext_lookup
  intro x
  by_cases hx : x = k
  · subst hx; rw [Finmap.lookup_insert, h]
  · rw [Finmap.lookup_insert_of_ne _ hx, Finmap.lookup_erase_ne hx]

theorem erase_insert_erase (m : Table V) (k : Nat) (v : V) :
    (m.erase k).insert k v = m.insert k v := by
  apply Finmap.ext_lookup
  intro x
  by_cases hx : x = k
  · subst hx; simp
  · simp [Finmap.lookup_insert_of_ne _ hx, Finmap.lookup_erase_ne hx]

/-- Taking an entry out takes its measure out of the total. -/
theorem total_erase (f : V → Nat) (h : m.lookup k = some v) :
    total f m = f v + total f (m.erase k) := by
  conv_lhs => rw [← insert_erase_self h]
  exact total_insert_new f v (Finmap.lookup_erase k m)

/-- Replacing an entry exchanges its measure. -/
theorem total_insert_old (f : V → Nat) (w : V) (h : m.lookup k = some v) :
    total f (m.insert k w) + f v = total f m + f w := by
  rw [← erase_insert_erase, total_insert_new f w (Finmap.lookup_erase k m), total_erase f h]
  omega

theorem le_total (f : V → Nat) (h : m.lookup k = some v) : f v ≤ total f m := by
  rw [total_erase f h]; omega

theorem size_insert_new (v : V) (h : m.lookup k = none) : size (m.insert k v) = size m + 1 := by
  rw [size_eq_total, size_eq_total, total_insert_new _ v h]
  omega

theorem size_insert_old (w : V) (h : m.lookup k = some v) : size (m.insert k w) = size m := by
  have := total_insert_old (fun _ => 1) w h
  rw [size_eq_total, size_eq_total]
  omega

theorem size_erase (h : m.lookup k = some v) : size m = size (m.erase k) + 1 := by
  rw [size_eq_total, size_eq_total, total_erase _ h]
  omega

variable {x : Nat} {w : V} {m' : Table V} {o : Option V}

theorem lookup_insert_some (h : (m.insert k v).lookup x = some w) :
    (x = k ∧ w = v) ∨ m.lookup x = some w := by
  by_cases hx : x = k
  · subst hx
    rw [Finmap.lookup_insert] at h
    exact .inl ⟨rfl, (Option.some.inj h).symm⟩
  · rw [Finmap.lookup_insert_of_ne _ hx] at h
    exact .inr h

theorem lookup_insert_key {key : V → Nat} (hm : ∀ x w, m.lookup x = some w → key w = x)
    (hv : key v = k) : ∀ x w, (m.insert k v).lookup x = some w → key w = x := by
  intro x w hw
  rcases lookup_insert_some hw with ⟨rfl, rfl⟩ | hw
  · exact hv
  · exact hm x w hw

theorem lookup_erase_some (h : (m.erase k).lookup x = some w) : m.lookup x = some w := by
  by_cases hx : x = k
  · subst hx
    rw [Finmap.lookup_erase] at h
    cases h
  · rwa [Finmap.lookup_erase_ne hx] at h

theorem lookup_erase_none (h : m.lookup x = none) : (m.erase k).lookup x = none := by
  cases he : (m.erase k).lookup x with
  | none => rfl
  | some w => rw [lookup_erase_some he] at h; cases h

/-! ## Listings -/

/-- The entries in key order. -/
def toList (m : Table V) : List (Nat × V) :=
  (m.keys.sort (· ≤ ·)).filterMap fun k => (m.lookup k).map (Prod.mk k)

theorem mem_toList : (k, v) ∈ toList m ↔ m.lookup k = some v := by
  simp only [toList, mem_filterMap, Finset.mem_sort, Option.map_eq_some_iff, Prod.mk.injEq]
  constructor
  · rintro ⟨_, _, _, h, rfl, rfl⟩; exact h
  · exact fun h => ⟨k, Finmap.mem_keys.mpr (Finmap.mem_of_lookup_eq_some h), v, h, rfl, rfl⟩

@[simp] theorem toList_empty : toList (∅ : Table V) = [] := by
  simp [toList]

theorem toList_keys (m : Table V) : (toList m).map Prod.fst = m.keys.sort (· ≤ ·) := by
  have aux : ∀ ks : List Nat, (∀ k ∈ ks, k ∈ m) →
      (ks.filterMap fun k => (m.lookup k).map (Prod.mk k)).map Prod.fst = ks := by
    intro ks hks
    induction ks with
    | nil => rfl
    | cons k ks ih =>
      obtain ⟨v, hv⟩ := Finmap.mem_iff.mp (hks k (by simp))
      simp only [filterMap_cons, hv, Option.map_some, map_cons]
      rw [ih fun x hx => hks x (by simp [hx])]
  exact aux _ fun k hk => Finmap.mem_keys.mp ((Finset.mem_sort _).mp hk)

theorem toList_nodup_keys (m : Table V) : ((toList m).map Prod.fst).Nodup := by
  rw [toList_keys]; exact Finset.sort_nodup _ _

/-- The table a list of entries builds. -/
def ofPairs (ps : List (Nat × V)) : Table V := ps.foldl (fun m e => m.insert e.1 e.2) ∅

theorem ofPairs_concat (ps : List (Nat × V)) (e : Nat × V) :
    ofPairs (ps ++ [e]) = (ofPairs ps).insert e.1 e.2 := by
  simp [ofPairs]

theorem ofPairs_map (key : V → Nat) (vs : List V) :
    ofPairs (vs.map fun v => (key v, v)) = vs.foldl (fun m v => m.insert (key v) v) ∅ :=
  foldl_map

theorem nodup_concat {e : Nat × V} (h : ((ps ++ [e]).map Prod.fst).Nodup) :
    (ps.map Prod.fst).Nodup ∧ ∀ v, (e.1, v) ∉ ps := by
  rw [map_append, nodup_append] at h
  refine ⟨h.1, fun v hv => ?_⟩
  exact h.2.2 e.1 (mem_map.mpr ⟨_, hv, rfl⟩) e.1 (by simp) rfl

theorem lookup_ofPairs (h : (ps.map Prod.fst).Nodup) :
    (ofPairs ps).lookup k = some v ↔ (k, v) ∈ ps := by
  induction ps using reverseRecOn with
  | nil => simp [ofPairs]
  | append_singleton ps e ih =>
    obtain ⟨hps, hnew⟩ := nodup_concat h
    rw [ofPairs_concat, mem_append, mem_singleton]
    by_cases hk : k = e.1
    · subst hk
      have hno : (e.1, v) ∉ ps := hnew v
      rw [Finmap.lookup_insert]
      simp [hno, Prod.ext_iff, eq_comm]
    · have hne : (k, v) ≠ e := fun he => hk (by rw [← he])
      rw [Finmap.lookup_insert_of_ne _ hk, ih hps]
      simp [hne]

theorem total_ofPairs (f : V → Nat) (h : (ps.map Prod.fst).Nodup) :
    total f (ofPairs ps) = (ps.map fun e => f e.2).sum := by
  induction ps using reverseRecOn with
  | nil => rfl
  | append_singleton ps e ih =>
    obtain ⟨hps, hnew⟩ := nodup_concat h
    have hnone : (ofPairs ps).lookup e.1 = none := by
      rw [Option.eq_none_iff_forall_not_mem]
      exact fun v hv => hnew v ((lookup_ofPairs hps).mp hv)
    rw [ofPairs_concat, total_insert_new f e.2 hnone, ih hps]
    simp [Nat.add_comm]

/-- A table is rebuilt from any listing of its entries. -/
theorem ofPairs_toList (hp : ps.Perm (toList m)) : (ps.map Prod.fst).Nodup ∧ ofPairs ps = m := by
  have hnd : (ps.map Prod.fst).Nodup := by
    rw [(hp.map Prod.fst).nodup_iff]
    exact toList_nodup_keys m
  refine ⟨hnd, Finmap.ext_lookup fun k => Option.ext fun v => ?_⟩
  rw [lookup_ofPairs hnd, hp.mem_iff, mem_toList]

theorem total_eq_sum (f : V → Nat) (m : Table V) :
    total f m = ((toList m).map fun e => f e.2).sum := by
  obtain ⟨hnd, hm⟩ := ofPairs_toList (List.Perm.refl (toList m))
  rw [← total_ofPairs f hnd, hm]

theorem size_eq_length (m : Table V) : size m = (toList m).length := by
  rw [size_eq_total, total_eq_sum]
  simp

/-! ## Writes at one key -/

/-- `m'` has `o` at `k` and is `m` elsewhere. -/
def Writes (m m' : Table V) (k : Nat) (o : Option V) : Prop :=
  ∀ x, m'.lookup x = if x = k then o else m.lookup x

theorem Writes.own (h : Writes m m' k o) : m'.lookup k = o :=
  (h k).trans (if_pos rfl)

theorem Writes.other (h : Writes m m' k o) (hx : x ≠ k) : m'.lookup x = m.lookup x :=
  (h x).trans (if_neg hx)

theorem writes_insert : Writes m (m.insert k v) k (some v) := by
  intro x
  split
  case isTrue hx => rw [hx, Finmap.lookup_insert]
  case isFalse hx => exact Finmap.lookup_insert_of_ne _ hx

theorem writes_erase : Writes m (m.erase k) k none := by
  intro x
  split
  case isTrue hx => rw [hx, Finmap.lookup_erase]
  case isFalse hx => exact Finmap.lookup_erase_ne hx

theorem writes_same (h : m.lookup k = o) : Writes m m k o := by
  intro x
  rw [right_eq_ite_iff]
  intro hx
  rw [hx, h]

end PowerFS.Lib.FinTable
