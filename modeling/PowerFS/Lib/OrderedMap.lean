import Mathlib

/-! # Ordered maps and their mirror in a key-value store

Ordered maps are `Std.ExtTreeMap`; a key-value store is such a map from encoded keys to
encoded values. A table *mirrored* in a store has each of its entries there under the
encoded key, and nothing else is there. Writing and deleting both sides keeps the mirror,
and a scan of the store that parses each key and value rebuilds the table. -/
namespace PowerFS.Lib.OrderedMap
open Std.ExtTreeMap

abbrev Map (K V : Type) [Ord K] := Std.ExtTreeMap K V

section Lookup

variable {K V : Type} [Ord K] [Std.TransOrd K]

theorem ne_empty_of_get {m : Map K V} {k : K} {v : V} (h : m[k]? = some v) : m ≠ ∅ := by
  rintro rfl
  rw [getElem?_empty] at h
  cases h

variable [Std.LawfulEqOrd K] [DecidableEq K]

theorem get_insert (m : Map K V) (k a : K) (v : V) :
    (m.insert k v)[a]? = if k = a then some v else m[a]? := by
  rw [getElem?_insert]
  simp only [Std.LawfulEqOrd.compare_eq_iff_eq]

theorem get_erase (m : Map K V) (k a : K) : (m.erase k)[a]? = if k = a then none else m[a]? := by
  rw [getElem?_erase]
  simp only [Std.LawfulEqOrd.compare_eq_iff_eq]

end Lookup

/-! ## Mirrors -/

section Mirror

variable {K V D W : Type} [Ord D] [Std.TransOrd D]

/-- The store holds the entries of the table `mem`, encoded, and nothing else. -/
structure Mirrors (keyOf : K → D) (enc : V → W) (mem : K → Option V) (disk : Map D W) : Prop where
  stored : ∀ k, disk[keyOf k]? = (mem k).map enc
  known : ∀ d w, disk[d]? = some w → ∃ k, d = keyOf k

variable {keyOf : K → D} {enc : V → W} {mem : K → Option V} {disk : Map D W}

theorem mirrors_empty : Mirrors keyOf enc (fun _ => none) (∅ : Map D W) where
  stored k := getElem?_empty
  known d w h := by
    rw [getElem?_empty] at h
    cases h

theorem Mirrors.congr {mem' : K → Option V} (h : Mirrors keyOf enc mem disk)
    (heq : ∀ k, mem' k = mem k) : Mirrors keyOf enc mem' disk := by
  rwa [show mem' = mem from funext heq]

variable [Std.LawfulEqOrd D]

/-- Deleting all keys of a kind. -/
theorem Mirrors.filter (h : Mirrors keyOf enc mem disk) (keep : D → Bool) :
    Mirrors keyOf enc (fun a => if keep (keyOf a) then mem a else none)
      (disk.filter fun d _ => keep d) where
  stored a := by
    rw [getElem?_filter', h.stored a]
    cases hkeep : keep (keyOf a) <;> cases mem a <;> simp [Option.filter]
  known d w hd := by
    rw [getElem?_filter'] at hd
    exact h.known d w (Option.filter_eq_some_iff.mp hd).1

/-! ## Rebuilding -/

/-- Scan a store, parse what is there and put it in a table. -/
def rebuild {A : Type} (parse : D → Option K) (dec : W → Option V) (put : A → K → V → A)
    (init : A) (disk : Map D W) : A :=
  disk.foldl (fun a d w => match parse d, dec w with
    | some k, some v => put a k v
    | _, _ => a) init

variable {A : Type} {parse : D → Option K} {dec : W → Option V} {put : A → K → V → A}

theorem Mirrors.entries (h : Mirrors keyOf enc mem disk) :
    ∀ e ∈ disk.toList, ∃ k v, mem k = some v ∧ e = (keyOf k, enc v) := by
  rintro ⟨d, w⟩ he
  have hd := mem_toList_iff_getElem?_eq_some.mp he
  obtain ⟨k, rfl⟩ := h.known d w hd
  rw [h.stored k] at hd
  obtain ⟨v, hv, rfl⟩ := Option.map_eq_some_iff.mp hd
  exact ⟨k, v, hv, rfl⟩

/-- What every `put` of an entry of the table keeps holds of the rebuilt table. -/
theorem rebuild_invariant {I : A → Prop} {init : A} (h : Mirrors keyOf enc mem disk)
    (hparse : ∀ k v, mem k = some v → parse (keyOf k) = some k)
    (hdec : ∀ v, dec (enc v) = some v) (hinit : I init)
    (hput : ∀ a k v, mem k = some v → I a → I (put a k v)) :
    I (rebuild parse dec put init disk) := by
  have hentries := h.entries
  unfold rebuild
  rw [foldl_eq_foldl_toList]
  generalize disk.toList = es at hentries
  induction es generalizing init with
  | nil => exact hinit
  | cons e es ih =>
    obtain ⟨k, v, hv, rfl⟩ := hentries e List.mem_cons_self
    refine ih ?_ fun e' he' => hentries e' (List.mem_cons_of_mem _ he')
    simp only [hparse k v hv, hdec v]
    exact hput init k v hv hinit

variable [DecidableEq K]

/-- **A scan rebuilds the table.** -/
theorem get_rebuild (get : A → K → Option V) {init : A}
    (hget : ∀ a k v k', get (put a k v) k' = if k = k' then some v else get a k')
    (hnone : ∀ k, get init k = none) (h : Mirrors keyOf enc mem disk)
    (hparse : ∀ k v, mem k = some v → parse (keyOf k) = some k)
    (hdec : ∀ v, dec (enc v) = some v) (k : K) :
    get (rebuild parse dec put init disk) k = mem k := by
  -- nothing but entries of the table gets in
  have hsound : ∀ k v, get (rebuild parse dec put init disk) k = some v → mem k = some v := by
    refine rebuild_invariant (I := fun a => ∀ k v, get a k = some v → mem k = some v) h hparse hdec
      ?_ ?_
    · intro k v hk
      rw [hnone] at hk
      cases hk
    · intro a k v hv ha k' v' hk'
      rw [hget] at hk'
      split at hk'
      case isTrue hkk => rw [← hkk, hv, hk']
      case isFalse => exact ha k' v' hk'
  -- an entry is met on the way, and later ones do not change it
  have hcomplete : ∀ v, mem k = some v → ∀ (es : List (D × W)) (a : A),
      (∀ e ∈ es, ∃ k v, mem k = some v ∧ e = (keyOf k, enc v)) →
      (keyOf k, enc v) ∈ es ∨ get a k = some v →
      get (es.foldl (fun a e => match parse e.1, dec e.2 with
        | some k, some v => put a k v
        | _, _ => a) a) k = some v := by
    intro v hv es
    induction es with
    | nil =>
      rintro a - (hin | ha)
      · cases hin
      · exact ha
    | cons e es ih =>
      intro a hes hmet
      obtain ⟨k', v', hv', rfl⟩ := hes e List.mem_cons_self
      refine ih _ (fun e' he' => hes e' (List.mem_cons_of_mem _ he')) ?_
      simp only [hparse k' v' hv', hdec v', hget]
      by_cases hk : k' = k
      · subst hk
        rw [if_pos rfl, ← hv', hv]
        exact .inr rfl
      rw [if_neg hk]
      refine hmet.imp_left fun hin => ?_
      rcases List.mem_cons.mp hin with heq | hin
      · have hkey := hparse k v hv
        rw [(Prod.mk.inj heq).1, hparse k' v' hv'] at hkey
        exact absurd (Option.some.inj hkey) hk
      · exact hin
  cases hmem : mem k with
  | none =>
    cases hk : get (rebuild parse dec put init disk) k with
    | none => rfl
    | some v =>
      rw [hsound k v hk] at hmem
      cases hmem
  | some v =>
    unfold rebuild
    rw [foldl_eq_foldl_toList]
    refine hcomplete v hmem _ _ h.entries (.inl ?_)
    rw [mem_toList_iff_getElem?_eq_some, h.stored k, hmem]
    rfl

/-! ## Writing -/

variable [DecidableEq D]

section

variable (h : Mirrors keyOf enc mem disk) (hinj : Function.Injective keyOf)
include h hinj

omit [Std.LawfulEqOrd D] in
/-- A write under the encoded key is a write to the table. -/
theorem Mirrors.update {k : K} {o : Option V} {disk' : Map D W}
    (hdisk : ∀ d, disk'[d]? = if keyOf k = d then o.map enc else disk[d]?) :
    Mirrors keyOf enc (fun a => if k = a then o else mem a) disk' where
  stored a := by
    rw [hdisk]
    by_cases hk : k = a
    · rw [if_pos (congrArg keyOf hk), if_pos hk]
    · rw [if_neg fun he => hk (hinj he), if_neg hk]
      exact h.stored a
  known d w hd := by
    rw [hdisk] at hd
    split at hd
    case isTrue hk => exact ⟨k, hk.symm⟩
    case isFalse => exact h.known d w hd

theorem Mirrors.insert (k : K)
    (v : V) : Mirrors keyOf enc (fun a => if k = a then some v else mem a)
      (disk.insert (keyOf k) (enc v)) :=
  h.update hinj fun d => get_insert disk (keyOf k) d (enc v)

theorem Mirrors.erase (k : K) : Mirrors keyOf enc (fun a => if k = a then none else mem a)
      (disk.erase (keyOf k)) :=
  h.update hinj fun d => get_erase disk (keyOf k) d

end

end Mirror

end PowerFS.Lib.OrderedMap
