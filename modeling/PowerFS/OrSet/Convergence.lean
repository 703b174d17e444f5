import PowerFS.OrSet.Directory
import PowerFS.Lib.StepRuns

/-! # Replicas of a directory converge

What a replica holds should be determined by the set of the deltas it has applied. The proof
says so directly: it reads the entries, tombstones and clock off that set, and shows that
every local operation and every delivery keeps the reading right. Attributes are the delicate
part, since a change of attributes is stored by the replica that applies it last. -/
namespace PowerFS.OrSet.Convergence
open List Function

open Lib.StepRuns Directory

variable {ρ : Type}

/-! ## What a set of deltas says -/

/-- A part of the log. -/
abbrev View (ρ : Type) := Nat → Option (Sent ρ)

def view (log : List (Sent ρ)) (seen : Finset Nat) : View ρ :=
  fun n => if n ∈ seen then log[n]? else none

def Introduces (v : View ρ) (k : Nat) (e : DirEntry ρ) : Prop :=
  ∃ x, v k = some x ∧ x.delta.introduced = some e

def Removed (v : View ρ) (id : EntryId) : Prop :=
  ∃ n x, v n = some x ∧ x.delta.removed = some id

def Sets (v : View ρ) (n : Nat) (inode : UInt64) (a : Attr) (w : Nat) : Prop :=
  ∃ x, v n = some x ∧ x.delta.sets inode a = some w

/-- The attribute is what the last change after `k` says, or still what it was. -/
def Latest (v : View ρ) (k : Nat) (inode : UInt64) (a : Attr) (old w : Nat) : Prop :=
  (∃ n, k < n ∧ Sets v n inode a w ∧ ∀ m, n < m → ∀ w', ¬ Sets v m inode a w') ∨
    (w = old ∧ ∀ m, k < m → ∀ w', ¬ Sets v m inode a w')

/-- What the deltas say about one identity. -/
def Shows (v : View ρ) (id : EntryId) : Option (DirEntry ρ) → Prop
  | none => Removed v id ∨ ∀ k e, Introduces v k e → e.id ≠ id
  | some e => ¬ Removed v id ∧ ∃ k e₀, Introduces v k e₀ ∧ e₀.id = id ∧ e.id = id ∧
      e.inode = e₀.inode ∧ e.others = e₀.others ∧
      ∀ a, Latest v k e.inode a (e₀.attrs a) (e.attrs a)

/-- The set is what the deltas say. -/
structure Reads (v : View ρ) (s : DirORSet ρ) : Prop where
  tombstones : ∀ id, id ∈ s.tombstones ↔ Removed v id
  clock_le : ∀ c n x, v n = some x → x.delta.vclock c ≤ s.vclock c
  clock_mem : ∀ c, s.vclock c = 0 ∨ ∃ n x, v n = some x ∧ x.delta.vclock c = s.vclock c
  entries : ∀ id, Shows v id (s.entries id)

/-! ## The conditions -/

/-- Identities are unique, deltas arrive once and after what their origin had seen, and the
search by inode finds what there is. -/
def Legal (s : Net ρ) : Event ρ → Prop
  | .operate _ (.add entry) => ∀ k e, Introduces (s.log[·]?) k e → e.id ≠ entry.id
  | .operate r (.updateAttr inode _ _ found) => Finds (s.replicas r).set inode found
  | .operate _ _ => True
  | .deliver r n found => n ∉ (s.replicas r).seen ∧ ∀ x, s.log[n]? = some x →
      x.deps ⊆ (s.replicas r).seen ∧
        ∀ i a w, x.delta.sets i a = some w → Finds (s.replicas r).set i found

/-- Every attribute change of the inode made so far has arrived at the replica. -/
def AttrsArrived (s : Net ρ) (r : Nat) (inode : UInt64) : Prop :=
  ∀ n a w, Sets (s.log[·]?) n inode a w → n ∈ (s.replicas r).seen

/-- Nobody works on an inode whose attributes are being changed elsewhere, attributes are
changed where the inode has one entry, and only what was seen is removed. -/
def Careful (s : Net ρ) : Event ρ → Prop
  | .operate r (.add entry) => AttrsArrived s r entry.inode
  | .operate r (.remove id) =>
    ∃ k e, Introduces (view s.log (s.replicas r).seen) k e ∧ e.id = id
  | .operate r (.renameEntry oldId newName clientId _) =>
    ∀ old, (s.replicas r).set.entries oldId = some old → AttrsArrived s r old.inode ∧
      ∀ k e, Introduces (s.log[·]?) k e → e.id ≠ newId (s.replicas r).set newName clientId
  | .operate r (.updateAttr inode attrs _ _) =>
    (∀ k e, Introduces (s.log[·]?) k e → e.inode = inode → k ∈ (s.replicas r).seen) ∧
      (∀ n a w, Sets (s.log[·]?) n inode a w → (attrs a).isSome → n ∈ (s.replicas r).seen) ∧
      ∀ id id' e e', (s.replicas r).set.entries id = some e →
        (s.replicas r).set.entries id' = some e' → e.inode = inode → e'.inode = inode →
        id = id'
  | .deliver _ _ _ => True

/-! ## Deltas that fit the log before them -/

/-- What a delta may rely on, with `past` the log before it. -/
structure Fits (past : List (Sent ρ)) (x : Sent ρ) : Prop where
  fresh : ∀ e, x.delta.introduced = some e →
    ∀ k e', Introduces (past[·]?) k e' → e'.id ≠ e.id
  observed : ∀ id, x.delta.removed = some id →
    ∃ k e, Introduces (view past x.deps) k e ∧ e.id = id
  entriesSeen : ∀ i a w, x.delta.sets i a = some w →
    ∀ k e, Introduces (past[·]?) k e → e.inode = i → k ∈ x.deps
  setsSeen : ∀ i a w, x.delta.sets i a = some w →
    ∀ n w', Sets (past[·]?) n i a w' → n ∈ x.deps
  setsBefore : ∀ e, x.delta.introduced = some e →
    ∀ n a w, Sets (past[·]?) n e.inode a w → n ∈ x.deps
  single : ∀ i a w, x.delta.sets i a = some w → ∀ k e k' e',
    Introduces (view past x.deps) k e → Introduces (view past x.deps) k' e' →
    e.inode = i → e'.inode = i → ¬ Removed (view past x.deps) e.id →
    ¬ Removed (view past x.deps) e'.id → e.id = e'.id

def Causal (log : List (Sent ρ)) : Prop :=
  ∀ n x, log[n]? = some x → Fits (log.take n) x

/-- A replica has applied only what there is, and everything a delta relies on. -/
structure Closed (log : List (Sent ρ)) (seen : Finset Nat) : Prop where
  exist : ∀ n ∈ seen, n < log.length
  deps : ∀ n ∈ seen, ∀ x, log[n]? = some x → x.deps ⊆ seen

variable {log : List (Sent ρ)} {seen : Finset Nat} {s : DirORSet ρ}

variable {n k w : Nat} {x : Sent ρ} {e : DirEntry ρ} {i : UInt64} {a : Attr} {id : EntryId}
  {s' : DirORSet ρ} {t : Net ρ}

theorem view_some : view log seen n = some x ↔ n ∈ seen ∧ log[n]? = some x := by
  unfold view
  split_ifs with h <;> simp [h]

theorem Introduces.of_view (h : Introduces (view log seen) k e) :
    k ∈ seen ∧ Introduces (log[·]?) k e := by
  obtain ⟨x, hx, he⟩ := h
  exact ⟨(view_some.mp hx).1, x, (view_some.mp hx).2, he⟩

theorem Sets.of_view (h : Sets (view log seen) n i a w) : n ∈ seen ∧ Sets (log[·]?) n i a w := by
  obtain ⟨x, hx, hw⟩ := h
  exact ⟨(view_some.mp hx).1, x, (view_some.mp hx).2, hw⟩

theorem getElem_of_take (h : (log.take n)[k]? = some x) : log[k]? = some x := by
  rw [getElem?_take] at h
  split_ifs at h
  exact h

theorem Introduces.take (h : Introduces (log[·]?) k e) (hk : k < n) :
    Introduces ((log.take n)[·]?) k e := by
  obtain ⟨x, hx, he⟩ := h
  exact ⟨x, (getElem?_take_of_lt hk).trans hx, he⟩

theorem Sets.take (h : Sets (log[·]?) k i a w) (hk : k < n) : Sets ((log.take n)[·]?) k i a w := by
  obtain ⟨x, hx, hw⟩ := h
  exact ⟨x, (getElem?_take_of_lt hk).trans hx, hw⟩

open Option

variable {e' : DirEntry ρ} {w' r : Nat} {attrs : Attr → Option Nat} {op : Op ρ}

/-- An identity is introduced once. -/
theorem Causal.unique (hlog : Causal log) {k' : Nat} (he : Introduces (log[·]?) k e)
    (he' : Introduces (log[·]?) k' e') (hid : e.id = e'.id) :
    k = k' ∧ e = e' := by
  obtain ⟨x, hx, hxe⟩ := he
  obtain ⟨x', hx', hxe'⟩ := he'
  rcases Nat.lt_trichotomy k k' with hlt | rfl | hlt
  · exact absurd hid ((hlog k' x' hx').fresh e' hxe' k e (Introduces.take ⟨x, hx, hxe⟩ hlt))
  · cases hx.symm.trans hx'
    exact ⟨rfl, some.inj (hxe.symm.trans hxe')⟩
  · exact absurd hid.symm ((hlog k x hx).fresh e hxe k' e' (Introduces.take ⟨x', hx', hxe'⟩ hlt))

/-! ## The reading is unique -/

theorem Latest.unique {v : View ρ} {old : Nat} (h : Latest v k i a old w)
    (h' : Latest v k i a old w') : w = w' := by
  rcases h with ⟨n, hn, hset, hlast⟩ | ⟨rfl, hnone⟩
  · rcases h' with ⟨n', hn', hset', hlast'⟩ | ⟨rfl, hnone'⟩
    · rcases Nat.lt_trichotomy n n' with hlt | rfl | hlt
      · exact absurd hset' (hlast n' hlt w')
      · obtain ⟨x, hx, hw⟩ := hset
        obtain ⟨x', hx', hw'⟩ := hset'
        cases hx.symm.trans hx'
        exact some.inj (hw.symm.trans hw')
      · exact absurd hset (hlast' n hlt w)
    · exact absurd hset (hnone' n hn w)
  · rcases h' with ⟨n', hn', hset', -⟩ | ⟨rfl, -⟩
    · exact absurd hset' (hnone n' hn' w')
    · rfl

theorem Shows.unique (hlog : Causal log) {o o' : Option (DirEntry ρ)}
    (h : Shows (view log seen) id o) (h' : Shows (view log seen) id o') : o = o' := by
  have hclash : ∀ e, Shows (view log seen) id (some e) → ¬ Shows (view log seen) id none := by
    rintro e ⟨hlive, k, e₀, hintro, hid, -⟩ (hgone | hnone)
    · exact hlive hgone
    · exact hnone k e₀ hintro hid
  cases o with
  | none =>
    cases o' with
    | none => rfl
    | some e' => exact absurd h (hclash e' h')
  | some e =>
    cases o' with
    | none => exact absurd h' (hclash e h)
    | some e' =>
      obtain ⟨-, k, e₀, hk, hid₀, hid, hinode, hothers, hattrs⟩ := h
      obtain ⟨-, k', e₀', hk', hid₀', hid', hinode', hothers', hattrs'⟩ := h'
      obtain ⟨rfl, rfl⟩ := hlog.unique hk.of_view.2 hk'.of_view.2 (hid₀.trans hid₀'.symm)
      have hi : e.inode = e'.inode := hinode.trans hinode'.symm
      have ha : e.attrs = e'.attrs := funext fun a => (hattrs a).unique (hi ▸ hattrs' a)
      obtain ⟨_, _, _, _⟩ := e
      obtain ⟨_, _, _, _⟩ := e'
      simp_all

/-- Two sets that are what the same deltas say are equal. -/
theorem Reads.unique (hlog : Causal log) (h : Reads (view log seen) s)
    (h' : Reads (view log seen) s') : s = s' := by
  have hle : ∀ {t t' : DirORSet ρ}, Reads (view log seen) t → Reads (view log seen) t' →
      ∀ c, t.vclock c ≤ t'.vclock c := by
    intro t t' ht ht' c
    rcases ht.clock_mem c with h0 | ⟨n, x, hx, hc⟩
    · omega
    · exact hc ▸ ht'.clock_le c n x hx
  have hentries : s.entries = s'.entries :=
    funext fun id => (h.entries id).unique hlog (h'.entries id)
  have htombs : s.tombstones = s'.tombstones :=
    Finset.ext fun id => (h.tombstones id).trans (h'.tombstones id).symm
  have hclock : s.vclock = s'.vclock :=
    funext fun c => Nat.le_antisymm (hle h h' c) (hle h' h c)
  obtain ⟨_, _, _⟩ := s
  obtain ⟨_, _, _⟩ := s'
  simp_all

/-! ## One more delta -/

/-- What a replica with the deltas `seen` meets in the delta `n` it has not seen. -/
structure Next (log : List (Sent ρ)) (seen : Finset Nat) (n : Nat) (x : Sent ρ) : Prop where
  causal : Causal log
  closed : Closed log seen
  unseen : n ∉ seen
  there : log[n]? = some x
  deps : x.deps ⊆ seen

namespace Next

variable {n : Nat} {x : Sent ρ} (h : Next log seen n x)
include h

variable {m : Nat} {y : Sent ρ} {e : DirEntry ρ}

/-- No delta that has arrived relies on the new one. -/
theorem unused (hm : m ∈ seen) (hy : log[m]? = some y) : n ∉ y.deps :=
  fun hn => h.unseen (h.closed.deps m hm y hy hn)

theorem view_insert : view log (insert n seen) m = some y ↔
    (m = n ∧ y = x) ∨ view log seen m = some y := by
  simp only [view_some, Finset.mem_insert]
  constructor
  · rintro ⟨rfl | hm, hy⟩
    · exact .inl ⟨rfl, some.inj (hy.symm.trans h.there)⟩
    · exact .inr ⟨hm, hy⟩
  · rintro (⟨rfl, rfl⟩ | ⟨hm, hy⟩)
    · exact ⟨.inl rfl, h.there⟩
    · exact ⟨.inr hm, hy⟩

theorem introduces :
    Introduces (view log (insert n seen)) k e ↔
      (k = n ∧ x.delta.introduced = some e) ∨ Introduces (view log seen) k e := by
  simp [Introduces, h.view_insert, or_and_right, exists_or, and_assoc]

theorem sets :
    Sets (view log (insert n seen)) m i a w ↔
      (m = n ∧ x.delta.sets i a = some w) ∨ Sets (view log seen) m i a w := by
  simp [Sets, h.view_insert, or_and_right, exists_or, and_assoc]

theorem removed :
    Removed (view log (insert n seen)) id ↔
      x.delta.removed = some id ∨ Removed (view log seen) id := by
  simp [Removed, h.view_insert, or_and_right, exists_or, and_assoc]

/-- What the deltas on record say of the past of the new one, they say of the replica. -/
theorem past_view (hy : view (log.take n) x.deps m = some y) : view log seen m = some y := by
  obtain ⟨hm, hy⟩ := view_some.mp hy
  exact view_some.mpr ⟨h.deps hm, getElem_of_take hy⟩

/-- A new identity has no tombstone. -/
theorem not_removed (he : x.delta.introduced = some e) :
    ¬ Removed (view log (insert n seen)) e.id := by
  rw [h.removed]
  have hfits := h.causal n x h.there
  rintro (hself | ⟨m, y, hy, hrem⟩)
  · obtain ⟨k, e', hk, hid⟩ := hfits.observed _ hself
    exact hfits.fresh e he k e' hk.of_view.2 hid
  · obtain ⟨hm, hy⟩ := view_some.mp hy
    obtain ⟨k, e', hk, hid⟩ := (h.causal m y hy).observed _ hrem
    obtain ⟨hkdeps, z, hz, hze⟩ := hk.of_view
    obtain ⟨rfl, -⟩ := h.causal.unique ⟨z, getElem_of_take hz, hze⟩ ⟨x, h.there, he⟩ hid
    exact h.unused hm hy hkdeps

/-- Nothing that has arrived changes the attributes of a new entry. -/
theorem sets_introduced (he : x.delta.introduced = some e)
    (hset : Sets (view log seen) m e.inode a w) : ¬ n < m := by
  intro hlt
  obtain ⟨hm, y, hy, hw⟩ := hset.of_view
  exact h.unused hm hy ((h.causal m y hy).entriesSeen _ _ _ hw n e
    (Introduces.take ⟨x, h.there, he⟩ hlt) rfl)

variable {i : UInt64} {a : Attr} {w : Nat} (hset : x.delta.sets i a = some w)
include hset

/-- A change of attributes is newer than the entries of the inode that have arrived, -/
theorem introduced_lt (hk : Introduces (view log seen) k e) (hi : e.inode = i) : k < n := by
  obtain ⟨hkseen, y, hy, hye⟩ := hk.of_view
  rcases Nat.lt_trichotomy k n with hlt | rfl | hlt
  · exact hlt
  · exact absurd hkseen h.unseen
  · exact absurd ((h.causal k y hy).setsBefore e hye n a w
      (Sets.take ⟨x, h.there, hi ▸ hset⟩ hlt)) (h.unused hkseen hy)

/-- and than the changes of the same attribute. -/
theorem last (hm : Sets (view log seen) m i a w') : ¬ n < m := by
  intro hlt
  obtain ⟨hmseen, y, hy, hw⟩ := hm.of_view
  exact h.unused hmseen hy ((h.causal m y hy).setsSeen _ _ _ hw n w
    (Sets.take ⟨x, h.there, hset⟩ hlt))

/-- There is one entry for it. -/
theorem one_entry (hreads : Reads (view log seen) s) {id' : EntryId} (he : s.entries id = some e)
    (he' : s.entries id' = some e') (hi : e.inode = i) (hi' : e'.inode = i) : id = id' := by
  have hfits := h.causal n x h.there
  -- an entry of the replica stands in the past of the delta, and is not removed there
  have hpast : ∀ {id e}, s.entries id = some e → e.inode = i → ∃ k e₀,
      Introduces (view (log.take n) x.deps) k e₀ ∧ e₀.inode = i ∧ e₀.id = id ∧
        ¬ Removed (view (log.take n) x.deps) e₀.id := by
    intro id e he hi
    have hshows := hreads.entries id
    rw [he] at hshows
    obtain ⟨hlive, k, e₀, hk, hid₀, -, hinode, -⟩ := hshows
    have hi₀ := hinode.symm.trans hi
    have hintro := hk.of_view.2.take (h.introduced_lt hset hk hi₀)
    obtain ⟨y, hy, hye⟩ := hintro
    refine ⟨k, e₀, ⟨y, view_some.mpr ⟨hfits.entriesSeen _ _ _ hset k e₀ ⟨y, hy, hye⟩ hi₀, hy⟩,
      hye⟩, hi₀, hid₀, ?_⟩
    rintro ⟨m, z, hz, hrem⟩
    exact hlive ⟨m, z, h.past_view hz, hid₀ ▸ hrem⟩
  obtain ⟨k, e₀, hk, hi₀, rfl, hlive⟩ := hpast he hi
  obtain ⟨k', e₀', hk', hi₀', rfl, hlive'⟩ := hpast he' hi'
  exact hfits.single i a w hset k e₀ k' e₀' hk hk' hi₀ hi₀' hlive hlive'

end Next

/-! ## Applying it -/

variable {d : DeltaOp ρ} {found : Option EntryId}

theorem applyDelta_clock (h : ∀ e, d.introduced = some e → e.id ∉ s.tombstones) :
    (applyDelta found s d).vclock = s.vclock.merge d.vclock := by
  cases d with
  | add entry vclock => rw [applyDelta, if_neg (h entry rfl)]; rfl
  | remove | rename | setAttr => rfl

theorem setFound_tombstones : (s.setFound attrs found).tombstones = s.tombstones := by
  cases found <;> rfl

theorem setFound_entries : (s.setFound attrs found).entries id =
    (s.entries id).map fun e => if found = some id then e.set attrs else e := by
  cases found with
  | none => simp [DirORSet.setFound]
  | some id' =>
    by_cases hid : id = id'
    · subst hid
      simp [DirORSet.setFound]
    · simp [DirORSet.setFound, update_of_ne hid, Ne.symm hid]

open DeltaOp

theorem applyDelta_tombstones :
    id ∈ (applyDelta found s d).tombstones ↔ d.removed = some id ∨ id ∈ s.tombstones := by
  cases d with
  | add entry vclock =>
    rw [applyDelta]
    split <;> simp [removed]
  | remove | rename =>
    simp only [applyDelta, removed, Finset.mem_insert, some.injEq]
    exact or_congr_left eq_comm
  | setAttr => simp [applyDelta, removed, setFound_tombstones]

theorem applyDelta_introduced (he : d.introduced = some e) (h : e.id ∉ s.tombstones)
    (hne : d.removed ≠ some e.id) : (applyDelta found s d).entries e.id = some e := by
  cases d with
  | add entry vclock =>
    cases he
    simp [applyDelta, h]
  | rename oldId newEntry vclock =>
    cases he
    have hold : ¬ e.id = oldId := fun heq => hne (by rw [removed, heq])
    simp [applyDelta, h, hold]
  | remove | setAttr => cases he

theorem applyDelta_removed (hrem : d.removed = some id)
    (h : ∀ e, d.introduced = some e → e.id ≠ id) : (applyDelta found s d).entries id = none := by
  cases d with
  | remove oldId vclock =>
    cases hrem
    simp [applyDelta]
  | rename oldId newEntry vclock =>
    cases hrem
    simp only [applyDelta]
    split
    · simp
    · rw [update_of_ne (h newEntry rfl).symm, update_self]
  | add | setAttr => cases hrem

/-- Every other entry has its attributes changed if the delta is about its inode. -/
theorem applyDelta_kept (hintro : ∀ e, d.introduced = some e → e.id ≠ id)
    (hrem : d.removed ≠ some id) (hfound : ∀ i a w, d.sets i a = some w → Finds s i found)
    (hone : ∀ i a w, d.sets i a = some w → ∀ id id' e e', s.entries id = some e →
      s.entries id' = some e' → e.inode = i → e'.inode = i → id = id') :
    (applyDelta found s d).entries id =
      (s.entries id).map fun e => e.set fun a => d.sets e.inode a := by
  have hsame : ∀ o : Option (DirEntry ρ), o.map (fun e => e.set fun _ => none) = o := by
    rintro (_ | _) <;> rfl
  cases d with
  | add entry vclock =>
    have hne := (hintro entry rfl).symm
    simp only [sets, hsame, applyDelta]
    split
    · rfl
    · exact update_of_ne hne _ _
  | remove oldId vclock =>
    have hne : id ≠ oldId := fun heq => hrem (by rw [removed, heq])
    simp only [sets, hsame, applyDelta, update_of_ne hne]
  | rename oldId newEntry vclock =>
    have hne : id ≠ oldId := fun heq => hrem (by rw [removed, heq])
    have hne' := (hintro newEntry rfl).symm
    simp only [sets, hsame, applyDelta]
    split
    · exact update_of_ne hne _ _
    · rw [update_of_ne hne', update_of_ne hne]
  | setAttr i attrs vclock =>
    have hsets : ∀ {a w}, attrs a = some w → (setAttr i attrs vclock : DeltaOp ρ).sets
        i a = some w := fun h => by simpa [sets] using h
    -- an entry the delta is about is the one that was found
    have hhit : ∀ {e a w}, s.entries id = some e → e.inode = i → attrs a = some w →
        found = some id := by
      intro e a w he hi hw
      have hfinds := hfound i a w (hsets hw)
      cases found with
      | none => exact absurd hi (hfinds id e he)
      | some id' =>
        obtain ⟨e', he', hi'⟩ := hfinds
        rw [hone i a w (hsets hw) id id' e e' he he' hi hi']
    have hentry : ∀ e, s.entries id = some e → (fun a => ((setAttr i attrs vclock :
        DeltaOp ρ).sets e.inode a).getD (e.attrs a)) =
          if found = some id then fun a => (attrs a).getD (e.attrs a) else e.attrs := by
      intro e he
      funext a
      cases hw : attrs a with
      | none =>
        split <;> simp [sets, hw]
      | some w =>
        by_cases hi : e.inode = i
        · rw [if_pos (hhit he hi hw)]
          simp [sets, hi, hw]
        have hmiss : found ≠ some id := by
          rintro rfl
          obtain ⟨e', he', hi'⟩ := hfound i a w (hsets hw)
          cases he.symm.trans he'
          exact hi hi'
        rw [if_neg hmiss]
        simp [sets, Ne.symm hi]
    refine setFound_entries.trans (map_congr fun e he => ?_)
    simp only [DirEntry.set, hentry e he]
    split <;> rfl

/-- **A set that is what the deltas of a replica say stays so when one more is applied.** -/
theorem Reads.apply (hreads : Reads (view log seen) s) (h : Next log seen n x)
    (hfound : ∀ i a w, x.delta.sets i a = some w → Finds s i found) :
    Reads (view log (insert n seen)) (applyDelta found s x.delta) := by
  have hnew : ∀ e, x.delta.introduced = some e →
      e.id ∉ s.tombstones ∧ x.delta.removed ≠ some e.id := by
    intro e he
    have hlive := h.not_removed he
    rw [h.removed, not_or] at hlive
    exact ⟨fun hmem => hlive.2 ((hreads.tombstones _).mp hmem), hlive.1⟩
  have hclock : (applyDelta found s x.delta).vclock = s.vclock.merge x.delta.vclock :=
    applyDelta_clock fun e he => (hnew e he).1
  refine ⟨fun id => ?_, fun c m y hy => ?_, fun c => ?_, fun id => ?_⟩
  · rw [applyDelta_tombstones, h.removed, hreads.tombstones]
  · rw [hclock]
    rcases h.view_insert.mp hy with ⟨rfl, rfl⟩ | hold
    · exact Nat.le_max_right _ _
    · exact Nat.le_trans (hreads.clock_le c m y hold) (Nat.le_max_left _ _)
  · rw [hclock]
    rcases Nat.le_total (s.vclock c) (x.delta.vclock c) with hle | hle
    · exact .inr ⟨n, x, h.view_insert.mpr (.inl ⟨rfl, rfl⟩), (Nat.max_eq_right hle).symm⟩
    rw [VectorClock.merge, Nat.max_eq_left hle]
    rcases hreads.clock_mem c with h0 | ⟨m, y, hy, hc⟩
    · exact .inl h0
    · exact .inr ⟨m, y, h.view_insert.mpr (.inr hy), hc⟩
  · by_cases hintro : ∃ e, x.delta.introduced = some e ∧ e.id = id
    · obtain ⟨e, he, rfl⟩ := hintro
      rw [applyDelta_introduced he (hnew e he).1 (hnew e he).2]
      refine ⟨h.not_removed he, n, e, h.introduces.mpr (.inl ⟨rfl, he⟩), rfl, rfl, rfl, rfl,
        fun a => .inr ⟨rfl, fun m hm w hset => ?_⟩⟩
      rcases h.sets.mp hset with ⟨rfl, -⟩ | hold
      · exact Nat.lt_irrefl _ hm
      · exact h.sets_introduced he hold hm
    have hother : ∀ e, x.delta.introduced = some e → e.id ≠ id :=
      fun e he hid => hintro ⟨e, he, hid⟩
    by_cases hrem : x.delta.removed = some id
    · rw [applyDelta_removed hrem hother]
      exact .inl (h.removed.mpr (.inl hrem))
    rw [applyDelta_kept hother hrem hfound fun i a w hset id id' e e' =>
      h.one_entry hset hreads]
    have hshows := hreads.entries id
    cases he : s.entries id with
    | none =>
      rw [he] at hshows
      refine hshows.imp (fun hgone => h.removed.mpr (.inr hgone)) fun hnone k e hk => ?_
      rcases h.introduces.mp hk with ⟨-, hself⟩ | hold
      · exact hother e hself
      · exact hnone k e hold
    | some e =>
      rw [he] at hshows
      obtain ⟨hlive, k, e₀, hk, hid₀, hid, hinode, hothers, hattrs⟩ := hshows
      refine ⟨fun hgone => (h.removed.mp hgone).elim hrem hlive, k, e₀,
        h.introduces.mpr (.inr hk), hid₀, hid, hinode, hothers, fun a => ?_⟩
      have hold := hattrs a
      simp only [DirEntry.set]
      cases hset : x.delta.sets e.inode a with
      | none =>
        -- the delta says nothing of this attribute
        have hiff : ∀ m w, Sets (view log (insert n seen)) m e.inode a w ↔
            Sets (view log seen) m e.inode a w := by
          intro m w
          rw [h.sets, hset]
          simp
        simpa only [Latest, hiff, getD_none] using hold
      | some w =>
        refine .inl ⟨n, h.introduced_lt hset hk hinode.symm, h.sets.mpr (.inl ⟨rfl, hset⟩),
          fun m hm w' hset' => ?_⟩
        rcases h.sets.mp hset' with ⟨rfl, -⟩ | hset'
        · exact Nat.lt_irrefl _ hm
        · exact h.last hset hset' hm

/-! ## Runs -/

structure Inv (s : Net ρ) : Prop where
  causal : Causal s.log
  closed : ∀ r, Closed s.log (s.replicas r).seen
  reads : ∀ r, Reads (view s.log (s.replicas r).seen) (s.replicas r).set

theorem inv_start : Inv (start : Net ρ) where
  causal := by simp [Causal, start]
  closed r := ⟨by simp [start], by simp [start]⟩
  reads r := by
    have hnone : ∀ n, view (start : Net ρ).log ∅ n = none := fun n => by simp [view]
    exact ⟨by simp [start, DirORSet.new, Removed, view], by simp [start, view],
      by simp [start, DirORSet.new], fun id => .inr fun k e ⟨x, hx, _⟩ => by
        cases (hnone k).symm.trans hx⟩

theorem view_append (h : Closed log seen) : view (log ++ [x]) seen = view log seen := by
  funext n
  unfold view
  split_ifs with hn
  · exact getElem?_append_left (h.exist n hn)
  · rfl

theorem Causal.append (h : Causal log) (hx : Fits log x) : Causal (log ++ [x]) := by
  intro n y hy
  rcases Nat.lt_trichotomy n log.length with hlt | rfl | hgt
  · rw [getElem?_append_left hlt] at hy
    rw [take_append_of_le_length (Nat.le_of_lt hlt)]
    exact h n y hy
  · rw [getElem?_concat_length] at hy
    cases hy
    rwa [take_left]
  · rw [getElem?_eq_none (by simp; omega)] at hy
    cases hy

theorem Closed.append (h : Closed log seen) : Closed (log ++ [x]) seen where
  exist n hn := Nat.lt_of_lt_of_le (h.exist n hn) (by simp)
  deps n hn y hy :=
    h.deps n hn y ((getElem?_append_left (h.exist n hn)).symm.trans hy)

theorem Next.closed_insert (h : Next log seen n x) : Closed log (insert n seen) where
  exist m hm := by
    rcases Finset.mem_insert.mp hm with rfl | hm
    · exact (List.getElem?_eq_some_iff.mp h.there).1
    · exact h.closed.exist m hm
  deps m hm y hy := by
    rcases Finset.mem_insert.mp hm with rfl | hm
    · cases hy.symm.trans h.there
      exact h.deps.trans (Finset.subset_insert _ _)
    · exact (h.closed.deps m hm y hy).trans (Finset.subset_insert _ _)

/-- A replica that takes in one more delta keeps the picture. -/
theorem Inv.take (h : Inv t) (hnext : Next t.log (t.replicas r).seen n x)
    (hfound : ∀ i a w, x.delta.sets i a = some w → Finds (t.replicas r).set i found) :
    Inv (t.put r ⟨applyDelta found (t.replicas r).set x.delta, insert n (t.replicas r).seen⟩) where
  causal := h.causal
  closed := (forall_update_iff _ fun _ (q : Replica ρ) => Closed t.log q.seen).mpr
    ⟨hnext.closed_insert, fun r' _ => h.closed r'⟩
  reads := (forall_update_iff _ fun _ (q : Replica ρ) =>
    Reads (view t.log q.seen) q.set).mpr ⟨(h.reads r).apply hnext hfound, fun r' _ => h.reads r'⟩

theorem merge_increment (c : VectorClock) (client : UInt64) :
    c.merge (c.increment client) = c.increment client := by
  funext x
  by_cases hx : x = client
  · subst hx
    simp [VectorClock.merge, VectorClock.increment]
  · simp [VectorClock.merge, VectorClock.increment, update_of_ne hx]

/-- A local operation does what its delta does elsewhere. -/
theorem perform_applyDelta (h : perform s op = some (s', d))
    (hnew : ∀ e, d.introduced = some e → e.id ∉ s.tombstones ∧ d.removed ≠ some e.id) :
    s' = applyDelta op.found s d := by
  cases op with
  | add entry =>
    simp only [perform] at h
    split_ifs at h with hdead
    cases h
    simp [applyDelta, hdead, merge_increment]
  | remove id =>
    cases h
    simp [applyDelta, merge_increment]
  | renameEntry oldId newName clientId now =>
    obtain ⟨old, -, h⟩ := map_eq_some_iff.mp h
    cases h
    obtain ⟨hlive, hne⟩ := hnew _ rfl
    have hold : ¬ newId s newName clientId = oldId :=
      fun heq => hne (by simp [removed, heq])
    have hlive' : newId s newName clientId ∉ s.tombstones := hlive
    simp [applyDelta, hlive', hold, merge_increment]
  | updateAttr inode attrs clientId found =>
    cases h
    simp [applyDelta, Op.found, merge_increment]

theorem sets_setAttr {j : UInt64} {c : VectorClock}
    (h : (setAttr j attrs c : DeltaOp ρ).sets i a = some w) : j = i ∧ attrs a = some w := by
  simp only [sets] at h
  split_ifs at h with hj
  exact ⟨hj, h⟩

/-- The delta of a careful operation fits the log. -/
theorem Inv.fits (h : Inv t) (hlegal : Legal t (.operate r op))
    (hcareful : Careful t (.operate r op)) (hop : perform (t.replicas r).set op = some (s', d)) :
    Fits t.log ⟨d, (t.replicas r).seen⟩ := by
  cases op with
  | add entry =>
    simp only [perform] at hop
    split_ifs at hop
    cases hop
    exact ⟨fun e he => by cases he; exact hlegal, by simp [removed],
      by simp [sets], by simp [sets],
      fun e he => by cases he; exact hcareful, by simp [sets]⟩
  | remove id =>
    cases hop
    exact ⟨by simp [introduced], fun id' hid => by cases hid; exact hcareful,
      by simp [sets], by simp [sets], by simp [introduced],
      by simp [sets]⟩
  | renameEntry oldId newName clientId now =>
    obtain ⟨old, hold, hop⟩ := map_eq_some_iff.mp hop
    cases hop
    obtain ⟨harrived, hfresh⟩ := hcareful old hold
    refine ⟨fun e he => by cases he; exact hfresh, fun id hid => ?_, by simp [sets],
      by simp [sets], fun e he => by cases he; exact harrived, by simp [sets]⟩
    cases hid
    have hshows := (h.reads r).entries oldId
    rw [hold] at hshows
    obtain ⟨-, k, e₀, hk, hid₀, -⟩ := hshows
    exact ⟨k, e₀, hk, hid₀⟩
  | updateAttr inode attrs clientId found =>
    cases hop
    obtain ⟨hentries, hsets, hone⟩ := hcareful
    refine ⟨by simp [introduced], by simp [removed], fun i a w hset => ?_,
      fun i a w hset n w' hn => ?_, by simp [introduced],
      fun i a w hset k e k' e' hk hk' hi hi' hlive hlive' => ?_⟩
    all_goals obtain ⟨rfl, hw⟩ := sets_setAttr hset
    · exact hentries
    · exact hsets n a w' hn (by simp [hw])
    · -- what is introduced and not removed stands among the entries
      have hstands : ∀ {k e}, Introduces (view t.log (t.replicas r).seen) k e →
          ¬ Removed (view t.log (t.replicas r).seen) e.id →
          ∃ f, (t.replicas r).set.entries e.id = some f ∧ f.inode = e.inode := by
        intro k e hk hlive
        have hshows := (h.reads r).entries e.id
        cases hf : (t.replicas r).set.entries e.id with
        | none =>
          rw [hf] at hshows
          rcases hshows with hgone | hnone
          · exact absurd hgone hlive
          · exact absurd rfl (hnone k e hk)
        | some f =>
          rw [hf] at hshows
          obtain ⟨-, k', e₀, hk', hid₀, -, hinode, -⟩ := hshows
          obtain ⟨-, rfl⟩ := h.causal.unique hk'.of_view.2 hk.of_view.2 hid₀
          exact ⟨f, rfl, hinode⟩
      obtain ⟨f, hf, hfi⟩ := hstands hk hlive
      obtain ⟨f', hf', hfi'⟩ := hstands hk' hlive'
      exact hone _ _ f f' hf hf' (hfi.trans hi) (hfi'.trans hi')

theorem Inv.step (h : Inv t) {ev : Event ρ} (hlegal : Legal t ev) (hcareful : Careful t ev) :
    Inv (step t ev) := by
  cases ev with
  | deliver r n found =>
    simp only [Directory.step]
    cases hx : t.log[n]? with
    | none => exact h
    | some x =>
      obtain ⟨hunseen, harrives⟩ := hlegal
      obtain ⟨hdeps, hfound⟩ := harrives x hx
      exact h.take ⟨h.causal, h.closed r, hunseen, hx, hdeps⟩ hfound
  | operate r op =>
    simp only [Directory.step]
    cases hop : perform (t.replicas r).set op with
    | none => exact h
    | some out =>
      obtain ⟨s', d⟩ := out
      have hclosed := h.closed r
      -- first the log grows, then the replica takes its own delta in
      have hlog : Inv { t with log := t.log ++ [⟨d, (t.replicas r).seen⟩] } :=
        ⟨h.causal.append (h.fits hlegal hcareful hop), fun r' => (h.closed r').append,
          fun r' => by
            rw [view_append (h.closed r')]
            exact h.reads r'⟩
      have hnext : Next (t.log ++ [⟨d, (t.replicas r).seen⟩]) (t.replicas r).seen
          t.log.length ⟨d, (t.replicas r).seen⟩ :=
        ⟨hlog.causal, hclosed.append, fun hmem => Nat.lt_irrefl _ (hclosed.exist _ hmem),
          getElem?_concat_length, Finset.Subset.refl _⟩
      have hset := perform_applyDelta hop fun e he => by
        have hlive := hnext.not_removed he
        rw [hnext.removed, not_or, ← (hlog.reads r).tombstones] at hlive
        exact ⟨hlive.2, hlive.1⟩
      rw [hset]
      refine hlog.take hnext fun i a w hw => ?_
      cases op with
      | updateAttr inode attrs clientId found =>
        cases hop
        obtain ⟨rfl, -⟩ := sets_setAttr hw
        exact hlegal
      | remove id => cases hop; cases hw
      | add entry =>
        simp only [perform] at hop
        split_ifs at hop
        cases hop
        cases hw
      | renameEntry oldId newName clientId now =>
        obtain ⟨old, -, hop⟩ := map_eq_some_iff.mp hop
        cases hop
        cases hw

/-- **Replicas that have applied the same deltas are equal, in every run in which nobody works
on an inode whose attributes are being changed elsewhere, attributes are changed where the
inode has one entry, and only what was seen is removed.** -/
theorem replicas_converge (evs : List (Event ρ))
    (h : Along step (fun s ev => Legal s ev ∧ Careful s ev) start evs) (r r' : Nat)
    (hseen : ((evs.foldl step start).replicas r).seen =
      ((evs.foldl step start).replicas r').seen) :
    ((evs.foldl step start).replicas r).set = ((evs.foldl step start).replicas r').set := by
  have hinv : Inv (evs.foldl step start) :=
    h.invariant (fun t ev ht hev => ht.step hev.1 hev.2) inv_start
  exact (hinv.reads r).unique hinv.causal (hseen ▸ hinv.reads r')

def sampleEntry (clientId inode : UInt64) : DirEntry Unit :=
  ⟨⟨"report", clientId, 1⟩, inode, fun _ => 0, ()⟩

def chmod (mode : Nat) : Attr → Option Nat := fun a => if a = .mode then some mode else none

/-- Two clients create a file of one name at once, and each learns of the other. Then one
changes the mode of its file while the other removes the one it made. -/
theorem concurrent_changes_converge :
    let e := sampleEntry 0 100
    let f := sampleEntry 1 200
    let evs : List (Event Unit) := [.operate 0 (.add e), .operate 1 (.add f), .deliver 0 1 none,
      .deliver 1 0 none, .operate 0 (.updateAttr 100 (chmod 7) 0 (some e.id)),
      .operate 1 (.remove f.id), .deliver 0 3 none, .deliver 1 2 (some e.id)]
    ((evs.foldl step start).replicas 0).set = ((evs.foldl step start).replicas 1).set := by
  intro e f evs
  refine replicas_converge evs ⟨⟨?_, ?_⟩, ⟨?_, ?_⟩, ⟨⟨by decide, ?_⟩, trivial⟩,
    ⟨⟨by decide, ?_⟩, trivial⟩, ⟨⟨_, rfl, rfl⟩, ?_, ?_, ?_⟩,
    ⟨trivial, 1, f, ⟨_, rfl, rfl⟩, rfl⟩, ⟨⟨by decide, ?_⟩, trivial⟩, ⟨⟨by decide, ?_⟩, trivial⟩,
    trivial⟩ 0 1 (by decide)
  · rintro k e ⟨x, hx, -⟩
    simp [start] at hx
  · rintro n a w ⟨x, hx, -⟩
    simp [start] at hx
  · rintro (_ | k) e ⟨x, hx, he⟩
    · cases hx
      cases he
      decide
    · cases hx
  · rintro (_ | n) a w ⟨x, hx, hw⟩
    · cases hx
      cases hw
    · cases hx
  · rintro x ⟨⟩
    exact ⟨by decide, by simp [sets]⟩
  · rintro x ⟨⟩
    exact ⟨by decide, by simp [sets]⟩
  · rintro (_ | _ | k) e ⟨x, hx, -⟩ -
    · decide
    · decide
    · cases hx
  · rintro (_ | _ | n) a w ⟨x, hx, -⟩ -
    · decide
    · decide
    · cases hx
  · have hone : ∀ id x, Function.update (Function.update (fun _ => none) e.id (some e)) f.id
        (some f) id = some x → x.inode = 100 → id = e.id := by
      intro id x hx hinode
      by_cases hf : id = f.id
      · rw [hf, Function.update_self] at hx
        cases hx
        cases hinode
      · rw [Function.update_of_ne hf] at hx
        by_contra he
        rw [Function.update_of_ne he] at hx
        cases hx
    intro id id' x x' hx hx' hi hi'
    rw [hone id x hx hi, hone id' x' hx' hi']
  · rintro x ⟨⟩
    exact ⟨by decide, by simp [sets]⟩
  · rintro x ⟨⟩
    refine ⟨by decide, fun i a w hset => ?_⟩
    obtain ⟨rfl, -⟩ := sets_setAttr hset
    exact ⟨_, rfl, rfl⟩

/-- Two clients change the mode of one file at once: each ends with the mode of the other. -/
theorem concurrent_chmods_diverge :
    let e := sampleEntry 0 100
    let evs : List (Event Unit) := [.operate 0 (.add e), .deliver 1 0 none,
      .operate 0 (.updateAttr 100 (chmod 1) 0 (some e.id)),
      .operate 1 (.updateAttr 100 (chmod 2) 1 (some e.id)),
      .deliver 0 2 (some e.id), .deliver 1 1 (some e.id)]
    let last := evs.foldl step start
    Along step Legal start evs ∧ (last.replicas 0).seen = (last.replicas 1).seen ∧
      ((last.replicas 0).set.entries e.id).map (·.attrs .mode) = some 2 ∧
      ((last.replicas 1).set.entries e.id).map (·.attrs .mode) = some 1 := by
  refine ⟨⟨?_, ⟨by decide, ?_⟩, ⟨_, rfl, rfl⟩, ⟨_, rfl, rfl⟩, ⟨by decide, ?_⟩, ⟨by decide, ?_⟩,
    trivial⟩, by decide, rfl, rfl⟩
  · rintro k e ⟨x, hx, -⟩
    simp [start] at hx
  · rintro x ⟨⟩
    exact ⟨by decide, by simp [sets]⟩
  · rintro x ⟨⟩
    refine ⟨by decide, fun i a w hset => ?_⟩
    obtain ⟨rfl, -⟩ := sets_setAttr hset
    exact ⟨_, rfl, rfl⟩
  · rintro x ⟨⟩
    refine ⟨by decide, fun i a w hset => ?_⟩
    obtain ⟨rfl, -⟩ := sets_setAttr hset
    exact ⟨_, rfl, rfl⟩

end PowerFS.OrSet.Convergence
