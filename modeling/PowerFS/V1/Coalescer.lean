import PowerFS.Wal.Index

/-! # The write coalescer

`write_coalescer.rs`: partial writes are merged in memory and reach the data file later.
An entry is the whole content of a needle. Deadlines, counters and budgets decide only
when an entry is due; a write never hands one back unless coalescing is disabled.

The order in which a hash map is iterated, and the capacity of a vector, are not
determined by their contents and are parameters. -/
namespace PowerFS.V1.Coalescer
open Lib.ByteString Lib.FinTable Wal.Index

structure CoalescerConfig where
  deadline : Nat
  minPendingWrites : Nat
  maxDirtyBytesPerEntry : Nat
  maxDirtyBytesTotal : Nat
  /-- No coalescing: every partial write is handed back at once. -/
  disabled : Bool
  deriving DecidableEq

structure DirtyEntry where
  /-- The whole content of the needle. -/
  merged : Bytes
  pendingWrites : Nat
  flushAfter : Nat
  isNewNeedle : Bool
  deriving DecidableEq

structure WriteCoalescer where
  config : CoalescerConfig
  entries : Table DirtyEntry
  dirtyBytesTotal : Nat

/-- `resize(end, 0)` if the vector is shorter, then `copy_from_slice`. -/
def patch (merged : Bytes) (offset : Nat) (data : Bytes) : Bytes :=
  let stop := offset + data.length
  let grown := if merged.length < stop then merged ++ zeros (stop - merged.length) else merged
  grown.take offset ++ data ++ grown.drop stop

/-- Patching is a positional write. -/
theorem patch_eq_pwrite (merged : Bytes) (offset : Nat) (data : Bytes) :
    patch merged offset data = pwrite merged offset data := by
  unfold patch pwrite
  dsimp only
  by_cases h : merged.length < offset + data.length
  · have hrest : merged.drop (offset + data.length) = [] := List.drop_eq_nil_of_le (by omega)
    rw [if_pos h, hrest]
    have hdrop : (merged ++ zeros (offset + data.length - merged.length)).drop
        (offset + data.length) = [] := by
      apply List.drop_eq_nil_of_le
      simp
      omega
    rw [hdrop, List.take_append, List.append_nil, List.append_nil]
    congr 2
    simp only [zeros, List.take_replicate]
    congr 1
    omega
  · have hgap : offset - merged.length = 0 := by omega
    rw [if_neg h, hgap]
    simp [zeros]

namespace WriteCoalescer

def new (config : CoalescerConfig) : WriteCoalescer := ⟨config, ∅, 0⟩

/-- The content a first partial write starts from. -/
def seed (existing : Option Bytes) (fullSizeHint : Nat) : Bytes :=
  match existing with
  | some v => v
  | none => zeros fullSizeHint

/-- The entry that is due first, in the order the map is iterated. -/
def oldest (o : HashOrder) (entries : Table DirtyEntry) : Option Nat :=
  ((o.entries entries).argmin fun e => e.2.flushAfter).map Prod.fst

def expire (entries : Table DirtyEntry) (id now : Nat) : Table DirtyEntry :=
  match entries.lookup id with
  | some e => entries.insert id { e with flushAfter := now - 1 }
  | none => entries

def recordWrite (o : HashOrder) (now : Nat) (c : WriteCoalescer) (id offset : Nat)
    (data : Bytes) (fullSizeHint : Nat) (existing : Option Bytes) :
    WriteCoalescer × Option (Nat × Bytes × Bool) :=
  if c.config.disabled then
    (c, some (id, patch (seed existing fullSizeHint) offset data, existing.isNone))
  else
    let known := c.entries.lookup id
    let entry := known.getD ⟨seed existing fullSizeHint, 0, now + c.config.deadline,
      existing.isNone⟩
    let oldLen := match known with
      | some e => e.merged.length
      | none => 0
    let merged := patch entry.merged offset data
    let pending := entry.pendingWrites + 1
    let trigger := entry.pendingWrites ≠ 0 ∧ (entry.flushAfter ≤ now ∨
      c.config.minPendingWrites ≤ pending ∨ c.config.maxDirtyBytesPerEntry < merged.length)
    let entries := c.entries.insert id ⟨merged, pending, entry.flushAfter, entry.isNewNeedle⟩
    let total := c.dirtyBytesTotal - oldLen + merged.length
    -- over budget: the entry that is due first becomes due at once
    let victim := if c.config.maxDirtyBytesTotal < total then oldest o entries else none
    let entries := match victim with
      | some k => if k = id then entries else expire entries k now
      | none => entries
    let entries := if trigger ∨ victim = some id then expire entries id now else entries
    ({ c with entries := entries, dirtyBytesTotal := total }, none)

def isDirty (c : WriteCoalescer) (id : Nat) : Bool := (c.entries.lookup id).isSome

/-- Discard the dirty content of a needle. -/
def invalidate (capacity : Bytes → Nat) (c : WriteCoalescer) (id : Nat) : WriteCoalescer :=
  match c.entries.lookup id with
  | some e =>
    { c with
      entries := c.entries.erase id
      dirtyBytesTotal := c.dirtyBytesTotal - capacity e.merged }
  | none => c

/-- `take_specific` of one id. -/
def take (c : WriteCoalescer) (id : Nat) : WriteCoalescer × Option DirtyEntry :=
  match c.entries.lookup id with
  | some e =>
    ({ c with
      entries := c.entries.erase id
      dirtyBytesTotal := c.dirtyBytesTotal - e.merged.length }, some e)
  | none => (c, none)

def takeAll (o : HashOrder) (c : WriteCoalescer) : WriteCoalescer × List (Nat × DirtyEntry) :=
  ({ c with entries := ∅, dirtyBytesTotal := 0 }, o.entries c.entries)

def dirtyIds (o : HashOrder) (c : WriteCoalescer) : List Nat := (o.entries c.entries).map Prod.fst

def expiredIds (o : HashOrder) (now : Nat) (c : WriteCoalescer) : List Nat :=
  ((o.entries c.entries).filter fun e => decide (e.2.flushAfter ≤ now)).map Prod.fst

/-- What a table of entries holds for a needle. -/
def heldIn (entries : Table DirtyEntry) (id : Nat) : Option (Bytes × Bool) :=
  (entries.lookup id).map fun e => (e.merged, e.isNewNeedle)

/-- Making an entry due does not change what is held. -/
theorem heldIn_expire (entries : Table DirtyEntry) (k now x : Nat) :
    heldIn (expire entries k now) x = heldIn entries x := by
  unfold expire heldIn
  split
  case h_1 e he =>
    by_cases hx : x = k
    · subst hx
      rw [Finmap.lookup_insert, he]
      rfl
    · rw [Finmap.lookup_insert_of_ne _ hx]
  case h_2 he => rfl

theorem heldIn_insert (entries : Table DirtyEntry) (id x : Nat) (e : DirtyEntry) :
    heldIn (entries.insert id e) x =
      if x = id then some (e.merged, e.isNewNeedle) else heldIn entries x := by
  unfold heldIn
  by_cases hx : x = id
  · subst hx
    rw [Finmap.lookup_insert, if_pos rfl]
    rfl
  · rw [Finmap.lookup_insert_of_ne _ hx, if_neg hx]

theorem heldIn_erase (entries : Table DirtyEntry) (id x : Nat) :
    heldIn (entries.erase id) x = if x = id then none else heldIn entries x := by
  unfold heldIn
  by_cases hx : x = id
  · subst hx
    rw [Finmap.lookup_erase, if_pos rfl]
    rfl
  · rw [Finmap.lookup_erase_ne hx, if_neg hx]

/-- The dirty content of a needle, and whether the needle was new when it was begun. -/
def held (c : WriteCoalescer) (id : Nat) : Option (Bytes × Bool) := heldIn c.entries id

variable {c : WriteCoalescer} {id : Nat} {o : HashOrder}

theorem held_eq_none : c.held id = none ↔ c.entries.lookup id = none := by
  simp [held, heldIn]

theorem isDirty_iff : c.isDirty id = true ↔ c.held id ≠ none := by
  simp [isDirty, held, heldIn, Option.isSome_iff_ne_none]

/-- What is held for a needle after a partial write to it. -/
def merge (c : WriteCoalescer) (id offset : Nat) (data : Bytes) (fullSizeHint : Nat)
    (existing : Option Bytes) : Bytes × Bool :=
  match c.held id with
  | some (merged, isNew) => (pwrite merged offset data, isNew)
  | none => (pwrite (seed existing fullSizeHint) offset data, existing.isNone)

variable {now offset hint : Nat} {data : Bytes} {existing : Option Bytes} {c' : WriteCoalescer}
  {e : DirtyEntry}

/-- A partial write changes what is held for its needle and for no other. -/
theorem held_recordWrite (h : c.config.disabled = false) :
    (c.recordWrite o now id offset data hint existing).2 = none ∧
    (c.recordWrite o now id offset data hint existing).1.config = c.config ∧
    ∀ x, (c.recordWrite o now id offset data hint existing).1.held x =
      if x = id then some (c.merge id offset data hint existing) else c.held x := by
  unfold recordWrite
  rw [if_neg (by rw [h]; exact Bool.false_ne_true)]
  refine ⟨rfl, rfl, fun x => ?_⟩
  have hdue : ∀ (p : Prop) [Decidable p] (entries : Table DirtyEntry) (k : Nat),
      heldIn (if p then expire entries k now else entries) x = heldIn entries x := by
    intro p _ entries k
    split
    · exact heldIn_expire entries k now x
    · rfl
  have hvictim : ∀ (victim : Option Nat) (entries : Table DirtyEntry),
      heldIn (match victim with
        | some k => if k = id then entries else expire entries k now
        | none => entries) x = heldIn entries x := by
    intro victim entries
    cases victim with
    | none => rfl
    | some k =>
      dsimp only
      split
      · rfl
      · exact heldIn_expire entries k now x
  show heldIn _ x = _
  rw [hdue, hvictim, heldIn_insert]
  by_cases hx : x = id
  · rw [if_pos hx, if_pos hx]
    unfold merge held heldIn
    cases c.entries.lookup id with
    | some | none => simp [patch_eq_pwrite]
  · rw [if_neg hx, if_neg hx]
    rfl

/-- Without coalescing a partial write is handed back. -/
theorem recordWrite_disabled (h : c.config.disabled = true) :
    c.recordWrite o now id offset data hint existing =
      (c, some (id, pwrite (seed existing hint) offset data, existing.isNone)) := by
  unfold recordWrite
  rw [if_pos h, patch_eq_pwrite]

theorem held_invalidate (capacity : Bytes → Nat) (c : WriteCoalescer) (id x : Nat) :
    (c.invalidate capacity id).held x = if x = id then none else c.held x := by
  unfold invalidate held
  split
  case h_1 e he => exact heldIn_erase c.entries id x
  case h_2 he =>
    by_cases hx : x = id
    · subst hx
      rw [if_pos rfl]
      unfold heldIn
      rw [he]
      rfl
    · rw [if_neg hx]

theorem config_invalidate (capacity : Bytes → Nat) (c : WriteCoalescer) (id : Nat) :
    (c.invalidate capacity id).config = c.config := by
  unfold invalidate
  split <;> rfl

theorem take_none (h : c.held id = none) : c.take id = (c, none) := by
  unfold take
  rw [held_eq_none.mp h]

theorem exists_take (h : c.held id ≠ none) : ∃ c' e, c.take id = (c', some e) := by
  obtain ⟨e, he⟩ := Option.ne_none_iff_exists'.mp fun hnone => h (held_eq_none.mpr hnone)
  unfold take
  rw [he]
  exact ⟨_, e, rfl⟩

/-- An entry that is taken is no longer held. -/
theorem held_take (h : c.take id = (c', some e)) :
    c.held id = some (e.merged, e.isNewNeedle) ∧ c'.config = c.config ∧
      ∀ x, c'.held x = if x = id then none else c.held x := by
  unfold take at h
  split at h
  case h_1 e' he =>
    obtain ⟨rfl, heq⟩ := Prod.mk.inj h
    cases heq
    refine ⟨?_, rfl, fun x => heldIn_erase c.entries id x⟩
    unfold held heldIn
    rw [he]
    rfl
  case h_2 => cases (Prod.mk.inj h).2

/-- With one entry gone, what is held was held before. -/
theorem held_of_gone (h : ∀ x, c'.held x = if x = id then none else c.held x) {x : Nat}
    {e : Bytes × Bool} (hx : c'.held x = some e) : c.held x = some e := by
  rw [h x] at hx
  split at hx
  · cases hx
  · exact hx

theorem mem_entries {p : Nat × DirtyEntry} :
    p ∈ o.entries c.entries ↔ c.entries.lookup p.1 = some p.2 :=
  (o.perm c.entries).mem_iff.trans mem_toList

theorem nodup_entries (o : HashOrder) (c : WriteCoalescer) :
    ((o.entries c.entries).map Prod.fst).Nodup :=
  ((o.perm c.entries).map Prod.fst).nodup_iff.mpr (toList_nodup_keys c.entries)

theorem held_of_lookup (h : c.entries.lookup id = some e) :
    c.held id = some (e.merged, e.isNewNeedle) := by
  unfold held heldIn
  rw [h]
  rfl

end WriteCoalescer

end PowerFS.V1.Coalescer
