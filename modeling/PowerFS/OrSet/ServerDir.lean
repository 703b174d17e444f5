import Mathlib.Data.Finset.Basic

/-! # The filer's directory OR-set

The server merges the operations of all clients into one map from keys to entries. A name's entry
stands under the key of the name, or under that key with the operation's id behind it where the
name was taken. An observed remove does not always remove: it is ignored when another client's
operation is on record for the name, it leaves the suffixed entries, and it forgets which Adds it
has seen, so that one of them delivered again is inserted again. -/
namespace PowerFS.OrSet.ServerDir

/-! ## State -/

structure EntryTag where
  clientId : String
  seq : Nat
  operationId : String
  deriving DecidableEq

namespace EntryTag

def new (clientId : String) (seq : Nat) : EntryTag := ⟨clientId, seq, s!"{clientId}-{seq}"⟩

def isSameOperation (t other : EntryTag) : Bool := t.operationId == other.operationId

def isFromClient (t : EntryTag) (clientId : String) : Bool := t.clientId == clientId

end EntryTag

/-- `others` are the mode, the file type and the etag, which no merge reads or changes. -/
structure DirEntryOrset (ρ : Type) where
  tag : EntryTag
  inode : UInt64
  name : String
  parentIno : UInt64
  size : Nat
  mtime : Nat
  others : ρ
  deriving DecidableEq

inductive MergeResult
  | applied | idempotent | concurrentlyAdded | concurrentlyRemoved | conflict

abbrev ServerVectorClock := String → Nat

def ServerVectorClock.observe (c : ServerVectorClock) (clientId : String) (seq : Nat) :
    ServerVectorClock := Function.update c clientId (max (c clientId) seq)

/-- Of a tombstone the merges read the tag; its time and epoch are for the cleanup. -/
structure ServerDirORSet (ρ : Type) where
  entries : String → Option (DirEntryOrset ρ)
  entryTags : String → Option (Finset EntryTag)
  tombstones : String → Option (List EntryTag)
  vclock : ServerVectorClock

def entryKey (parentIno : UInt64) (name : String) : String := s!"{parentIno}:{name}"

def DirEntryOrset.key {ρ : Type} (e : DirEntryOrset ρ) : String := entryKey e.parentIno e.name

namespace ServerDirORSet

variable {ρ : Type}

def new : ServerDirORSet ρ := ⟨fun _ => none, fun _ => none, fun _ => none, fun _ => 0⟩

/-- `entry_tags.entry(key).or_default()`, for a reader. -/
def tagsOf (s : ServerDirORSet ρ) (key : String) : Finset EntryTag := (s.entryTags key).getD ∅

def tombstonesOf (s : ServerDirORSet ρ) (key : String) : List EntryTag := (s.tombstones key).getD []

def insertEntry (s : ServerDirORSet ρ) (key : String) (entry : DirEntryOrset ρ) :
    ServerDirORSet ρ := { s with entries := Function.update s.entries key (some entry) }

def insertTag (s : ServerDirORSet ρ) (key : String) (tag : EntryTag) : ServerDirORSet ρ :=
  { s with entryTags := Function.update s.entryTags key (some (insert tag (s.tagsOf key))) }

def pushTombstone (s : ServerDirORSet ρ) (key : String) (tag : EntryTag) : ServerDirORSet ρ :=
  { s with tombstones := Function.update s.tombstones key (some (s.tombstonesOf key ++ [tag])) }

def erase (s : ServerDirORSet ρ) (key : String) : ServerDirORSet ρ :=
  { s with
    entries := Function.update s.entries key none
    entryTags := Function.update s.entryTags key none }

def updateVclock (s : ServerDirORSet ρ) (tag : EntryTag) : ServerDirORSet ρ :=
  { s with vclock := s.vclock.observe tag.clientId tag.seq }

/-! ## Merging an Add and a Remove -/

def mergeAdd (s : ServerDirORSet ρ) (entry : DirEntryOrset ρ) : ServerDirORSet ρ × MergeResult :=
  if ∃ t ∈ s.tagsOf entry.key, t.isSameOperation entry.tag then (s, .idempotent)
  else if ∃ t ∈ s.tombstonesOf entry.key, t.isSameOperation entry.tag then (s, .idempotent)
  else
    let s := { s with tombstones := Function.update s.tombstones entry.key none }
    let taken := (s.entries entry.key).any fun existing =>
      !existing.tag.isSameOperation entry.tag
    if taken then
      -- both are kept, the later one under a key of its own
      let uniqueKey := entry.key ++ "#" ++ entry.tag.operationId
      ((((s.insertEntry uniqueKey entry).insertTag entry.key entry.tag).insertTag
        uniqueKey entry.tag).updateVclock entry.tag, .concurrentlyAdded)
    else (((s.insertEntry entry.key entry).insertTag entry.key entry.tag).updateVclock entry.tag,
      .applied)

def mergeRemove (s : ServerDirORSet ρ) (parentIno : UInt64) (name : String) (tag : EntryTag) :
    ServerDirORSet ρ × MergeResult :=
  let key := entryKey parentIno name
  if ∃ t ∈ s.tombstonesOf key, t.isSameOperation tag then (s, .idempotent)
  else
    match s.entryTags key with
    | some tags =>
      if ∃ t ∈ tags, !t.isSameOperation tag && !t.isFromClient tag.clientId then
        ((s.pushTombstone key tag).updateVclock tag, .concurrentlyRemoved)
      else (((s.erase key).pushTombstone key tag).updateVclock tag, .applied)
    | none => ((s.pushTombstone key tag).updateVclock tag, .applied)

/-! ## What a Remove leaves visible -/

/-- An entry of the name, as `list_all` shows it. -/
def Holds (s : ServerDirORSet ρ) (parentIno : UInt64) (name key : String) (e : DirEntryOrset ρ) :
    Prop := s.entries key = some e ∧ e.parentIno = parentIno ∧ e.name = name

def Visible (s : ServerDirORSet ρ) (parentIno : UInt64) (name : String) : Prop :=
  ∃ key e, s.Holds parentIno name key e

/-- Neither the Remove nor `earlier` Adds of the name delivered again after it, in any number and
order, leave an entry of the name. -/
def Removed (s : ServerDirORSet ρ) (parentIno : UInt64) (name : String) (tag : EntryTag)
    (earlier : Set (DirEntryOrset ρ)) : Prop :=
  ∀ adds : List (DirEntryOrset ρ),
    (∀ a ∈ adds, a ∈ earlier ∧ a.parentIno = parentIno ∧ a.name = name) →
    ¬ (adds.foldl (fun s a => (s.mergeAdd a).1) (s.mergeRemove parentIno name tag).1).Visible
      parentIno name

/-- The Remove is not a repeated one, and the operations on record for the name are its client's
own. -/
def Effective (s : ServerDirORSet ρ) (key : String) (tag : EntryTag) : Prop :=
  (∀ t ∈ s.tombstonesOf key, t.operationId ≠ tag.operationId) ∧
  ∃ tags, s.entryTags key = some tags ∧
    ∀ t ∈ tags, t.operationId = tag.operationId ∨ t.clientId = tag.clientId

/-- What `merge_add` takes for a repetition. -/
def Seen (s : ServerDirORSet ρ) (a : DirEntryOrset ρ) : Prop :=
  (∃ t ∈ s.tagsOf a.key, t.operationId = a.tag.operationId) ∨
  ∃ t ∈ s.tombstonesOf a.key, t.operationId = a.tag.operationId

/-- The Add will be taken for a repetition once the Remove is merged: its operation is a
tombstone's or the Remove's own, or it is on record and stays there. -/
def Known (s : ServerDirORSet ρ) (tag : EntryTag) (a : DirEntryOrset ρ) : Prop :=
  (¬ s.Effective a.key tag ∧ ∃ t ∈ s.tagsOf a.key, t.operationId = a.tag.operationId) ∨
  ∃ t ∈ s.tombstonesOf a.key ++ [tag], t.operationId = a.tag.operationId

variable {s : ServerDirORSet ρ} {p : UInt64} {n : String} {tag : EntryTag} {a : DirEntryOrset ρ}

theorem mergeAdd_seen (h : s.Seen a) : (s.mergeAdd a).1 = s := by
  unfold mergeAdd
  by_cases htags : ∃ t ∈ s.tagsOf a.key, t.isSameOperation a.tag
  · rw [if_pos htags]
  have hbury : ∃ t ∈ s.tombstonesOf a.key, t.isSameOperation a.tag := by
    rcases h with ⟨t, ht, hop⟩ | ⟨t, ht, hop⟩
    · exact absurd ⟨t, ht, beq_iff_eq.mpr hop⟩ htags
    · exact ⟨t, ht, beq_iff_eq.mpr hop⟩
  rw [if_neg htags, if_pos hbury]

theorem mergeAdd_unseen (h : ¬ s.Seen a) : (s.mergeAdd a).1.Visible a.parentIno a.name := by
  have htags : ¬ ∃ t ∈ s.tagsOf a.key, t.isSameOperation a.tag :=
    fun ⟨t, ht, hop⟩ => h (.inl ⟨t, ht, beq_iff_eq.mp hop⟩)
  have hbury : ¬ ∃ t ∈ s.tombstonesOf a.key, t.isSameOperation a.tag :=
    fun ⟨t, ht, hop⟩ => h (.inr ⟨t, ht, beq_iff_eq.mp hop⟩)
  unfold mergeAdd
  rw [if_neg htags, if_neg hbury]
  dsimp only
  split <;> exact ⟨_, a, Function.update_self .., rfl, rfl⟩

/-- **What a Remove does**: nothing when it is a repeated one, otherwise a tombstone, and the entry
under the key of the name goes when the Remove is effective. -/
theorem mergeRemove_cases (s : ServerDirORSet ρ) (p : UInt64) (n : String) (tag : EntryTag) :
    ((∃ t ∈ s.tombstonesOf (entryKey p n), t.operationId = tag.operationId) ∧
      (s.mergeRemove p n tag).1 = s) ∨
    (¬ s.Effective (entryKey p n) tag ∧
      (s.mergeRemove p n tag).1 = (s.pushTombstone (entryKey p n) tag).updateVclock tag) ∨
    (s.Effective (entryKey p n) tag ∧
      (s.mergeRemove p n tag).1 = ((s.erase (entryKey p n)).pushTombstone (entryKey p n)
        tag).updateVclock tag) := by
  unfold mergeRemove
  dsimp only
  split
  case isTrue h =>
    obtain ⟨t, ht, hop⟩ := h
    exact .inl ⟨⟨t, ht, beq_iff_eq.mp hop⟩, rfl⟩
  case isFalse hnew =>
    cases htags : s.entryTags (entryKey p n) with
    | none =>
      refine .inr (.inl ⟨?_, rfl⟩)
      rintro ⟨-, tags, hsome, -⟩
      rw [htags] at hsome
      cases hsome
    | some tags =>
      dsimp only
      split
      case isTrue h =>
        obtain ⟨t, ht, hop⟩ := h
        simp only [EntryTag.isSameOperation, EntryTag.isFromClient, Bool.and_eq_true,
          Bool.not_eq_true', beq_eq_false_iff_ne] at hop
        refine .inr (.inl ⟨?_, rfl⟩)
        rintro ⟨-, tags', hsome, hown⟩
        cases htags.symm.trans hsome
        exact (hown t ht).elim hop.1 hop.2
      case isFalse hown =>
        refine .inr (.inr ⟨⟨fun t ht he => hnew ⟨t, ht, beq_iff_eq.mpr he⟩, tags, htags, ?_⟩, rfl⟩)
        intro t ht
        by_contra hne
        rw [not_or] at hne
        exact hown ⟨t, ht, by simpa [EntryTag.isSameOperation, EntryTag.isFromClient] using hne⟩

theorem holds_mergeRemove {k : String} {e : DirEntryOrset ρ} :
    (s.mergeRemove p n tag).1.Holds p n k e ↔
      s.Holds p n k e ∧ ¬ (k = entryKey p n ∧ s.Effective (entryKey p n) tag) := by
  rcases mergeRemove_cases s p n tag with ⟨hrep, h⟩ | ⟨hne, h⟩ | ⟨heff, h⟩ <;> rw [h]
  · obtain ⟨t, ht, he⟩ := hrep
    exact (and_iff_left fun hk => hk.2.1 t ht he).symm
  · exact (and_iff_left fun hk => hne hk.2).symm
  by_cases hk : k = entryKey p n
  · simp [Holds, erase, pushTombstone, updateVclock, hk, heff]
  · simp [Holds, erase, pushTombstone, updateVclock, hk]

theorem seen_mergeRemove (hp : a.parentIno = p) (hn : a.name = n) :
    (s.mergeRemove p n tag).1.Seen a ↔ s.Known tag a := by
  have hkey : a.key = entryKey p n := by rw [DirEntryOrset.key, hp, hn]
  unfold Seen Known
  rw [hkey]
  rcases mergeRemove_cases s p n tag with ⟨hrep, h⟩ | ⟨hne, h⟩ | ⟨heff, h⟩ <;> rw [h]
  · obtain ⟨t, ht, he⟩ := hrep
    have hne : ¬ s.Effective (entryKey p n) tag := fun heff => heff.1 t ht he
    have hown : tag.operationId = a.tag.operationId →
        ∃ t ∈ s.tombstonesOf (entryKey p n), t.operationId = a.tag.operationId :=
      fun h => ⟨t, ht, he.trans h⟩
    simp only [hne, not_false_eq_true, true_and, List.mem_append, List.mem_singleton, or_and_right,
      exists_or, exists_eq_left, or_iff_left_of_imp hown]
  · simp [hne, tagsOf, tombstonesOf, pushTombstone, updateVclock]
  · simp [heff, tagsOf, tombstonesOf, erase, pushTombstone, updateVclock]

/-! ## Results -/

/-- **A Remove removes for good exactly when** every visible entry of the name stands under its
primary key with only the remover's operations on record, and every earlier Add would be taken
for a repetition afterwards. -/
theorem removed_iff (s : ServerDirORSet ρ) (p : UInt64) (n : String) (tag : EntryTag)
    (earlier : Set (DirEntryOrset ρ)) :
    s.Removed p n tag earlier ↔
      (∀ k e, s.Holds p n k e → k = entryKey p n ∧ s.Effective (entryKey p n) tag) ∧
      ∀ a ∈ earlier, a.parentIno = p → a.name = n → s.Known tag a := by
  constructor
  · intro h
    have hnone : ¬ (s.mergeRemove p n tag).1.Visible p n := h [] (by simp)
    refine ⟨fun k e he => ?_, fun a ha hp hn => ?_⟩
    · by_contra hk
      exact hnone ⟨k, e, holds_mergeRemove.mpr ⟨he, hk⟩⟩
    · rw [← seen_mergeRemove hp hn]
      by_contra hseen
      subst hp hn
      exact h [a] (by simpa using ha) (mergeAdd_unseen hseen)
  · rintro ⟨hcur, hknown⟩ adds
    -- every Add delivered again leaves the state as the Remove left it
    induction adds with
    | nil =>
      rintro - ⟨k, e, he⟩
      obtain ⟨he, hk⟩ := holds_mergeRemove.mp he
      exact hk (hcur k e he)
    | cons a adds ih =>
      intro hadds
      obtain ⟨ha, hp, hn⟩ := hadds a (by simp)
      rw [List.foldl_cons, mergeAdd_seen ((seen_mergeRemove hp hn).mpr (hknown a ha hp hn))]
      exact ih fun b hb => hadds b (by simp [hb])

def sampleEntry (clientId : String) (seq : Nat) : DirEntryOrset Unit :=
  ⟨.new clientId seq, 7, "f", 1, 0, 0, ()⟩

/-- One client adds a name and removes it. The Add delivered again brings it back. Another client
cannot remove it at all. -/
theorem removed_comes_back :
    ¬ (new.mergeAdd (sampleEntry "A" 1)).1.Removed 1 "f" (.new "A" 2) {sampleEntry "A" 1} ∧
    ((new.mergeAdd (sampleEntry "A" 1)).1.mergeRemove 1 "f" (.new "B" 1)).1.Visible 1 "f" :=
  ⟨fun h => h [sampleEntry "A" 1] (by simp [sampleEntry])
      ⟨entryKey 1 "f", sampleEntry "A" 1, by decide +kernel, rfl, rfl⟩,
    entryKey 1 "f", sampleEntry "A" 1, by decide +kernel, rfl, rfl⟩

end ServerDirORSet
end PowerFS.OrSet.ServerDir
