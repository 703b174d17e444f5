import Mathlib.Data.Finset.Card
import Mathlib.Logic.Relation

/-! # Conflicts below a directory

Whether a conflict lies below a directory is found out by climbing from its inode to the
parent until the directory is reached. The entries come from other clients, and nothing
remembers which inodes were passed: parent links that run in a circle are climbed for ever. -/
namespace PowerFS.OrSet.ConflictDirs
open Relation

inductive ConflictType where
  | createCreate | writeWrite | writeUnlink | deleteCreate | renameConflict | renameDelete
  | createDelete
  deriving DecidableEq

/-- What the climb looks at. -/
structure DirEntry where
  inode : UInt64
  parentIno : UInt64

/-- `branches` are the inodes of the branches. -/
structure ConflictRecord where
  conflictType : ConflictType
  branches : List UInt64
  resolved : Bool

/-- The entries in the order in which the hash map gives them. -/
structure DirORSet where
  entries : List DirEntry
  conflicts : List ConflictRecord

/-- `none` if it takes more than `steps` steps to a parent. -/
def isInDirSnapshot (inode dirIno : UInt64) (recursive : Bool) (entries : List DirEntry)
    (steps : Nat) : Option Bool :=
  if inode = dirIno then some true
  else if !recursive then some false
  else match entries.find? (·.inode == inode) with
    | none => some false
    | some e =>
      if e.parentIno = dirIno then some true
      else match steps with
        | 0 => none
        | steps + 1 => isInDirSnapshot e.parentIno dirIno true entries steps

/-- The same climb over the entries themselves. -/
def DirORSet.isInDir (s : DirORSet) (inode dirIno : UInt64) (recursive : Bool) (steps : Nat) :
    Option Bool :=
  isInDirSnapshot inode dirIno recursive s.entries steps

/-- A negative number stands for every type, and an unknown one for none. -/
def typeMatches (conflictType : Int) (c : ConflictRecord) : Bool :=
  if conflictType < 0 then true
  else match conflictType with
    | 0 => c.conflictType = .createCreate
    | 1 => c.conflictType = .writeWrite
    | 2 => c.conflictType = .writeUnlink
    | 3 => c.conflictType = .deleteCreate
    | 4 => c.conflictType = .renameConflict
    | _ => false

/-- Resolve the conflicts of the type below the directory, and count them. -/
def sweep (skips : ConflictRecord → Bool) (dirIno : UInt64) (recursive : Bool)
    (conflictType : Int) (entries : List DirEntry) :
    List ConflictRecord → Option (List ConflictRecord × Nat)
  | [] => some ([], 0)
  | c :: cs =>
    let rest := sweep skips dirIno recursive conflictType entries cs
    if skips c then rest.map fun (cs, count) => (c :: cs, count)
    else
      (isInDirSnapshot (c.branches.headD 0) dirIno recursive entries entries.length).bind
        fun inside => rest.map fun (cs, count) =>
          if inside && typeMatches conflictType c then
            ({ c with resolved := true } :: cs, count + 1)
          else (c :: cs, count)

def DirORSet.batchResolveByDir (s : DirORSet) (dirIno : UInt64) (recursive : Bool)
    (conflictType : Int) : Option (DirORSet × Nat) :=
  (sweep (·.resolved) dirIno recursive conflictType s.entries s.conflicts).map
    fun (conflicts, count) => ({ s with conflicts }, count)

/-- It sweeps over resolved conflicts too. -/
def DirORSet.batchIgnoreByDir (s : DirORSet) (dirIno : UInt64) (conflictType : Int) :
    Option (DirORSet × Nat) :=
  (sweep (fun _ => false) dirIno true conflictType s.entries s.conflicts).map
    fun (conflicts, count) => ({ s with conflicts }, count)

/-! ## Circles of parents -/

/-- A step of the climb. -/
def Up (entries : List DirEntry) (dirIno i j : UInt64) : Prop :=
  i ≠ dirIno ∧ ∃ e, entries.find? (·.inode == i) = some e ∧ e.parentIno = j

variable {entries : List DirEntry} {dirIno i : UInt64}

/-- In a circle there is always a next step. -/
theorem climbs_on (h : TransGen (Up entries dirIno) i i) : i ≠ dirIno ∧
    ∃ e, entries.find? (·.inode == i) = some e ∧
      TransGen (Up entries dirIno) e.parentIno e.parentIno := by
  obtain ⟨j, hij, hji⟩ := TransGen.head'_iff.mp h
  have hj : TransGen (Up entries dirIno) j j := .tail' hji hij
  obtain ⟨hi, e, hfind, rfl⟩ := hij
  exact ⟨hi, e, hfind, hj⟩

theorem never_returns (h : TransGen (Up entries dirIno) i i) (steps : Nat) :
    isInDirSnapshot i dirIno true entries steps = none := by
  induction steps generalizing i with
  | zero =>
    obtain ⟨hi, e, hfind, hnext⟩ := climbs_on h
    simp [isInDirSnapshot, hi, hfind, (climbs_on hnext).1]
  | succ steps ih =>
    obtain ⟨hi, e, hfind, hnext⟩ := climbs_on h
    simp [isInDirSnapshot, hi, hfind, (climbs_on hnext).1, ih hnext]

theorem entry_of_find {e : DirEntry} (h : entries.find? (·.inode == i) = some e) :
    ∃ e ∈ entries, e.inode = i :=
  ⟨e, List.mem_of_find?_eq_some h, by simpa using List.find?_some h⟩

/-- Without circles every inode is passed once. `left` are those that may still be met. -/
theorem climb_ends (hcircle : ∀ i, ¬ TransGen (Up entries dirIno) i i) (left : Finset UInt64)
    {recursive : Bool} {steps : Nat} (hleft : ∀ j, ReflTransGen (Up entries dirIno) i j →
      (∃ e ∈ entries, e.inode = j) → j ∈ left) (hcard : left.card ≤ steps) :
    ∃ b, isInDirSnapshot i dirIno recursive entries steps = some b := by
  fun_induction isInDirSnapshot i dirIno recursive entries steps generalizing left with
  | case5 i recursive _ _ e hfind =>
    have hi := Finset.card_pos.mpr ⟨i, hleft i .refl (entry_of_find hfind)⟩
    omega
  | case6 i recursive hi _ e hfind _ steps ih =>
    have hup : Up entries dirIno i e.parentIno := ⟨hi, e, hfind, rfl⟩
    refine ih (left.erase i) (fun j hreach hj => Finset.mem_erase.mpr ⟨?_, ?_⟩) ?_
    · rintro rfl
      exact hcircle j (.head' hup hreach)
    · exact hleft j (.head hup hreach) hj
    · rw [Finset.card_erase_of_mem (hleft i .refl (entry_of_find hfind))]
      omega
  | _ => exact ⟨_, rfl⟩

theorem sweep_ends {skips : ConflictRecord → Bool} {recursive : Bool} {conflictType : Int}
    (h : ∀ inode, ∃ b, isInDirSnapshot inode dirIno recursive entries entries.length = some b)
    (conflicts : List ConflictRecord) :
    ∃ r, sweep skips dirIno recursive conflictType entries conflicts = some r := by
  induction conflicts with
  | nil => exact ⟨_, rfl⟩
  | cons c cs ih =>
    obtain ⟨rest, hrest⟩ := ih
    obtain ⟨inside, hinside⟩ := h (c.branches.headD 0)
    unfold sweep
    rw [hrest, hinside]
    split
    · exact ⟨_, rfl⟩
    · exact ⟨_, rfl⟩

/-- **The climb ends after as many steps as there are entries**, and with it the sweeps over
the conflicts, exactly if no inode is above itself before the directory is reached. -/
theorem conflict_sweeps_return_iff (s : DirORSet) (dirIno : UInt64) :
    ((∀ inode, ∃ b, s.isInDir inode dirIno true s.entries.length = some b) ∧
      (∀ recursive conflictType, ∃ r, s.batchResolveByDir dirIno recursive conflictType = some r) ∧
      ∀ conflictType, ∃ r, s.batchIgnoreByDir dirIno conflictType = some r) ↔
    ∀ inode, ¬ TransGen (Up s.entries dirIno) inode inode := by
  constructor
  · rintro ⟨hreturns, -⟩ inode hcircle
    obtain ⟨b, hb⟩ := hreturns inode
    cases (never_returns hcircle _).symm.trans hb
  · intro hcircle
    have hends : ∀ recursive inode, ∃ b,
        isInDirSnapshot inode dirIno recursive s.entries s.entries.length = some b := by
      intro recursive inode
      refine climb_ends hcircle (s.entries.map (·.inode)).toFinset ?_ ?_
      · intro j _ hj
        simpa using hj
      · exact (List.toFinset_card_le _).trans (by simp)
    refine ⟨hends true, fun recursive conflictType => ?_, fun conflictType => ?_⟩
    · obtain ⟨r, hr⟩ := sweep_ends (hends recursive) s.conflicts
      exact ⟨_, congrArg (Option.map _) hr⟩
    · obtain ⟨r, hr⟩ := sweep_ends (hends true) s.conflicts
      exact ⟨_, congrArg (Option.map _) hr⟩

/-- Two directories that were moved into each other. -/
def twisted : DirORSet := ⟨[⟨1, 2⟩, ⟨2, 1⟩], [⟨.renameConflict, [1], false⟩]⟩

theorem twisted_never_returns :
    (¬ ∃ steps b, twisted.isInDir 1 3 true steps = some b) ∧
      twisted.batchResolveByDir 3 true (-1) = none ∧ twisted.batchIgnoreByDir 3 (-1) = none := by
  refine ⟨?_, by decide, by decide⟩
  rintro ⟨steps, b, h⟩
  have hcircle : TransGen (Up twisted.entries 3) 1 1 :=
    .head ⟨by decide, ⟨1, 2⟩, rfl, rfl⟩ (.single ⟨by decide, ⟨2, 1⟩, rfl, rfl⟩)
  cases (never_returns hcircle steps).symm.trans h

end PowerFS.OrSet.ConflictDirs
