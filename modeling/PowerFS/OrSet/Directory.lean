import Mathlib.Data.Finset.Basic

/-! # A directory as an observed-remove set

Every entry has an identity of its own, a removal leaves a tombstone, and the replicas of the
directory exchange what they did as deltas. -/
namespace PowerFS.OrSet.Directory

/-! ## Entries, clocks, deltas -/

structure EntryId where
  name : String
  clientId : UInt64
  seq : Nat
  deriving DecidableEq

/-- The attributes `update_attr` can change. -/
inductive Attr where
  | mode | uid | gid | size | mtime | nlink
  deriving DecidableEq

/-- `others` are the fields no operation changes. -/
structure DirEntry (ρ : Type) where
  id : EntryId
  inode : UInt64
  attrs : Attr → Nat
  others : ρ

abbrev VectorClock := UInt64 → Nat

def VectorClock.increment (c : VectorClock) (client : UInt64) : VectorClock :=
  Function.update c client (c client + 1)

def VectorClock.merge (c other : VectorClock) : VectorClock := fun x => max (c x) (other x)

inductive DeltaOp (ρ : Type) where
  | add (entry : DirEntry ρ) (vclock : VectorClock)
  | remove (id : EntryId) (vclock : VectorClock)
  | rename (oldId : EntryId) (newEntry : DirEntry ρ) (vclock : VectorClock)
  | setAttr (inode : UInt64) (attrs : Attr → Option Nat) (vclock : VectorClock)

/-- The conflict records, which no operation reads for what it does, are left out. -/
structure DirORSet (ρ : Type) where
  entries : EntryId → Option (DirEntry ρ)
  tombstones : Finset EntryId
  vclock : VectorClock

variable {ρ : Type}

def DirORSet.new : DirORSet ρ := ⟨fun _ => none, ∅, fun _ => 0⟩

/-! ## Operations -/

def DirEntry.set (e : DirEntry ρ) (attrs : Attr → Option Nat) : DirEntry ρ :=
  { e with attrs := fun a => (attrs a).getD (e.attrs a) }

/-- The attributes go to the entry that `get_by_inode_mut` found. -/
def DirORSet.setFound (s : DirORSet ρ) (attrs : Attr → Option Nat) :
    Option EntryId → DirORSet ρ
  | none => s
  | some id =>
    { s with entries := Function.update s.entries id ((s.entries id).map (·.set attrs)) }

/-- What `get_by_inode_mut` may find: the hash map gives no order, so any entry of the
inode, and nothing only if there is none. -/
def Finds (s : DirORSet ρ) (inode : UInt64) : Option EntryId → Prop
  | some id => ∃ e, s.entries id = some e ∧ e.inode = inode
  | none => ∀ id e, s.entries id = some e → e.inode ≠ inode

def applyDelta (found : Option EntryId) (s : DirORSet ρ) : DeltaOp ρ → DirORSet ρ
  | .add entry vclock =>
    if entry.id ∈ s.tombstones then s
    else
      { s with
        entries := Function.update s.entries entry.id (some entry)
        vclock := s.vclock.merge vclock }
  | .remove id vclock =>
    ⟨Function.update s.entries id none, insert id s.tombstones, s.vclock.merge vclock⟩
  | .rename oldId newEntry vclock =>
    let entries := Function.update s.entries oldId none
    let tombstones := insert oldId s.tombstones
    ⟨if newEntry.id ∈ tombstones then entries
      else Function.update entries newEntry.id (some newEntry),
      tombstones, s.vclock.merge vclock⟩
  | .setAttr _ attrs vclock =>
    { s.setFound attrs found with vclock := s.vclock.merge vclock }

/-- The local operations. `found` is what the search by inode gives, `now` the clock. -/
inductive Op (ρ : Type) where
  | add (entry : DirEntry ρ)
  | remove (id : EntryId)
  | renameEntry (oldId : EntryId) (newName : String) (clientId : UInt64) (now : Nat)
  | updateAttr (inode : UInt64) (attrs : Attr → Option Nat) (clientId : UInt64)
    (found : Option EntryId)

def Op.found : Op ρ → Option EntryId
  | .updateAttr _ _ _ found => found
  | _ => none

/-- The identity `rename_entry` gives to the entry. -/
def newId (s : DirORSet ρ) (newName : String) (clientId : UInt64) : EntryId :=
  ⟨newName, clientId, s.vclock.increment clientId clientId⟩

/-- The set after the operation, and the delta for the others. -/
def perform (s : DirORSet ρ) : Op ρ → Option (DirORSet ρ × DeltaOp ρ)
  | .add entry =>
    if entry.id ∈ s.tombstones then none
    else
      let vclock := s.vclock.increment entry.id.clientId
      some ({ s with entries := Function.update s.entries entry.id (some entry), vclock },
        .add entry vclock)
  | .remove id =>
    let vclock := s.vclock.increment id.clientId
    some (⟨Function.update s.entries id none, insert id s.tombstones, vclock⟩, .remove id vclock)
  | .renameEntry oldId newName clientId now =>
    (s.entries oldId).map fun old =>
      let vclock := s.vclock.increment clientId
      let new : DirEntry ρ :=
        { old with
          id := newId s newName clientId
          attrs := Function.update old.attrs .mtime now }
      (⟨Function.update (Function.update s.entries oldId none) new.id (some new),
        insert oldId s.tombstones, vclock⟩, .rename oldId new vclock)
  | .updateAttr inode attrs clientId found =>
    let vclock := s.vclock.increment clientId
    some ({ s.setFound attrs found with vclock }, .setAttr inode attrs vclock)

/-! ## What a delta says -/

def DeltaOp.vclock : DeltaOp ρ → VectorClock
  | .add _ vclock | .remove _ vclock | .rename _ _ vclock | .setAttr _ _ vclock => vclock

def DeltaOp.introduced : DeltaOp ρ → Option (DirEntry ρ)
  | .add entry _ => some entry
  | .rename _ newEntry _ => some newEntry
  | _ => none

def DeltaOp.removed : DeltaOp ρ → Option EntryId
  | .remove id _ => some id
  | .rename oldId _ _ => some oldId
  | _ => none

def DeltaOp.sets (inode : UInt64) (a : Attr) : DeltaOp ρ → Option Nat
  | .setAttr i attrs _ => if i = inode then attrs a else none
  | _ => none

/-! ## The replicas together -/

/-- A delta, with the deltas its origin had applied before. -/
structure Sent (ρ : Type) where
  delta : DeltaOp ρ
  deps : Finset Nat

structure Replica (ρ : Type) where
  set : DirORSet ρ
  /-- The deltas it has applied, by their place in the log. -/
  seen : Finset Nat

/-- The log has every delta in the order of their creation. -/
structure Net (ρ : Type) where
  replicas : Nat → Replica ρ
  log : List (Sent ρ)

inductive Event (ρ : Type) where
  | operate (r : Nat) (op : Op ρ)
  | deliver (r n : Nat) (found : Option EntryId)

def Net.put (s : Net ρ) (r : Nat) (q : Replica ρ) : Net ρ :=
  { s with replicas := Function.update s.replicas r q }

def step (s : Net ρ) : Event ρ → Net ρ
  | .operate r op =>
    match perform (s.replicas r).set op with
    | none => s
    | some (set, delta) =>
      let log := s.log ++ [⟨delta, (s.replicas r).seen⟩]
      { s with log }.put r ⟨set, insert s.log.length (s.replicas r).seen⟩
  | .deliver r n found =>
    match s.log[n]? with
    | none => s
    | some x =>
      s.put r ⟨applyDelta found (s.replicas r).set x.delta, insert n (s.replicas r).seen⟩

def start : Net ρ := ⟨fun _ => ⟨.new, ∅⟩, []⟩

end PowerFS.OrSet.Directory
