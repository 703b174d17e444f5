import PowerFS.Filer.Serials

/-! # Capability tokens

`cap_manager.rs`: a client gives capabilities up by a token, of which only the serial at its
end is read. `release_cap` unlocks the FILE lock by that serial, whoever has it; `recall_ack`
answers the recalls of the client with that serial on all nine locks. -/
namespace PowerFS.Filer.CapTokens
open Lib.FirstMatch Lib.Decimal Locks Arbiter LockFacts Serials List LockArbiter
open Wal.Index HashOrder

/-- Client identifiers are strings; they are given by their characters. -/
abbrev ClientId := List Char

/-! ## Tokens -/

def parseSnFromToken (token : List Char) : Option Nat :=
  parseUnsigned 64 (lastSegment '-' token)

/-! ## Giving up -/

inductive CapError
  | invalidToken (token : List Char)
  | panicked

structure UpgradeTask where
  holder : ClientId
  token : List Char
  grantedCaps : CapSet
  epoch : Nat
  sn : Nat

variable (a : LockArbiter ClientId)

def recallAck [Env] (inode : Nat) (clientId : ClientId) (token : List Char) :
    Except CapError (Option UpgradeTask) × LockArbiter ClientId :=
  match parseSnFromToken token with
  | none => (.error (.invalidToken token), a)
  | some sn =>
    (.ok none, LockType.all.foldl (fun a t => (a.recallAck inode t clientId sn).2) a)

variable {a}

/-! ## The serial in a token -/

variable {inode sn : Nat}

variable {clientId token : List Char} {t : LockType}

section Records

variable {C : Type} [DecidableEq C]

/-- Every holder other than `c` that had capabilities has them still. -/
def Kept (c : C) (l l' : MdLock C) : Prop :=
  ∀ h ∈ l.holders, h.clientId ≠ c → h.grantedCaps ≠ CapSet.none →
    ∃ h' ∈ l'.holders, h'.clientId = h.clientId ∧ h.grantedCaps.within h'.grantedCaps = true

/-- The recalls that match are the last open ones of a gather for EXCL, which then drops every
client it has recalled. -/
def Drops (l : MdLock C) (p : GatherEntry C → Bool) : Prop :=
  l.gatherTarget = .toExcl ∧ 0 < l.gatherRemaining ∧ (∃ e ∈ l.gatherList, p e = true) ∧
    ∀ e ∈ l.gatherList, e.acked = true ∨ p e = true

variable {l l' : MdLock C}

variable {c d : CapSet} {hs : List (LockHolder C)} {q : LockHolder C → Prop}

theorem within_iff : c.within d = true ↔
    (c.r = true → d.r = true) ∧ (c.w = true → d.w = true) ∧ (c.x = true → d.x = true) := by
  simp [CapSet.within, CapSet.remove, CapSet.isEmpty, and_assoc, or_iff_not_imp_left]

theorem within_refl (c : CapSet) : c.within c = true := within_iff.mpr ⟨id, id, id⟩

/-- The records of `hs` are there, with no less, and no others. -/
def Same (hs : List (LockHolder C)) (l' : MdLock C) : Prop :=
  (∀ y ∈ hs, ∃ x ∈ l'.holders, x.clientId = y.clientId ∧
      y.grantedCaps.within x.grantedCaps = true) ∧
    ∀ x ∈ l'.holders, ∃ y ∈ hs, x.clientId = y.clientId

omit [DecidableEq C] in
theorem same_of_eq (h : l'.holders = hs) : Same hs l' := by
  rw [Same, h]
  exact ⟨fun y hy => ⟨y, hy, rfl, within_refl _⟩, fun x hx => ⟨x, hx, rfl⟩⟩

/-- The records after a section: those of `p` stay, and all that is there comes from `q`, unless
`D` says that the clients on the list of recalls go. -/
def Records (l l' : MdLock C) (p q : LockHolder C → Prop) (D : Prop) : Prop :=
  (∀ y ∈ l.holders, p y → (D → ∀ e ∈ l.gatherList, e.clientId ≠ y.clientId) →
    ∃ x ∈ l'.holders, x.clientId = y.clientId ∧ y.grantedCaps.within x.grantedCaps = true) ∧
  ∀ x ∈ l'.holders, (∃ y ∈ l.holders, q y ∧ x.clientId = y.clientId) ∧
    (D → ∀ e ∈ l.gatherList, e.clientId ≠ x.clientId)

variable {p : LockHolder C → Prop} {D : Prop}

omit [DecidableEq C] in
theorem Records.eval (h : Records l l' p q D) : Records l l'.eval p q D := by
  rw [Records, holders_eval]
  exact h

end Records

/-! ## Foreign tokens -/

local instance : Env := frozen

end PowerFS.Filer.CapTokens
