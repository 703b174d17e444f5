import Mathlib

/-! # The in-memory lease store

`powerfs-lease/src/store.rs`: `MemoryLeaseStore` and the calls of `LeaseStore` that
change it. A hash map is an association list; nothing here depends on the order in
which the source walks through one. Persistence is best effort and monitoring counters
are only reported, so neither is here.

Every `Instant::now()` of the source is one reading of a clock. The store counts the
readings, and a clock is the sequence of their results; likewise `uuid` is the sequence
of the random parts of tokens. -/
namespace PowerFS.Lease.Store

abbrev Map (α β : Type) [DecidableEq α] := AList fun _ : α => β

inductive LeaseMode where
  | shared
  | exclusive
  deriving DecidableEq

def LeaseMode.isExclusive : LeaseMode → Bool
  | .shared => false
  | .exclusive => true

/-- Keys of different groups never conflict; `conflicts` is asked within a group. -/
class LeaseKey (K : Type) where
  groupId : K → Nat
  conflicts : K → K → Bool

/-- The token written `lease-<epoch>-<uuid>`. -/
structure LeaseToken where
  epoch : Nat
  id : Nat
  deriving DecidableEq

structure LeaseEntry (K : Type) where
  key : K
  holder : String
  token : LeaseToken
  mode : LeaseMode
  acquiredAt : Nat
  expireAt : Nat
  epoch : Nat

def LeaseEntry.isExpired {K : Type} (e : LeaseEntry K) (now : Nat) : Bool :=
  decide (e.expireAt < now)

inductive LeaseError where
  | notFound
  | holderMismatch (expected actual : String)
  | conflict (message : String)
  deriving DecidableEq

structure MemoryLeaseStore (K : Type) where
  leases : Map LeaseToken (LeaseEntry K)
  /-- The tokens of a group, for conflict checks. -/
  groupIndex : Map Nat (List LeaseToken)
  holderIndex : Map String (List LeaseToken)
  epochCounter : Nat
  /-- Leases that expired within this window stay. -/
  cleanupGrace : Nat
  /-- How often the clock has been read. -/
  ticks : Nat

class Env where
  clock : Nat → Nat
  uuid : Nat → Nat

export Env (clock uuid)

section Calls

variable {K : Type} [LeaseKey K] [Env]

def MemoryLeaseStore.new (cleanupGrace : Nat) : MemoryLeaseStore K :=
  ⟨∅, ∅, ∅, 0, cleanupGrace, 0⟩

/-- The first token of the list whose lease stands in the way. -/
def findConflict (leases : Map LeaseToken (LeaseEntry K)) (key : K) (holder : String)
    (mode : LeaseMode) : List LeaseToken → Nat → Option (LeaseEntry K) × Nat
  | [], ticks => (none, ticks)
  | token :: tokens, ticks => match leases.lookup token with
    | none => findConflict leases key holder mode tokens ticks
    | some existing =>
      if existing.isExpired (clock ticks) then
        findConflict leases key holder mode tokens (ticks + 1)
      else if existing.holder = holder then
        findConflict leases key holder mode tokens (ticks + 1)
      else if (existing.mode.isExclusive || mode.isExclusive) &&
          LeaseKey.conflicts existing.key key then (some existing, ticks + 1)
      else findConflict leases key holder mode tokens (ticks + 1)

/-- Inline housekeeping of a group: expired tokens leave the index, not the store. -/
def retainUnexpired (leases : Map LeaseToken (LeaseEntry K)) :
    List LeaseToken → Nat → List LeaseToken × Nat
  | [], ticks => ([], ticks)
  | token :: tokens, ticks => match leases.lookup token with
    | none => retainUnexpired leases tokens ticks
    | some l =>
      let rest := retainUnexpired leases tokens (ticks + 1)
      if l.isExpired (clock ticks) then rest else (token :: rest.1, rest.2)

def tokensOf (index : Map Nat (List LeaseToken)) (groupId : Nat) : List LeaseToken :=
  (index.lookup groupId).getD []

/-- `entry(group).or_default().push(token)` -/
def pushToken (index : Map Nat (List LeaseToken)) (groupId : Nat) (token : LeaseToken) :
    Map Nat (List LeaseToken) :=
  index.insert groupId (tokensOf index groupId ++ [token])

/-- `entry(holder).or_default().insert(token)` on a set. -/
def addToHolder (index : Map String (List LeaseToken)) (holder : String) (token : LeaseToken) :
    Map String (List LeaseToken) :=
  let held := (index.lookup holder).getD []
  index.insert holder (if token ∈ held then held else held ++ [token])

/-- Enter a granted lease in the three maps. -/
def grant (s : MemoryLeaseStore K) (entry : LeaseEntry K) : MemoryLeaseStore K :=
  { s with
    leases := s.leases.insert entry.token entry
    groupIndex := pushToken s.groupIndex (LeaseKey.groupId entry.key) entry.token
    holderIndex := addToHolder s.holderIndex entry.holder entry.token }

def newEntry (key : K) (holder : String) (mode : LeaseMode) (now duration epoch : Nat) :
    LeaseEntry K :=
  ⟨key, holder, ⟨epoch, uuid epoch⟩, mode, now, now + duration, epoch⟩

def acquire (s : MemoryLeaseStore K) (key : K) (holder : String) (mode : LeaseMode)
    (duration : Nat) : MemoryLeaseStore K × Except LeaseError (LeaseEntry K) :=
  let now := clock s.ticks
  let groupId := LeaseKey.groupId key
  let tokens := tokensOf s.groupIndex groupId
  match findConflict s.leases key holder mode tokens (s.ticks + 1) with
  | (some existing, ticks) =>
    let other := existing.holder
    ({ s with ticks := ticks },
      .error (.conflict s!"key group {groupId} conflicts with existing lease held by {other}"))
  | (none, ticks) =>
    let kept := retainUnexpired s.leases tokens ticks
    let entry := newEntry key holder mode now duration s.epochCounter
    let pruned := match s.groupIndex.lookup groupId with
      | some _ => s.groupIndex.insert groupId kept.1
      | none => s.groupIndex
    (grant { s with
        groupIndex := pruned
        epochCounter := s.epochCounter + 1
        ticks := kept.2 } entry, .ok entry)

/-- The checks of a batch: each key against the store and against the keys before it.
The result is the pending entries, with the clock readings and epochs used up. -/
def checkBatch (s : MemoryLeaseStore K) (holder : String) (mode : LeaseMode)
    (now duration : Nat) : List K → List (LeaseEntry K) → Nat → Nat →
    Except LeaseError (List (LeaseEntry K)) × Nat × Nat
  | [], pending, ticks, epoch => (.ok pending, ticks, epoch)
  | key :: keys, pending, ticks, epoch =>
    let groupId := LeaseKey.groupId key
    match findConflict s.leases key holder mode (tokensOf s.groupIndex groupId) ticks with
    | (some existing, ticks) =>
      let other := existing.holder
      (.error (.conflict
        s!"batch: key group {groupId} conflicts with existing lease held by {other}"),
        ticks, epoch)
    | (none, ticks) =>
      if mode.isExclusive && pending.any (fun p =>
          decide (LeaseKey.groupId p.key = groupId) && LeaseKey.conflicts p.key key) then
        (.error (.conflict s!"batch: internal conflict between keys in group {groupId}"),
          ticks, epoch)
      else checkBatch s holder mode now duration keys
        (pending ++ [newEntry key holder mode now duration epoch]) ticks (epoch + 1)

def acquireBatch (s : MemoryLeaseStore K) (keys : List K) (holder : String) (mode : LeaseMode)
    (duration : Nat) : MemoryLeaseStore K × Except LeaseError (List (LeaseEntry K)) :=
  if keys.isEmpty then (s, .ok [])
  else
    let now := clock s.ticks
    match checkBatch s holder mode now duration keys [] (s.ticks + 1) s.epochCounter with
    | (.error e, ticks, epoch) => ({ s with ticks := ticks, epochCounter := epoch }, .error e)
    | (.ok pending, ticks, epoch) =>
      (pending.foldl grant { s with ticks := ticks, epochCounter := epoch }, .ok pending)

/-- A lease is extended by its holder. The source does not ask whether it has expired. -/
def renew (s : MemoryLeaseStore K) (token : LeaseToken) (holder : String) (duration : Nat) :
    MemoryLeaseStore K × Except LeaseError Unit :=
  match s.leases.lookup token with
  | none => (s, .error .notFound)
  | some entry =>
    if entry.holder ≠ holder then (s, .error (.holderMismatch entry.holder holder))
    else
      ({ s with
        leases := s.leases.insert token
          { entry with expireAt := clock s.ticks + duration, epoch := s.epochCounter }
        epochCounter := s.epochCounter + 1
        ticks := s.ticks + 1 }, .ok ())

def dropToken (index : Map Nat (List LeaseToken)) (groupId : Nat) (token : LeaseToken) :
    Map Nat (List LeaseToken) :=
  match index.lookup groupId with
  | none => index
  | some tokens => index.insert groupId (tokens.filter (· ≠ token))

def dropFromHolder (index : Map String (List LeaseToken)) (holder : String)
    (token : LeaseToken) : Map String (List LeaseToken) :=
  match index.lookup holder with
  | none => index
  | some tokens =>
    let left := tokens.filter (· ≠ token)
    if left.isEmpty then index.erase holder else index.insert holder left

def release (s : MemoryLeaseStore K) (token : LeaseToken) (holder : String) :
    MemoryLeaseStore K × Except LeaseError Unit :=
  match s.leases.lookup token with
  | none => (s, .error .notFound)
  | some entry =>
    if entry.holder ≠ holder then (s, .error (.holderMismatch entry.holder holder))
    else
      ({ s with
        leases := s.leases.erase token
        groupIndex := dropToken s.groupIndex (LeaseKey.groupId entry.key) token
        holderIndex := dropFromHolder s.holderIndex holder token }, .ok ())

/-- A group whose last token goes leaves the index. -/
def dropGroupToken (index : Map Nat (List LeaseToken)) (groupId : Nat) (token : LeaseToken) :
    Map Nat (List LeaseToken) :=
  match index.lookup groupId with
  | none => index
  | some tokens =>
    let left := tokens.filter (· ≠ token)
    if left.isEmpty then index.erase groupId else index.insert groupId left

/-- Take a lease out of the store and out of its group. -/
def removeLease (s : MemoryLeaseStore K) (token : LeaseToken) : MemoryLeaseStore K :=
  match s.leases.lookup token with
  | none => s
  | some entry =>
    { s with
      leases := s.leases.erase token
      groupIndex := dropGroupToken s.groupIndex (LeaseKey.groupId entry.key) token }

def disconnectHolder (s : MemoryLeaseStore K) (holder : String) : MemoryLeaseStore K × Nat :=
  let tokens := (s.holderIndex.lookup holder).getD []
  let s' := tokens.foldl removeLease s
  -- the tokens stay in the set, so the entry of the holder goes only if it was empty
  let holders := match s'.holderIndex.lookup holder with
    | some left => if left.isEmpty then s'.holderIndex.erase holder else s'.holderIndex
    | none => s'.holderIndex
  ({ s' with holderIndex := holders }, (tokens.filter (· ∈ s.leases)).length)

/-- Cleanup also takes the token out of the set of its holder. -/
def expireLease (s : MemoryLeaseStore K) (token : LeaseToken) : MemoryLeaseStore K :=
  match s.leases.lookup token with
  | none => s
  | some entry =>
    { removeLease s token with
      holderIndex := dropFromHolder s.holderIndex entry.holder token }

def cleanupExpired (s : MemoryLeaseStore K) : MemoryLeaseStore K × Nat :=
  let now := clock s.ticks
  let expired := (s.leases.entries.filter
    fun e => decide (e.2.expireAt + s.cleanupGrace < now)).map Sigma.fst
  (expired.foldl expireLease { s with ticks := s.ticks + 1 }, expired.length)

/-! ## Runs -/

variable (K) in
/-- A call on the store. -/
inductive Request where
  | acquire (key : K) (holder : String) (mode : LeaseMode) (duration : Nat)
  | acquireBatch (keys : List K) (holder : String) (mode : LeaseMode) (duration : Nat)
  | renew (token : LeaseToken) (holder : String) (duration : Nat)
  | release (token : LeaseToken) (holder : String)
  | disconnectHolder (holder : String)
  | cleanupExpired

def handle (s : MemoryLeaseStore K) : Request K → MemoryLeaseStore K
  | .acquire key holder mode duration => (acquire s key holder mode duration).1
  | .acquireBatch keys holder mode duration =>
    (acquireBatch s keys holder mode duration).1
  | .renew token holder duration => (renew s token holder duration).1
  | .release token holder => (release s token holder).1
  | .disconnectHolder holder => (disconnectHolder s holder).1
  | .cleanupExpired => (cleanupExpired s).1

def serve (s : MemoryLeaseStore K) (requests : List (Request K)) : MemoryLeaseStore K :=
  requests.foldl handle s

end Calls

end PowerFS.Lease.Store
