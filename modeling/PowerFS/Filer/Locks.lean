import PowerFS.Lib.FirstMatch

/-! # One metadata lock

`lock_arbiter.rs`: the lock object of one inode and one lock type, with its holders, the
recalls it waits for and the requests that wait for it. Every function here is the body of
one critical section of the arbiter, restricted to the lock it works on: it takes the lock
and the arbiter's counters and says what it answers and what it leaves.

Client identifiers are only compared, so they are of any type with decidable equality.
`Instant::now()` is an oracle: the `n`-th reading of the clock is `instant n`. -/
namespace PowerFS.Filer.Locks
open Lib.FirstMatch

/-! ## Capabilities and lock types -/

/-- The bits of `CapSet`: read, write, and exclusive metadata access. -/
structure CapSet where
  r : Bool
  w : Bool
  x : Bool
  deriving DecidableEq

namespace CapSet

def none : CapSet := ⟨false, false, false⟩
def capR : CapSet := ⟨true, false, false⟩
def capW : CapSet := ⟨false, true, false⟩
def capX : CapSet := ⟨false, false, true⟩

def isEmpty (c : CapSet) : Bool := !c.r && !c.w && !c.x

def union (c d : CapSet) : CapSet := ⟨c.r || d.r, c.w || d.w, c.x || d.x⟩

/-- `CapSet(a.0 & b.0)`. -/
def inter (c d : CapSet) : CapSet := ⟨c.r && d.r, c.w && d.w, c.x && d.x⟩

def remove (c d : CapSet) : CapSet := ⟨c.r && !d.r, c.w && !d.w, c.x && !d.x⟩

/-- `c` gives no more than `d`. -/
def within (c d : CapSet) : Bool := (c.remove d).isEmpty

end CapSet

/-- The capabilities a writer must have to itself. -/
def conflictCaps : CapSet := CapSet.capW.union CapSet.capX

/-- The capability set has some part of `conflictCaps`. -/
def CapSet.conflicts (c : CapSet) : Bool := !(c.inter conflictCaps).isEmpty

inductive LockClass
  | localLock | simpleLock | scatterLock | fileLock
  deriving DecidableEq

inductive LockType
  | auth | link | xattr | dn | snap | file | dft | nest | posix
  deriving DecidableEq

namespace LockType

/-- The types in the order of their indices. -/
def all : List LockType := [auth, link, xattr, dn, snap, file, dft, nest, posix]

def lockClass : LockType → LockClass
  | auth | link | xattr | dn | posix => .simpleLock
  | snap => .localLock
  | file => .fileLock
  | dft | nest => .scatterLock

/-- The full set of capabilities that a lone holder of the lock gets. -/
def capBits : LockType → CapSet
  | auth | xattr => CapSet.capR.union CapSet.capX
  | link => CapSet.capR
  | file => (CapSet.capR.union CapSet.capW).union CapSet.capX
  | dn | snap | dft | nest | posix => CapSet.none

end LockType

inductive LockState
  | available | shared | loner | excl | gather | revoking | lock | dscatter | inactive | sync
  deriving DecidableEq

/-- The state a finished gather goes to. -/
inductive GatherTarget
  | toExcl | toShared | toLoner | toDscatter | toSync
  deriving DecidableEq

/-! ## The lock object -/

variable (C : Type)

structure LockHolder where
  clientId : C
  sn : Nat
  epoch : Nat
  grantedCaps : CapSet
  recallInFlight : Bool
  retainCaps : CapSet
  recallCaps : CapSet
  expireAt : Nat
  deriving DecidableEq

/-- A recall that was sent to a holder. -/
structure GatherEntry where
  clientId : C
  sn : Nat
  sentAt : Nat
  acked : Bool
  deriving DecidableEq

inductive LockOp
  | rdlock | wrlock | xlock | unlock
  deriving DecidableEq

def LockOp.priority : LockOp → Nat
  | xlock => 3
  | wrlock => 2
  | rdlock => 1
  | unlock => 0

structure LockWaiter where
  clientId : C
  op : LockOp
  deriving DecidableEq

structure RecallTask where
  clientId : C
  lockType : LockType
  sn : Nat
  capsToRecall : CapSet
  retainedCaps : CapSet
  newEpoch : Nat
  deriving DecidableEq

structure LockGrantResult where
  clientId : C
  lockType : LockType
  sn : Nat
  epoch : Nat
  grantedCaps : CapSet
  recallTasks : List (RecallTask C)
  durationMs : Nat
  deriving DecidableEq

structure MdLock where
  lockType : LockType
  state : LockState
  holders : List (LockHolder C)
  gatherList : List (GatherEntry C)
  gatherRemaining : Nat
  gatherTarget : GatherTarget
  waiting : List (LockWaiter C)
  evalIssued : CapSet
  deriving DecidableEq

def MdLock.new (lockType : LockType) : MdLock C :=
  ⟨lockType, .available, [], [], 0, .toShared, [], CapSet.none⟩

/-- What the arbiter keeps besides the locks: the next serial, the next epoch, and how often
the clock has been read. -/
structure Counters where
  sn : Nat
  epoch : Nat
  reads : Nat
  deriving DecidableEq

def Counters.read (k : Counters) : Counters := { k with reads := k.reads + 1 }
def Counters.nextSn (k : Counters) : Counters := { k with sn := k.sn + 1 }
def Counters.nextEpoch (k : Counters) : Counters := { k with epoch := k.epoch + 1 }

class Env where
  recallTimeout : Nat
  leaseDuration : Nat
  instant : Nat → Nat

export Env (recallTimeout leaseDuration instant)

/-- The default timeouts and a clock that stands still. -/
abbrev frozen : Env := ⟨2000, 30000, fun _ => 0⟩

/-- What a critical section answers and leaves, and the recalls `(client, serial)` that it
gave up waiting for ("force-reclaim"). -/
structure Outcome (α : Type) where
  reply : α
  lock : MdLock C
  counters : Counters
  reclaimed : List (C × Nat) := []

def defaultLeaseDurationMs : Nat := 30000

variable {C}
variable [DecidableEq C]

namespace MdLock

def findHolder (l : MdLock C) (c : C) : Option (LockHolder C) :=
  l.holders.find? fun h => h.clientId = c

/-- Drops the holders whose lease has run out. -/
def garbageCollect (l : MdLock C) (now : Nat) : Bool × MdLock C :=
  let kept := l.holders.filter fun h => now < h.expireAt
  let cleaned := kept.length ≠ l.holders.length
  (cleaned, { l with
    holders := kept
    state := if cleaned && kept.isEmpty && l.state ≠ .gather then .available else l.state })

/-- `eval`: what the state of the lock lets its holders have. Only some states set it. -/
def eval (l : MdLock C) : MdLock C :=
  match l.lockType.lockClass with
  | .localLock => l
  | .scatterLock => { l with evalIssued := CapSet.none }
  | .simpleLock =>
    match l.state with
    | .loner => { l with evalIssued := l.lockType.capBits }
    | .shared => { l with evalIssued := CapSet.capR }
    | .excl => if l.holders.length = 1 then { l with evalIssued := l.lockType.capBits } else l
    | _ => l
  | .fileLock =>
    match l.state with
    | .loner => { l with evalIssued := LockType.file.capBits }
    | .shared | .sync => { l with evalIssued := CapSet.capR }
    | .excl => if l.holders.length = 1 then { l with evalIssued := LockType.file.capBits } else l
    | _ => l

/-- Sets the state and evaluates it. -/
def goTo (l : MdLock C) (state : LockState) : MdLock C := ({ l with state } : MdLock C).eval

/-- The clean-up every request starts with. -/
def collect (l : MdLock C) (now : Nat) : MdLock C :=
  let gc := l.garbageCollect now
  if gc.1 then gc.2.eval else gc.2

/-- The clients whose recall is answered. -/
def ackedClients (l : MdLock C) : List C := (l.gatherList.filter (·.acked)).map (·.clientId)

/-- The end of a gather: the recalls are forgotten and the lock goes to the target state. For
EXCL the holders that were recalled are dropped, by client. -/
def gatherComplete (l : MdLock C) : MdLock C :=
  let acked := l.ackedClients
  let l : MdLock C := { l with
    gatherList := []
    gatherRemaining := 0
    holders := l.holders.map fun h => { h with recallInFlight := false } }
  let l : MdLock C := match l.gatherTarget with
    | .toExcl => { l with holders := l.holders.filter fun h => h.clientId ∉ acked, state := .excl }
    | .toShared => { l with state := .shared }
    | .toLoner => { l with state := if l.holders.length = 1 then .loner else .shared }
    | .toDscatter => { l with state := .dscatter }
    | .toSync => { l with state := .sync }
  l.eval

end MdLock

/-- The recall has not been answered within the timeout. -/
def GatherEntry.lapsed (g : GatherEntry C) (timeout now : Nat) : Bool :=
  !g.acked && decide (timeout < now - g.sentAt)

namespace MdLock

/-- Marks the recalls that ran out of time as answered. -/
def markLapsed (l : MdLock C) (timeout now : Nat) : MdLock C :=
  { l with gatherList := l.gatherList.map fun g =>
      if g.lapsed timeout now then { g with acked := true } else g }

/-- The recalls `(client, serial)` that ran out of time. -/
def lapses (l : MdLock C) (timeout now : Nat) : List (C × Nat) :=
  (l.gatherList.filter (·.lapsed timeout now)).map fun g => (g.clientId, g.sn)

/-- Marks the recalls that ran out of time; when none is left open, the gather ends. -/
def gatherTimeout [Env] (k : Counters) (l : MdLock C) : Outcome C Unit :=
  if l.state ≠ .gather ∨ l.gatherRemaining = 0 then ⟨(), l, k, []⟩
  else
    let now := instant k.reads
    let m := l.markLapsed recallTimeout now
    ⟨(), if m.gatherList.all (·.acked) then m.gatherComplete else m, k.read,
      l.lapses recallTimeout now⟩

/-- Gives the first holder that has less than the full set the full set, under a new
serial. -/
def promoteToLoner (l : MdLock C) (newSn : Nat) : MdLock C :=
  if l.holders.isEmpty then l
  else
    let full := l.lockType.capBits
    ({ l with
      holders := modifyFirst (fun h => h.grantedCaps ≠ full)
        (fun h => { h with grantedCaps := full, sn := newSn }) l.holders
      state := .loner } : MdLock C).eval

/-! ## Recalls -/

/-- Recalls from each holder what `recalled` says (what to take back, what to leave), and
starts to wait for the answers. -/
def recallHolders (l : MdLock C) (now newEpoch : Nat)
    (recalled : LockHolder C → Option (CapSet × CapSet)) : MdLock C :=
  { l with
    holders := l.holders.map fun h => match recalled h with
      | none => h
      | some (taken, kept) => { h with
          recallInFlight := true, recallCaps := taken, retainCaps := kept, epoch := newEpoch }
    gatherList := l.gatherList ++ (l.holders.filter fun h => (recalled h).isSome).map fun h =>
      ⟨h.clientId, h.sn, now, false⟩
    gatherRemaining := l.gatherRemaining + (l.holders.filter fun h => (recalled h).isSome).length }

def recallTasks (l : MdLock C) (newEpoch : Nat)
    (recalled : LockHolder C → Option (CapSet × CapSet)) : List (RecallTask C) :=
  l.holders.filterMap fun h => (recalled h).map fun caps =>
    ⟨h.clientId, l.lockType, h.sn, caps.1, caps.2, newEpoch⟩

/-- Takes back the part of `conflict` that a holder other than `c` has. -/
def recallConflicting (conflict : CapSet) (c : C) (h : LockHolder C) : Option (CapSet × CapSet) :=
  let need := h.grantedCaps.inter conflict
  if h.clientId = c ∨ need.isEmpty then none else some (need, h.grantedCaps.remove need)

/-- Takes back everything from every holder but the excluded one. -/
def recallAll (exclude : Option C) (h : LockHolder C) : Option (CapSet × CapSet) :=
  if exclude = some h.clientId then none else some (h.grantedCaps, CapSet.none)

/-- Starts a gather unless one is running. -/
def openGather (l : MdLock C) (k : Counters) (now : Nat) (target : GatherTarget)
    (recalled : LockHolder C → Option (CapSet × CapSet)) : Outcome C (List (RecallTask C)) :=
  if l.state = .gather then ⟨[], l, k, []⟩
  else
    ⟨l.recallTasks k.epoch recalled,
      ({ l with state := .gather, gatherTarget := target } : MdLock C).recallHolders now k.epoch
        recalled,
      k.nextEpoch, []⟩

/-- Starts a gather and looks at the timeouts, which may end it at once. -/
def gatherStage [Env] (l : MdLock C) (k : Counters) (now : Nat)
    (target : GatherTarget) (recalled : LockHolder C → Option (CapSet × CapSet)) :
    Outcome C (List (RecallTask C)) :=
  let g := l.openGather k now target recalled
  let t := g.lock.gatherTimeout g.counters
  ⟨g.reply, t.lock, t.counters, t.reclaimed⟩

/-! ## Requests -/

/-- Another holder has write or exclusive capabilities. -/
def needsGather (l : MdLock C) (c : C) : Bool :=
  l.holders.any fun h => h.clientId ≠ c && h.grantedCaps.conflicts

def refusal (l : MdLock C) (c : C) (tasks : List (RecallTask C)) : LockGrantResult C :=
  ⟨c, l.lockType, 0, 0, CapSet.none, tasks, 0⟩

/-- The answer to a holder that asks again. -/
def renewal (l : MdLock C) (c : C) (h : LockHolder C) : LockGrantResult C :=
  ⟨c, l.lockType, h.sn, h.epoch, h.grantedCaps, [], defaultLeaseDurationMs⟩

def newHolder (c : C) (sn : Nat) (caps : CapSet) (expireAt : Nat) : LockHolder C :=
  ⟨c, sn, 0, caps, false, CapSet.none, CapSet.none, expireAt⟩

/-- The last part of `rdlock`: the reader becomes a holder. -/
def admitReader [Env] (l : MdLock C) (now sn : Nat) (c : C) : MdLock C :=
  let caps := match l.state with
    | .available | .shared | .loner => CapSet.capR
    | _ => CapSet.none
  ({ l with holders := l.holders ++ [newHolder c sn caps (now + leaseDuration)] } :
    MdLock C).goTo (if l.state = .available ∨ l.state = .loner then .shared else l.state)

/-- The states in which a reader has to wait. -/
def closedToReaders : LockState → Bool
  | .excl | .gather | .revoking | .lock => true
  | _ => false

def rdlock [Env] (k : Counters) (l : MdLock C) (c : C) : Outcome C (LockGrantResult C) :=
  let now := instant k.reads
  let l : MdLock C := l.collect now
  if closedToReaders l.state then ⟨l.refusal c [], l, k.read, []⟩
  else
    -- the serial is allocated before the holders are searched
    let sn := k.sn
    match l.findHolder c with
    | some h => ⟨l.renewal c h, l, k.read.nextSn, []⟩
    | none =>
      if l.needsGather c then
        let g := l.gatherStage k.read.nextSn now .toShared (recallConflicting conflictCaps c)
        if 0 < g.lock.gatherRemaining then
          ⟨l.refusal c g.reply, g.lock, g.counters, g.reclaimed⟩
        else
          let l : MdLock C := g.lock.gatherComplete.admitReader now sn c
          ⟨⟨c, l.lockType, sn, 0, l.evalIssued, [], defaultLeaseDurationMs⟩, l, g.counters,
            g.reclaimed⟩
      else
        let l : MdLock C := l.admitReader now sn c
        ⟨⟨c, l.lockType, sn, 0, l.evalIssued, [], defaultLeaseDurationMs⟩, l, k.read.nextSn, []⟩

/-- The last part of `wrlock`: the writer becomes the LONER, in its old record if it has
one. -/
def admitWriter [Env] (l : MdLock C) (now sn : Nat) (c : C) : MdLock C :=
  let caps := l.lockType.capBits
  ({ l with
    state := .loner
    holders := match l.findHolder c with
      | some _ => modifyFirst (fun h => h.clientId = c) (fun h => { h with
            sn := sn, grantedCaps := caps, expireAt := now + leaseDuration }) l.holders
      | none => l.holders ++ [newHolder c sn caps (now + leaseDuration)] } : MdLock C).eval

/-- The holder that `wrlock` answers at once: it is the first one of a LONER lock. -/
def lonerOf (l : MdLock C) (c : C) : Option (LockHolder C) :=
  if l.state = .loner then l.holders.head?.filter fun h => h.clientId = c else none

def wrlockTarget (l : MdLock C) : GatherTarget :=
  if l.holders.length = 0 then .toLoner else .toShared

def wrlock [Env] (k : Counters) (l : MdLock C) (c : C) : Outcome C (LockGrantResult C) :=
  let now := instant k.reads
  let l : MdLock C := l.collect now
  match l.lonerOf c with
  | some h => ⟨l.renewal c h, l, k.read, []⟩
  | none =>
    if l.needsGather c then
      let g := l.gatherStage k.read now l.wrlockTarget (recallConflicting conflictCaps c)
      if 0 < g.lock.gatherRemaining then ⟨l.refusal c g.reply, g.lock, g.counters, g.reclaimed⟩
      else
        let l : MdLock C := g.lock.gatherComplete.admitWriter now g.counters.sn c
        ⟨⟨c, l.lockType, g.counters.sn, 0, l.lockType.capBits, g.reply,
          defaultLeaseDurationMs⟩, l, g.counters.nextSn, g.reclaimed⟩
    else
      let l : MdLock C := l.admitWriter now k.sn c
      ⟨⟨c, l.lockType, k.sn, 0, l.lockType.capBits, [], defaultLeaseDurationMs⟩, l,
        k.read.nextSn, []⟩

/-- The last part of `xlock`: the client is added, whatever holders there are. -/
def admitExclusive [Env] (l : MdLock C) (now sn : Nat) (c : C) : MdLock C :=
  ({ l with
    holders := l.holders ++ [newHolder c sn l.lockType.capBits (now + leaseDuration)]
    state := .excl } : MdLock C).eval

def xlock [Env] (k : Counters) (l : MdLock C) (c : C) : Outcome C (LockGrantResult C) :=
  let now := instant k.reads
  let l : MdLock C := l.collect now
  match l.holders with
  | [] =>
    let l : MdLock C := l.admitExclusive now k.sn c
    ⟨⟨c, l.lockType, k.sn, 0, l.evalIssued, [], defaultLeaseDurationMs⟩, l, k.read.nextSn, []⟩
  | h :: rest =>
    if rest.isEmpty ∧ h.clientId = c then
      -- the only holder is upgraded: the state changes, its record does not
      let l : MdLock C := l.goTo .excl
      ⟨⟨c, l.lockType, h.sn, h.epoch, l.evalIssued, [], defaultLeaseDurationMs⟩, l, k.read, []⟩
    else
      let g := l.gatherStage k.read now .toExcl (recallAll (some c))
      if 0 < g.lock.gatherRemaining then ⟨l.refusal c g.reply, g.lock, g.counters, g.reclaimed⟩
      else
        let l : MdLock C := g.lock.gatherComplete.admitExclusive now g.counters.sn c
        ⟨⟨c, l.lockType, g.counters.sn, 0, l.evalIssued, g.reply, defaultLeaseDurationMs⟩, l,
          g.counters.nextSn, g.reclaimed⟩

end MdLock

/-- The request was granted: a serial or some capability was given. -/
def LockGrantResult.granted (r : LockGrantResult C) : Bool :=
  r.sn ≠ 0 || !r.grantedCaps.isEmpty

/-! ## Giving up -/

/-- What the removal of holders leads to. -/
structure Departure (C : Type) where
  /-- Some holder was removed. -/
  found : Bool
  /-- The surviving holder that became the LONER. -/
  promoted : Option (C × Nat × CapSet)
  /-- The waiting requests have to be tried again. -/
  wake : Bool
  deriving DecidableEq

namespace MdLock

/-- A LONER or SHARED lock after holders left. -/
def settleShared (promotes : Bool) (k : Counters) (l : MdLock C) : Outcome C (Departure C) :=
  if l.holders.isEmpty then ⟨⟨true, none, true⟩, { l with state := .available }, k, []⟩
  else if l.holders.length = 1 ∧ promotes then
    let l : MdLock C := l.promoteToLoner k.sn
    ⟨⟨true, l.holders.head?.map fun h => (h.clientId, h.sn, h.grantedCaps), true⟩, l, k.nextSn, []⟩
  else ⟨⟨true, none, false⟩, l, k, []⟩

/-- The SimpleLock and FileLock classes know the LONER state. -/
def promotable (l : MdLock C) : Bool :=
  l.lockType.lockClass = .simpleLock || l.lockType.lockClass = .fileLock

/-- A holder that leaves during a gather answers its recall by that. -/
def leaveGather (l : MdLock C) (sn : Nat) : Bool × MdLock C :=
  let matched := l.gatherList.any fun g => g.sn = sn
  let list := l.gatherList.map fun g => if g.sn = sn then { g with acked := true } else g
  let l : MdLock C := { l with gatherList := list }
  if matched then
    if list.all (·.acked) ∧ 0 < l.gatherRemaining then (true, l.gatherComplete)
    else if l.holders.isEmpty then
      (true, { l with gatherList := [], gatherRemaining := 0, state := .available })
    else (false, l)
  else (false, l)

def unlock (k : Counters) (l : MdLock C) (sn : Nat) : Outcome C (Departure C) :=
  let rest := l.holders.filter fun h => h.sn ≠ sn
  if rest.length = l.holders.length then ⟨⟨false, none, false⟩, l, k, []⟩
  else
    let l : MdLock C := { l with holders := rest }
    match l.state with
    | .excl | .lock => ⟨⟨true, none, true⟩, l.goTo .available, k, []⟩
    | .loner | .shared =>
      let s := l.settleShared l.promotable k
      ⟨s.reply, s.lock.eval, s.counters, []⟩
    | .dscatter =>
      ⟨⟨true, none, false⟩, l.goTo (if rest.isEmpty then .inactive else .dscatter), k, []⟩
    | .gather =>
      let g := l.leaveGather sn
      ⟨⟨true, none, g.1⟩, g.2.eval, k, []⟩
    | _ => ⟨⟨true, none, false⟩, l.eval, k, []⟩

/-- `posix_unlock`: removes by client instead of by serial, and has no case for a gather. -/
def posixUnlock (k : Counters) (l : MdLock C) (c : C) : Outcome C (Departure C) :=
  let rest := l.holders.filter fun h => h.clientId ≠ c
  if rest.length = l.holders.length then ⟨⟨false, none, false⟩, l, k, []⟩
  else
    let l : MdLock C := { l with holders := rest }
    match l.state with
    | .excl | .lock => ⟨⟨true, none, true⟩, l.goTo .available, k, []⟩
    | .loner | .shared =>
      let s := l.settleShared true k
      ⟨s.reply, s.lock.eval, s.counters, []⟩
    | _ => ⟨⟨true, none, false⟩, l.eval, k, []⟩

/-- Takes the recalls of a client off the list, and counts those still open if there were
any. -/
def forgetRecalls (l : MdLock C) (c : C) : MdLock C :=
  let list := l.gatherList.filter fun g => g.clientId ≠ c
  { l with
    gatherList := list
    gatherRemaining := if list.length ≠ l.gatherList.length
      then (list.filter fun g => !g.acked).length else l.gatherRemaining }

/-- The part of `evict_client` that concerns one lock. -/
def evict (k : Counters) (l : MdLock C) (c : C) : Outcome C (Departure C) :=
  let rest := l.holders.filter fun h => h.clientId ≠ c
  if rest.length = l.holders.length then ⟨⟨false, none, false⟩, l, k, []⟩
  else
    let l : MdLock C := { l with holders := rest }
    match l.state with
    | .excl => ⟨⟨true, none, false⟩, l.goTo .available, k, []⟩
    | .loner | .shared =>
      let s := l.settleShared l.promotable k
      ⟨{ s.reply with wake := false }, s.lock.eval, s.counters, []⟩
    | .dscatter =>
      ⟨⟨true, none, false⟩, l.goTo (if rest.isEmpty then .inactive else .dscatter), k, []⟩
    | .gather =>
      let l := l.forgetRecalls c
      ⟨⟨true, none, false⟩, (if l.gatherRemaining = 0 then l.gatherComplete else l).eval, k, []⟩
    | _ => ⟨⟨true, none, false⟩, l.eval, k, []⟩

/-- `recall_ack`: whether the recall was found, and whether the gather ended by it. -/
def recallAck (l : MdLock C) (c : C) (sn : Nat) : (Bool × Bool) × MdLock C :=
  let matched := l.gatherList.any fun g => g.clientId = c && g.sn = sn
  if matched then
    let list := l.gatherList.map fun g =>
      if g.clientId = c && g.sn = sn then { g with acked := true } else g
    -- the record that is downgraded is the one the client has now, whatever its serial
    let l : MdLock C := { l with
      gatherList := list
      holders := modifyFirst (fun h => h.clientId = c)
        (fun h => { h with grantedCaps := h.retainCaps, recallInFlight := false }) l.holders }
    if list.all (·.acked) ∧ 0 < l.gatherRemaining then ((true, true), l.gatherComplete)
    else ((true, false), l)
  else ((false, false), l)

/-! ## Housekeeping -/

/-- The first part of a tick: expired holders are dropped, and a lock that is left with one
holder makes it the LONER. -/
def sweepExpired (k : Counters) (l : MdLock C) (now : Nat) : Outcome C (Departure C) :=
  let gc := l.garbageCollect now
  if gc.1 then
    if gc.2.holders.isEmpty ∧ gc.2.state ≠ .gather then
      ⟨⟨true, none, true⟩, gc.2.goTo .available, k, []⟩
    else if gc.2.holders.length = 1 ∧ (gc.2.state = .shared ∨ gc.2.state = .loner) ∧
        gc.2.promotable then
      let p := gc.2.promoteToLoner k.sn
      ⟨⟨true, p.holders.head?.map fun h => (h.clientId, h.sn, h.grantedCaps), true⟩, p.eval,
        k.nextSn, []⟩
    else ⟨⟨true, none, false⟩, gc.2.eval, k, []⟩
  else ⟨⟨false, none, false⟩, gc.2, k, []⟩

/-- An idle scatter lock becomes AVAILABLE. -/
def retire (l : MdLock C) : MdLock C :=
  if l.lockType.lockClass = .scatterLock ∧ l.state = .inactive ∧ l.holders.isEmpty then
    { l with state := .available }
  else l

/-- The part of `tick` that concerns one lock: `now` was read at the start of the tick. -/
def sweep [Env] (k : Counters) (l : MdLock C) (now : Nat) : Outcome C (Departure C) :=
  let s := l.sweepExpired k now
  let t := s.lock.gatherTimeout s.counters
  let ended := s.lock.state = .gather ∧ t.lock.state ≠ .gather
  ⟨{ s.reply with wake := s.reply.wake || ended }, t.lock.retire, t.counters, t.reclaimed⟩

/-- The part of `quiesce_except` that concerns one lock. -/
def quiesce (l : MdLock C) (exclude : Option C) (now newEpoch : Nat) :
    List (RecallTask C) × MdLock C :=
  if l.holders.isEmpty ∨ l.state = .gather then ([], l)
  else
    let target := match l.lockType.lockClass with
      | .simpleLock | .localLock => GatherTarget.toExcl
      | .fileLock | .scatterLock => GatherTarget.toSync
    (l.recallTasks newEpoch (recallAll exclude),
      ({ l with state := .gather, gatherTarget := target } : MdLock C).recallHolders now newEpoch
        (recallAll exclude))

/-- The part of `quiesce_complete` that concerns one lock: whether it is done. -/
def quiesceCheck [Env] (k : Counters) (l : MdLock C) : Outcome C Bool :=
  if l.state = .gather ∧ 0 < l.gatherRemaining then
    let t := l.gatherTimeout k
    if 0 < t.lock.gatherRemaining then ⟨false, t.lock, t.counters, t.reclaimed⟩
    else ⟨true, t.lock.gatherComplete, t.counters, t.reclaimed⟩
  else ⟨true, l, k, []⟩

def fenceEpoch (l : MdLock C) : MdLock C :=
  ({ l with holders := [], gatherList := [], gatherRemaining := 0 } : MdLock C).goTo .available

def fileFlushToSync [Env] (k : Counters) (l : MdLock C) (c : C) : Outcome C (List (RecallTask C)) :=
  let now := instant k.reads
  if l.lockType.lockClass ≠ .fileLock ∨ (l.state ≠ .shared ∧ l.state ≠ .loner) then
    ⟨[], l, k.read, []⟩
  else if l.holders.any fun h => h.clientId ≠ c && !(h.grantedCaps.inter CapSet.capW).isEmpty then
    let g := l.gatherStage k.read now .toSync (recallConflicting CapSet.capW c)
    ⟨g.reply, if g.lock.gatherRemaining = 0 then g.lock.gatherComplete else g.lock, g.counters,
      g.reclaimed⟩
  else ⟨[], l.goTo .sync, k.read, []⟩

def fileSyncToShared (l : MdLock C) : MdLock C :=
  if l.lockType.lockClass = .fileLock ∧ l.state = .sync then l.goTo .shared
  else l

/-! ## Local and scatter locks -/

def localLock (l : MdLock C) : Bool × MdLock C :=
  if l.state = .available then (true, l.goTo .lock) else (false, l)

def localUnlock (l : MdLock C) : MdLock C := l.goTo .available

/-- A scatter lock takes back holders, not capabilities. -/
def recallScattered (c : C) (h : LockHolder C) : Option (CapSet × CapSet) :=
  if h.clientId = c then none else some (h.recallCaps, h.retainCaps)

/-- INACTIVE becomes DSCATTER when a request comes. -/
def activate (l : MdLock C) : MdLock C :=
  if l.state = .inactive then { l with state := .dscatter } else l

/-- The last part of `scatter_wrlock`: a client that has no record gets one; the serial is
taken in either case. -/
def admitScattered [Env] (l : MdLock C) (k : Counters) (now : Nat) (c : C)
    (reclaimed : List (C × Nat)) : Outcome C (LockGrantResult C) :=
  let entered : MdLock C := { l with
    holders := match l.findHolder c with
      | some _ => l.holders
      | none => l.holders ++ [newHolder c k.sn CapSet.none (now + leaseDuration)] }
  let l := entered.goTo (if l.state = .available ∨ l.state = .sync then .dscatter else l.state)
  ⟨⟨c, l.lockType, k.sn, 0, CapSet.none, [], defaultLeaseDurationMs⟩, l, k.nextSn, reclaimed⟩

def scatterWrlock [Env] (k : Counters) (l : MdLock C) (c : C) : Outcome C (LockGrantResult C) :=
  let now := instant k.reads
  let l := (l.collect now).activate
  if l.state = .available ∨ l.state = .dscatter ∨ l.state = .sync then
    l.admitScattered k.read now c []
  else
    let g := l.gatherStage k.read now .toDscatter (recallScattered c)
    if 0 < g.lock.gatherRemaining then
      -- the messages of a scatter lock name no capability
      ⟨l.refusal c (g.reply.map fun t =>
        { t with capsToRecall := CapSet.none, retainedCaps := CapSet.none }), g.lock, g.counters,
        g.reclaimed⟩
    else g.lock.gatherComplete.admitScattered g.counters now c g.reclaimed

def scatterUnlock (l : MdLock C) (sn : Nat) : MdLock C :=
  let rest := l.holders.filter fun h => h.sn ≠ sn
  ({ l with
    holders := rest
    state := if rest.isEmpty then
        if l.state = .dscatter then .inactive else .available
      else l.state } : MdLock C).eval

end MdLock

end PowerFS.Filer.Locks
