import PowerFS.Lib.StepRuns
import PowerFS.Lease.Exclusion

/-! # Writes under a lease

The volume server takes writes of stripes over two routes, `handle_write_needle_blob`
of `net_handler.rs` and `write_needle_blob_lease` of `server.rs`, and both ask
`validate_token_with_grace_period` of `range_lease.rs` about the token that comes with
the write. That check compares the holder and an inode number and tolerates a lease
that has expired within the last three seconds; it looks neither at the mode of the
lease nor at its stripes, and the second route hands it the stripe index where it
expects the inode. -/
namespace PowerFS.Lease.LeasedWrites
open Store StripeLeases Exclusion Lib.StepRuns

section

variable [Env]

/-! ## The check -/

/-- Milliseconds in the unit of the clock. -/
def fromMillis (ms : Nat) : Nat := ms * 1000000

def validateTokenWithGracePeriod (m : RangeLeaseManager) (token : LeaseToken) (holder : String)
    (inode : UInt64) (graceMs : Nat) : RangeLeaseManager × Except String Unit :=
  match m.store.leases.lookup token with
  | none => (m, .error "Lease token not found")
  | some entry =>
    let actual := entry.key.inode
    if entry.holder ≠ holder then (m, .error "Lease holder mismatch")
    else if actual ≠ inode then
      (m, .error s!"Lease inode mismatch: expected {inode}, got {actual}")
    else
      (⟨{ m.store with ticks := m.store.ticks + 1 }⟩,
        if clock m.store.ticks > entry.expireAt + fromMillis graceMs then
          .error "Lease expired beyond grace period"
        else .ok ())

/-- What `handle_write_needle_blob` reads of a message; an empty token is no token. -/
structure NetWrite where
  fileKey : UInt64
  inode : Option UInt64
  leaseToken : Option LeaseToken
  clientId : Option String
  sessionClientId : UInt64

/-- What `write_needle_blob_lease` reads of a request. -/
structure RpcWrite where
  fileKey : UInt64
  leaseToken : Option LeaseToken
  stripeIndex : UInt64
  clientId : String

/-- A write of a stripe of an inode. The message of the first route does not name the
stripe, and that of the second does not name the inode. -/
inductive Write where
  | net (msg : NetWrite) (stripe : UInt64)
  | rpc (req : RpcWrite) (inode : UInt64)

namespace Write

def inode : Write → UInt64
  | net msg _ => msg.inode.getD msg.fileKey
  | rpc _ inode => inode

def stripe : Write → UInt64
  | net _ stripe => stripe
  | rpc req _ => req.stripeIndex

def leaseToken : Write → Option LeaseToken
  | net msg _ => msg.leaseToken
  | rpc req _ => req.leaseToken

def holderClientId : Write → String
  | net msg _ => msg.clientId.getD (toString msg.sessionClientId)
  | rpc req _ => if req.clientId.isEmpty then "grpc-internal" else req.clientId

/-- The number a route hands over as the inode. -/
def askedInode : Write → UInt64
  | net msg _ => msg.inode.getD msg.fileKey
  | rpc req _ => req.stripeIndex

end Write

structure VolumeServer where
  rangeLeaseMgr : RangeLeaseManager
  leaseEnabled : Bool

/-- Whether a route asks for a lease at all. -/
def VolumeServer.asks (v : VolumeServer) : Write → Bool
  | .net _ _ => v.leaseEnabled
  | .rpc _ _ => true

/-- The lease check of a write. The answer is `none` when there is no check: the first
route lets writes without a token pass, and every write when leases are off. -/
def VolumeServer.leaseCheck (v : VolumeServer) (w : Write) :
    VolumeServer × Option (Except String Unit) :=
  match w, w.leaseToken with
  | .net _ _, none => (v, none)
  | .rpc _ _, none => (v, some (.error "Missing lease token"))
  | _, some token =>
    if v.asks w then
      let out := validateTokenWithGracePeriod v.rangeLeaseMgr token w.holderClientId
        w.askedInode 3000
      ({ v with rangeLeaseMgr := out.1 }, some out.2)
    else (v, none)

/-- The lease that a check is about. -/
def VolumeServer.named (v : VolumeServer) (w : Write) : Option (LeaseEntry StripeWords) :=
  if v.asks w then w.leaseToken.bind v.rangeLeaseMgr.store.leases.lookup else none

def VolumeServer.now (v : VolumeServer) : Nat := clock v.rangeLeaseMgr.store.ticks

open VolumeServer

omit [Env] in
theorem named_lookup {v : VolumeServer} {w : Write} {e : LeaseEntry StripeWords}
    (h : v.named w = some e) :
    ∃ t, w.leaseToken = some t ∧ v.rangeLeaseMgr.store.leases.lookup t = some e := by
  unfold named at h
  split at h
  · exact Option.bind_eq_some_iff.mp h
  · cases h

/-- **What the check accepts**: a lease of the writer, on the number handed over, that
has not been over for more than three seconds. -/
theorem leaseCheck_ok_iff (v : VolumeServer) (w : Write) :
    (v.leaseCheck w).2 = some (.ok ()) ↔
      ∃ e, v.named w = some e ∧ e.holder = w.holderClientId ∧ e.key.inode = w.askedInode ∧
        v.now ≤ e.expireAt + fromMillis 3000 := by
  have hchecked : ∀ token, w.leaseToken = some token → v.leaseCheck w =
      if v.asks w then
        let out := validateTokenWithGracePeriod v.rangeLeaseMgr token w.holderClientId
          w.askedInode 3000
        ({ v with rangeLeaseMgr := out.1 }, some out.2)
      else (v, none) := by
    intro token htoken
    cases w <;> simp only [leaseCheck, htoken]
  unfold named now
  cases htoken : w.leaseToken with
  | none =>
    have hfail : (v.leaseCheck w).2 ≠ some (.ok ()) := by
      cases w <;> simp [leaseCheck, htoken]
    refine ⟨fun h => absurd h hfail, ?_⟩
    rintro ⟨e, he, -⟩
    simp at he
  | some token =>
    rw [hchecked token htoken]
    by_cases hasks : v.asks w = true
    · rw [if_pos hasks, if_pos hasks, Option.bind_some, Option.some_inj]
      unfold validateTokenWithGracePeriod
      cases v.rangeLeaseMgr.store.leases.lookup token with
      | none => simp
      | some e =>
        by_cases hholder : e.holder = w.holderClientId
        · by_cases hinode : e.key.inode = w.askedInode
          · by_cases hlate : clock v.rangeLeaseMgr.store.ticks > e.expireAt + fromMillis 3000
            · simp [hholder, hinode, hlate, Nat.not_le.mpr hlate]
            · simp [hholder, hinode, hlate, Nat.not_lt.mp hlate]
          · simp [hholder, hinode]
        · simp [hholder]
    · simp [hasks]

/-! ## Runs of lease calls and writes -/

inductive Event where
  | lease (request : Request StripeWords)
  | write (w : Write)

def VolumeServer.step (v : VolumeServer) : Event → VolumeServer
  | .lease r =>
    { v with rangeLeaseMgr.store := handle v.rangeLeaseMgr.store r }
  | .write w => (v.leaseCheck w).1

def VolumeServer.run (v : VolumeServer) (events : List Event) : VolumeServer :=
  events.foldl VolumeServer.step v

def VolumeServer.new (cleanupGrace : Nat) (leaseEnabled : Bool) : VolumeServer :=
  ⟨⟨MemoryLeaseStore.new cleanupGrace⟩, leaseEnabled⟩

/-- No lease is renewed after it has expired, and no range asked for reaches past the last
stripe number. -/
def Regular (v : VolumeServer) : Event → Prop
  | .lease r => InTime v.rangeLeaseMgr.store r ∧ ∀ k ∈ keysAsked r, k.Ends
  | .write _ => True

/-- A check leaves the leases alone; at most it has read the clock. -/
theorem leaseCheck_store (v : VolumeServer) (w : Write) :
    ∃ n, v.rangeLeaseMgr.store.ticks ≤ n ∧
      (v.leaseCheck w).1.rangeLeaseMgr.store = { v.rangeLeaseMgr.store with ticks := n } := by
  have hvalidate : ∀ token, ∃ n, v.rangeLeaseMgr.store.ticks ≤ n ∧
      (validateTokenWithGracePeriod v.rangeLeaseMgr token w.holderClientId w.askedInode
        3000).1.store = { v.rangeLeaseMgr.store with ticks := n } := by
    intro token
    fun_cases validateTokenWithGracePeriod with
    | case4 => exact ⟨_, Nat.le_succ _, rfl⟩
    | _ => exact ⟨_, le_refl _, rfl⟩
  unfold leaseCheck
  split
  · exact ⟨_, le_refl _, rfl⟩
  · exact ⟨_, le_refl _, rfl⟩
  split
  · exact hvalidate _
  · exact ⟨_, le_refl _, rfl⟩

/-- What a regular run keeps. -/
abbrev Orderly (v : VolumeServer) : Prop := Sound StripeWords.Ends v.rangeLeaseMgr.store

theorem step_orderly (hmono : Monotone clock) (v : VolumeServer) (event : Event)
    (h : Orderly v) (hr : Regular v event) :
    Orderly (v.step event) := by
  cases event with
  | lease r => exact handle_sound (fun a b _ => a.conflicts_comm b) hmono h hr.1 hr.2
  | write w =>
    obtain ⟨n, hn, hstore⟩ := leaseCheck_store v w
    show Sound _ (v.leaseCheck w).1.rangeLeaseMgr.store
    rw [hstore]
    exact h.wait hn _

theorem run_orderly (hmono : Monotone clock) (cleanupGrace : Nat) (leaseEnabled : Bool)
    {events : List Event}
    (hr : Along step Regular (.new cleanupGrace leaseEnabled) events) :
    Orderly ((new cleanupGrace leaseEnabled).run events) := by
  refine hr.invariant (I := Orderly) ?_ (new_sound cleanupGrace)
  intro v event h hstep
  exact step_orderly hmono v event h hstep

/-! ## Covered and fenced -/

/-- The lease is an exclusive one of the writer on the stripe written. -/
def Covers (e : LeaseEntry StripeWords) (w : Write) : Prop :=
  e.mode = .exclusive ∧ e.holder = w.holderClientId ∧ e.key.inode = w.inode ∧
    e.key.Covers w.stripe

/-- Nobody else has an unexpired exclusive lease on the stripe written. -/
def Fenced (v : VolumeServer) (w : Write) : Prop :=
  ∀ t e, v.rangeLeaseMgr.store.leases.lookup t = some e → e.isExpired v.now = false →
    e.mode = .exclusive → e.key.inode = w.inode → e.key.Covers w.stripe →
    e.holder = w.holderClientId

/-- An accepted write is covered by the lease it names, and fenced. -/
def CoveredAndFenced (v : VolumeServer) (w : Write) : Prop :=
  (v.leaseCheck w).2 = some (.ok ()) →
    (∃ e, v.named w = some e ∧ Covers e w) ∧ Fenced v w

/-- The write is in line with the lease that its token names: what the check leaves out,
the number that the second route hands over, the mode and `covers_stripe`, is as it
should be. -/
def InLine (v : VolumeServer) (w : Write) : Prop :=
  ∀ e, v.named w = some e → e.holder = w.holderClientId → e.key.inode = w.askedInode →
    w.askedInode = w.inode ∧ e.mode = .exclusive ∧ e.key.coversStripe w.stripe = some true

/-- The write comes before its lease is over, not in the grace period. -/
def BeforeEnd (v : VolumeServer) (w : Write) : Prop :=
  ∀ e, v.named w = some e → v.now ≤ e.expireAt

/-- A lease that covers the write and is not over fences it. -/
theorem fenced_of_covers (hmono : Monotone clock) {v : VolumeServer}
    {w : Write} {e : LeaseEntry StripeWords} (h : Orderly v)
    (hnamed : v.named w = some e) (hcovers : Covers e w) (hlive : v.now ≤ e.expireAt) :
    Fenced v w := by
  obtain ⟨hexclusive, hholder, hinode, hstripe⟩ := hcovers
  obtain ⟨token, -, htoken⟩ := named_lookup hnamed
  have hunexpired : e.isExpired v.now = false :=
    decide_eq_false (Nat.not_lt.mpr hlive)
  intro t other hother hotherLive hotherMode hotherInode hotherStripe
  by_contra hne
  have hsame : other.key.inode = e.key.inode := hotherInode.trans hinode.symm
  refine h.exclusive _ (Past.reading hmono _) t other token e hother htoken hotherLive
    hunexpired ⟨fun hh => hne (hh.trans hholder), congrArg UInt64.toNat hsame,
      StripeWords.conflicts_of_covers hsame (h.keys t other hother) (h.keys token e htoken)
        hotherStripe hstripe, ?_⟩
  rw [hotherMode]
  rfl

/-- **Accepted writes** in a regular run: a write that comes before its lease is over is
covered and fenced exactly if it is in line with that lease. -/
theorem accepted_write_covered_iff (hmono : Monotone clock) (cleanupGrace : Nat)
    (leaseEnabled : Bool) (events : List Event)
    (hr : Along VolumeServer.step Regular (.new cleanupGrace leaseEnabled) events) (w : Write)
    (hbefore : BeforeEnd ((VolumeServer.new cleanupGrace leaseEnabled).run events) w) :
    CoveredAndFenced ((VolumeServer.new cleanupGrace leaseEnabled).run events) w ↔
      InLine ((VolumeServer.new cleanupGrace leaseEnabled).run events) w := by
  have horderly := run_orderly hmono cleanupGrace leaseEnabled hr
  generalize (new cleanupGrace leaseEnabled).run events = v at horderly hbefore ⊢
  unfold CoveredAndFenced InLine
  rw [leaseCheck_ok_iff]
  constructor
  · intro h e hnamed hholder hasked
    obtain ⟨⟨e', hnamed', hexclusive, -, hinode, hstripe⟩, -⟩ :=
      h ⟨e, hnamed, hholder, hasked, Nat.le_add_right_of_le (hbefore e hnamed)⟩
    obtain rfl : e' = e := Option.some.inj (hnamed'.symm.trans hnamed)
    obtain ⟨token, -, htoken⟩ := named_lookup hnamed
    exact ⟨hasked.symm.trans hinode, hexclusive,
      StripeWords.coversStripe_iff.mpr ⟨horderly.keys token e' htoken, hstripe⟩⟩
  · rintro h ⟨e, hnamed, hholder, hasked, -⟩
    obtain ⟨hinode, hexclusive, hstripe⟩ := h e hnamed hholder hasked
    have hcovers : Covers e w :=
      ⟨hexclusive, hholder, hasked.trans hinode, (StripeWords.coversStripe_iff.mp hstripe).2⟩
    exact ⟨⟨e, hnamed, hcovers⟩, fenced_of_covers hmono horderly hnamed hcovers (hbefore e hnamed)⟩

end

/-- Half a second between any two readings. -/
local instance : Env := ⟨(· * fromMillis 500), fun _ => 0⟩

/-- A client takes stripes 0 to 3 of inode 1 for a minute. -/
def granted : VolumeServer :=
  (VolumeServer.new 5000 true).run [.lease (.acquire ⟨1, 0, 4⟩ "a" .exclusive (fromMillis 60000))]

/-- It writes stripe 2. -/
def writeOfA : Write := .net ⟨9, some 1, some ⟨0, 0⟩, some "a", 5⟩ 2

theorem granted_write_covered :
    (granted.leaseCheck writeOfA).2 = some (.ok ()) ∧
      CoveredAndFenced granted writeOfA := by
  refine ⟨(leaseCheck_ok_iff _ _).mpr
    ⟨⟨⟨1, 0, 4⟩, "a", ⟨0, 0⟩, .exclusive, 0, 60000000000, 0⟩, rfl, rfl, rfl, by decide⟩, ?_⟩
  have hmono : Monotone clock := fun _ _ h => Nat.mul_le_mul_right _ h
  have hlease : ∀ e, granted.named writeOfA = some e →
      (⟨⟨1, 0, 4⟩, "a", ⟨0, 0⟩, .exclusive, 0, 60000000000, 0⟩ : LeaseEntry StripeWords) = e :=
    fun e he => Option.some.inj he
  refine (accepted_write_covered_iff hmono 5000 true
    [.lease (.acquire ⟨1, 0, 4⟩ "a" .exclusive (fromMillis 60000))] ⟨⟨trivial, ?_⟩, trivial⟩
    writeOfA ?_).mpr ?_
  · intro k hk
    obtain rfl := List.mem_singleton.mp hk
    show 0 + 4 < 2 ^ 64
    decide
  · intro e he
    rw [← hlease e he]
    decide
  · intro e he _ _
    rw [← hlease e he]
    exact ⟨rfl, rfl, by decide⟩

/-- The lease of `a` runs for a millisecond; half a second later `b` gets the stripes. -/
def regranted : VolumeServer :=
  (VolumeServer.new 5000 true).run [.lease (.acquire ⟨1, 0, 4⟩ "a" .exclusive (fromMillis 1)),
      .lease (.acquire ⟨1, 0, 4⟩ "b" .exclusive (fromMillis 60000))]

/-- A client may read stripes 0 to 3 of inode 1. -/
def readable : VolumeServer :=
  (VolumeServer.new 5000 true).run [.lease (.acquire ⟨1, 0, 4⟩ "a" .shared (fromMillis 60000))]

/-- It writes stripe 1 of inode 7 over the second route. -/
def foreignWrite : Write := .rpc ⟨9, some ⟨0, 0⟩, 1, "a"⟩ 7

/-- **Neither covered nor fenced.** Within the grace period `a` still writes stripes that
`b` holds exclusively, and the second route takes a shared lease on inode 1 for a write of
inode 7. -/
theorem late_write_and_foreign_write :
    ((regranted.leaseCheck writeOfA).2 = some (.ok ()) ∧
      ¬ Fenced regranted writeOfA) ∧
    (readable.leaseCheck foreignWrite).2 = some (.ok ()) ∧
      ∀ e, readable.named foreignWrite = some e →
        e.mode = .shared ∧ e.key.inode ≠ foreignWrite.inode := by
  refine ⟨⟨(leaseCheck_ok_iff _ _).mpr ⟨⟨⟨1, 0, 4⟩, "a", ⟨0, 0⟩, .exclusive, 0, 1000000, 0⟩,
      rfl, rfl, rfl, by decide⟩, fun hfenced => ?_⟩,
    (leaseCheck_ok_iff _ _).mpr ⟨⟨⟨1, 0, 4⟩, "a", ⟨0, 0⟩, .shared, 0, 60000000000, 0⟩,
      rfl, by decide, rfl, by decide⟩, ?_⟩
  · have hheld := hfenced ⟨1, 0⟩ ⟨⟨1, 0, 4⟩, "b", ⟨1, 0⟩, .exclusive, 500000000, 60500000000, 1⟩
      rfl (by decide) rfl rfl ⟨by decide, by decide⟩
    exact absurd hheld (by decide)
  · intro e he
    obtain rfl : (⟨⟨1, 0, 4⟩, "a", ⟨0, 0⟩, .shared, 0, 60000000000, 0⟩ :
        LeaseEntry StripeWords) = e := Option.some.inj he
    exact ⟨rfl, by decide⟩

end PowerFS.Lease.LeasedWrites
