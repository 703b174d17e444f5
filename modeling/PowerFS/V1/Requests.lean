import PowerFS.Lib.Crc32c
import PowerFS.V1.Outcomes

/-! # The requests to a volume

What a caller can ask of a volume, and how each request ends: one inversion lemma for
partial writes, for flushing a set of needles, and for everything that deletes, restores
or protects. Compaction is taken apart elsewhere. -/
namespace PowerFS.V1.Requests
open Lib.ByteString Lib.Crc32c Lib.FinTable Lib.Calls Lib.SparseFiles Needle Metadata Coalescer
  State Operations Outcomes WriteCoalescer

inductive Request where
  | write (fileKey cookie : Nat) (data : Bytes)
  | blob (fileKey : Nat) (offset size : Int) (data : Bytes)
  | flush (ids : List Nat)
  | flushAll
  | flushExpired
  | delete (id : Nat)
  | restore (id : Nat)
  | lock (id : Nat) (retentionDays : Int)
  | gc
  | compact

def ignore {α : Type} (x : Op α) : Op Unit := x >>= fun _ => pure ()

/-- Serve a request; only how it ends is kept of the answer. -/
def perform [Env] : Request → Op Unit
  | .write fileKey cookie data => ignore (writeNeedleWithCookie fileKey cookie data)
  | .blob fileKey offset size data => writeNeedleBlob fileKey offset size data
  | .flush ids => ignore (flushSpecificNeedles ids)
  | .flushAll => ignore flushAllDirty
  | .flushExpired => ignore flushExpiredDirty
  | .delete id => deleteNeedle id
  | .restore id => restoreNeedle id
  | .lock id retentionDays => wormLock id retentionDays
  | .gc => ignore gcCleanup
  | .compact => ignore compact

/-- A run of requests, of which any may be refused; each meets a condition in the state
it finds. -/
inductive Run [Env] (P : Volume → Request → Prop) : Volume → List Request → Volume → Prop
  | nil (v : Volume) : Run P v [] v
  | cons {v v₁ v' : Volume} {q : Request} {qs : List Request} {r : Result Unit}
      (hmeets : P v q) (h : Returns (perform q) v r v₁) (rest : Run P v₁ qs v') :
      Run P v (q :: qs) v'

variable {P : Volume → Request → Prop} {qs : List Request} {α : Type} {x : Op α} {offset : Nat}
  {data : Bytes} {ids : List Nat}

/-- What every request keeps holds in every state of a run. -/
theorem Run.keeps [Env] {I : Volume → Prop} {v v' : Volume}
    (hstep : ∀ v q r v', P v q → I v → Returns (perform q) v r v' → I v')
    (h : Run P v qs v') (hI : I v) : I v' := by
  induction h with
  | nil => exact hI
  | cons hmeets hq _ ih => exact ih (hstep _ _ _ _ hmeets hI hq)

/-- Serve a list of requests that all meet the condition. -/
def performAll [Env] (P : Volume → Request → Prop) [∀ v q, Decidable (P v q)] :
    List Request → Volume → Option Volume
  | [], v => some v
  | q :: qs, v =>
    if P v q then
      match perform q v with
      | none => none
      | some (_, v₁) => performAll P qs v₁
    else none

theorem run_of_performAll [Env] [∀ v q, Decidable (P v q)] {v v' : Volume}
    (h : performAll P qs v = some v') : Run P v qs v' := by
  induction qs generalizing v with
  | nil =>
    cases h
    exact .nil _
  | cons q qs ih =>
    unfold performAll at h
    split at h
    case isFalse => cases h
    case isTrue hq =>
      split at h
      case h_1 => cases h
      case h_2 r v₁ hperform => exact .cons hq hperform (ih h)

/-- An environment without failures, in which every call takes a nanosecond. -/
abbrev calm : Env :=
  { algorithm := .crc32c
    checksum := fun _ data => (crc32c data).toUInt64
    fault := fun _ => none
    utc := fun n => n
    instant := fun n => n
    order := .byKey
    capacity := List.length }

variable {v v' : Volume} {id : Nat} {info : NeedleInfo} {r : Result Unit}

/-- A new volume with room for `size` bytes. -/
def newVolume (size : Nat) : Volume :=
  openVolume ⟨10, 4, 1000, 1000, false⟩ 1 size .empty (.hole 0) 0

theorem ignore_error {e : PowerFsError} (h : Returns (ignore x) v (.error e) v') :
    Returns x v (.error e) v' := by
  rcases h.bind with ⟨e', he, hx⟩ | ⟨a, v₁, _, h⟩
  · cases he
    exact hx
  · cases h.pure.1

theorem ignore_returns (h : Returns (ignore x) v r v') : ∃ r₀, Returns x v r₀ v' :=
  h.bind_pure

/-! ## Reading the data file -/

variable [Env]

theorem backendRead_returns {size : Nat} {r : Result Bytes}
    (h : Returns (backendRead offset size) v r v') :
    (∃ raw, offset + size ≤ v.data.totalSize ∧ fault v.calls = none ∧
      v.data.file.read offset size = some raw ∧ r = .ok raw ∧ v' = v.ticks 1) ∨
    (¬ (offset + size ≤ v.data.totalSize ∧ fault v.calls = none ∧
      offset + size ≤ v.data.file.len) ∧ ∃ e n, (offset + size ≤ v.data.totalSize → n = 1) ∧
        r = .error e ∧ v' = v.ticks n) := by
  unfold Returns backendRead at h
  split at h
  case isTrue hlt =>
    cases h
    exact .inr ⟨fun hin => absurd hin.1 (by omega), _, 0, fun hin => absurd hin (by omega), rfl,
      rfl⟩
  case isFalse hle =>
    split at h
    case h_1 n hn =>
      cases h
      exact .inr ⟨fun hin => absurd (hn.symm.trans hin.2.1) (Option.some_ne_none _), _, 1,
        fun _ => rfl, rfl, rfl⟩
    case h_2 hn =>
      split at h
      case h_1 hread =>
        cases h
        refine .inr ⟨fun hin => ?_, _, 1, fun _ => rfl, rfl, rfl⟩
        rw [SparseFile.read_eq_some hin.2.2] at hread
        cases hread
      case h_2 raw hread =>
        cases h
        exact .inl ⟨raw, by omega, hn, hread, rfl, rfl⟩

/-! ## Partial writes -/

/-- The bytes of a partial write that are used. -/
def chunk (size : Int) (data : Bytes) : Bytes := data.take (min (asUsize size) data.length)

theorem recordBlob_returns {hint : Nat} {existing : Option Bytes}
    (h : Returns (recordBlob id offset data hint existing) v r v') :
    (v.coalescer.config.disabled = false ∧ r = .ok () ∧ ∃ c : WriteCoalescer,
      c.config = v.coalescer.config ∧ v' = (v.ticks 1).setCoalescer c ∧
      ∀ x, c.held x = if x = id then some (v.coalescer.merge id offset data hint existing)
        else v.coalescer.held x) ∨
    (v.coalescer.config.disabled = true ∧
      Returns (flushCoalescerEntry id (pwrite (seed existing hint) offset data)
        existing.isNone) (v.ticks 1) r v') := by
  replace h := (instantNow_bind h).get_bind.modify_bind
  cases hd : v.coalescer.config.disabled with
  | false =>
    have hrec := @held_recordWrite v.coalescer id Env.order (instant v.calls)
      offset hint data existing hd
    have hnone : ((v.ticks 1).coalescer.recordWrite Env.order (instant v.calls) id offset data
      hint existing).2 = none := hrec.1
    rw [hnone] at h
    obtain ⟨rfl, rfl⟩ := h.pure
    exact .inl ⟨rfl, rfl, _, hrec.2.1, rfl, hrec.2.2⟩
  | true =>
    have hrec : (v.ticks 1).coalescer.recordWrite Env.order (instant v.calls) id offset data
      hint existing = _ := recordWrite_disabled hd
    rw [hrec] at h
    exact .inr ⟨rfl, h⟩

/-- The content a partial write starts from: a dirty entry, nothing, or what is stored. -/
inductive Base (v : Volume) (id stop : Nat) : Nat → Option Bytes → Prop
  | dirty (h : v.coalescer.held id ≠ none) : Base v id stop stop none
  | fresh (h : v.coalescer.held id = none) (hseen : seen v id = none) :
      Base v id stop stop none
  | stored {info : NeedleInfo} {raw cur : Bytes} (h : v.coalescer.held id = none)
      (hseen : seen v id = some info)
      (hread : v.data.file.read info.offset (readSize info) = some raw)
      (hcur : fromBytes Env.checksum raw info.checksumAlgorithm = .ok cur) :
      Base v id stop (max cur.length stop) (some cur)

/-- No compaction is going on, and what is stored can be read. -/
def Seedable (v : Volume) (id : Nat) : Prop :=
  v.compacting = false ∧ (v.coalescer.held id = none → ∀ info, seen v id = some info →
    (info.offset + readSize info ≤ v.data.totalSize ∧ fault (v.calls + 1) = none ∧
      info.offset + readSize info ≤ v.data.file.len) ∧
    ∃ cur, fromBytes Env.checksum (v.data.file.range info.offset (readSize info))
      info.checksumAlgorithm = .ok cur)

/-- **How a partial write ends**: without effect, or by merging its bytes. -/
theorem writeNeedleBlob_returns {fileKey : Nat} {offset size : Int}
    (h : Returns (writeNeedleBlob fileKey offset size data) v r v') :
    (¬ Seedable v fileKey ∧ ∃ e n, r = .error e ∧ v' = v.ticks n) ∨
    (v.compacting = false ∧ asUsize offset + (chunk size data).length ≤ isizeMax ∧
      ∃ n hint existing, Base v fileKey (asUsize offset + (chunk size data).length) hint existing ∧
      Returns (recordBlob fileKey (asUsize offset) (chunk size data) hint existing)
        (v.ticks n) r v') := by
  have hlen : (chunk size data).length = min (asUsize size) data.length := by
    unfold chunk
    rw [List.length_take]
    omega
  replace h := h.get_bind
  split at h
  case isTrue hc =>
    obtain ⟨rfl, rfl⟩ := h.fail
    exact .inl ⟨fun hs => Bool.noConfusion (hs.1.symm.trans hc), _, 0, rfl, rfl⟩
  case isFalse hc =>
    dsimp only at h
    split at h
    case isTrue hstop => exact h.hang.elim
    case isFalse hstop =>
      have hfits : asUsize offset + (chunk size data).length ≤ isizeMax := by omega
      split at h
      case isTrue hdirty =>
        refine .inr ⟨Bool.eq_false_iff.mpr hc, hfits, 0, _, none,
          .dirty (isDirty_iff.mp hdirty), ?_⟩
        rw [hlen]
        exact h
      case isFalse hdirty =>
        have hclean : v.coalescer.held fileKey = none := by
          by_contra hne
          exact hdirty (isDirty_iff.mpr hne)
        replace h := indexGet_bind h
        split at h
        case h_1 info hseen =>
          obtain ⟨r₀, v₁, hread, h⟩ := h.parts
          rcases backendRead_returns hread with
            ⟨raw, _, _, hraw, rfl, rfl⟩ | ⟨hno, e, n, _, rfl, rfl⟩
          case inr =>
            obtain ⟨rfl, rfl⟩ := h
            exact .inl ⟨fun hs => hno (hs.2 hclean info hseen).1, e, 1 + n, rfl, ticks_ticks v 1 n⟩
          replace h := h.ok
          split at h
          case h_1 e he =>
            obtain ⟨rfl, rfl⟩ := h.fail
            refine .inl ⟨fun hs => ?_, e, 2, rfl, ticks_ticks v 1 1⟩
            obtain ⟨_, cur, hcur⟩ := hs.2 hclean info hseen
            rw [SparseFile.eq_range_of_read hraw] at he
            cases hcur.symm.trans he
          case h_2 cur hcur =>
            refine .inr ⟨Bool.eq_false_iff.mpr hc, hfits, 2, _, some cur,
              .stored hclean hseen hraw hcur, ?_⟩
            rw [hlen]
            rwa [ticks_ticks] at h
        case h_2 hseen =>
          refine .inr ⟨Bool.eq_false_iff.mpr hc, hfits, 1, _, none, .fresh hclean hseen, ?_⟩
          rw [hlen]
          exact h

/-! ## Flushing -/

/-- A flush of a list of needles: an entry is taken out of the coalescer and then
written, whether or not that works. -/
inductive Flushed : List Nat → Volume → List Attempt → Volume → Prop
  | nil (v : Volume) : Flushed [] v [] v
  | nothing {id : Nat} {ids : List Nat} {v v' : Volume} {log : List Attempt}
      (h : v.compacting = true ∨ v.coalescer.held id = none)
      (rest : Flushed ids v log v') : Flushed (id :: ids) v log v'
  | entry {id : Nat} {ids : List Nat} {v v₁ v' : Volume} {log : List Attempt}
      {c : WriteCoalescer} {e : DirtyEntry} {r : Result Unit}
      (hrun : v.compacting = false) (htake : v.coalescer.take id = (c, some e))
      (h : Returns (flushCoalescerEntry id e.merged e.isNewNeedle) (v.setCoalescer c) r v₁)
      (rest : Flushed ids v₁ log v') :
      Flushed (id :: ids) v (⟨id, e.merged, r⟩ :: log) v'

/-- A flush does not fail as a whole. -/
theorem flushIds_returns {r : Result (List Attempt)}
    (h : Returns (flushIds ids) v r v') : ∃ log, r = .ok log ∧ Flushed ids v log v' := by
  induction ids generalizing v v' r with
  | nil =>
    obtain ⟨rfl, rfl⟩ := h.pure
    exact ⟨[], rfl, .nil _⟩
  | cons id ids ih =>
    replace h := h.get_bind
    split at h
    case isTrue hc =>
      obtain ⟨log, rfl, hlog⟩ := ih h
      exact ⟨log, rfl, .nothing (.inl hc) hlog⟩
    case isFalse hc =>
      by_cases hheld : v.coalescer.held id = none
      · rw [take_none hheld] at h
        obtain ⟨log, rfl, hlog⟩ := ih h
        exact ⟨log, rfl, .nothing (.inr hheld) hlog⟩
      obtain ⟨c, e, htake⟩ := exists_take hheld
      rw [htake] at h
      obtain ⟨r₀, v₁, hflush, h⟩ := h.modify_bind.attempt_bind
      obtain ⟨r₁, v₂, hrest, h⟩ := h.parts
      obtain ⟨log, rfl, hlog⟩ := ih hrest
      obtain ⟨rfl, rfl⟩ := h.ok.pure
      exact ⟨_, rfl, .entry (Bool.eq_false_iff.mpr hc) htake hflush hlog⟩

/-- How often a flush succeeded. -/
theorem flushNeedleIdsAtomic_returns {r : Result Nat}
    (h : Returns (flushNeedleIdsAtomic ids) v r v') :
    ∃ log : List Attempt, r = .ok (log.countP (·.succeeded)) ∧
      Flushed (flushOrder ids) v log v' := by
  obtain ⟨r₀, v₁, hids, h⟩ := h.parts
  obtain ⟨log, rfl, hlog⟩ := flushIds_returns hids
  obtain ⟨rfl, rfl⟩ := h.ok.pure
  exact ⟨log, rfl, hlog⟩

/-- The requests that flush. -/
def Request.flushes : Request → Bool
  | .flush _ | .flushAll | .flushExpired => true
  | _ => false

theorem flushes_returns {q : Request} (hflush : q.flushes = true)
    (h : Returns (perform q) v r v') : ∃ n ids log, Flushed ids (v.ticks n) log v' := by
  have hatomic : ∃ n ids r₀, Returns (flushNeedleIdsAtomic ids) (v.ticks n) r₀ v' := by
    cases q with
    | flush ids =>
      obtain ⟨r₀, hf⟩ := ignore_returns h
      exact ⟨0, ids, r₀, hf⟩
    | flushAll =>
      obtain ⟨r₀, hf⟩ := ignore_returns h
      exact ⟨0, _, r₀, hf.get_bind⟩
    | flushExpired =>
      obtain ⟨r₀, hf⟩ := ignore_returns h
      exact ⟨1, _, r₀, (instantNow_bind hf).get_bind⟩
    | _ => cases hflush
  obtain ⟨n, ids, r₀, hf⟩ := hatomic
  obtain ⟨log, _, hlog⟩ := flushNeedleIdsAtomic_returns hf
  exact ⟨n, _, log, hlog⟩

/-! ## Deleting and protecting -/

/-- What is left to do after the entry has moved does not fail. -/
theorem withAllocation_returns {f : AllocationStats → Volume → Volume}
    (h : Returns (withAllocation f) v r v') :
    r = .ok () ∧ (v' = v.ticks 1 ∨ v' = f v.index.getAllocation (v.ticks 1)) := by
  obtain ⟨r₀, v₁, hget, h⟩ := h.attempt_bind
  obtain ⟨rfl, ⟨_, rfl⟩ | ⟨_, rfl⟩⟩ := dbRead_returns hget
  · obtain ⟨rfl, rfl⟩ := h.modify
    exact ⟨rfl, .inr rfl⟩
  · obtain ⟨rfl, rfl⟩ := h.pure
    exact ⟨rfl, .inl rfl⟩

theorem recoverAvailable_returns (h : Returns recoverAvailable v r v') :
    r = .ok () ∧ ∃ n s, v' = (v.ticks n).setState s := by
  replace h := h.get_bind
  split at h
  · obtain ⟨rfl, rfl | rfl⟩ := withAllocation_returns h
    · exact ⟨rfl, 1, v.info.state, rfl⟩
    split
    · exact ⟨rfl, 1, .available, rfl⟩
    · exact ⟨rfl, 1, v.info.state, rfl⟩
  · obtain ⟨rfl, rfl⟩ := h.pure
    exact ⟨rfl, 0, v'.info.state, rfl⟩

theorem deleteNeedleAtomic_returns {size : Nat} {r : Result (Option NeedleInfo)}
    (h : Returns (deleteNeedleAtomic id size) v r v') :
    ((∃ n, v' = v.ticks n) ∧
      ((∃ e, r = .error e) ∨ (r = .ok none ∧ v.index.needles.lookup id = none))) ∨
    (∃ info now n, v.index.needles.lookup id = some info ∧ r = .ok (some info) ∧
      v' = (v.ticks n).setIndex (v.index.removed id (VolumeMetadata.buried info now)
        (v.index.getAllocation.afterDelete info size now))) := by
  rcases dbRead_bind h with ⟨_, h⟩ | ⟨_, rfl, rfl⟩
  case inr => exact .inl ⟨⟨1, rfl⟩, .inl ⟨_, rfl⟩⟩
  split at h
  case h_1 hnone =>
    obtain ⟨rfl, rfl⟩ := h.pure
    exact .inl ⟨⟨1, rfl⟩, .inr ⟨rfl, hnone⟩⟩
  case h_2 info hinfo =>
    rcases dbRead_bind (utcNow_bind h) with ⟨_, h⟩ | ⟨_, rfl, rfl⟩
    case inr => exact .inl ⟨⟨3, rfl⟩, .inl ⟨_, rfl⟩⟩
    rcases dbWrite_bind h with ⟨_, h⟩ | ⟨_, rfl, rfl⟩
    case inr => exact .inl ⟨⟨4, rfl⟩, .inl ⟨_, rfl⟩⟩
    obtain ⟨rfl, rfl⟩ := h.pure
    exact .inr ⟨info, _, 4, hinfo, rfl, rfl⟩

/-- A delete has moved the entry to the deleted family. -/
def buriedState (v : Volume) (id : Nat) (info : NeedleInfo) (now : Int) : Volume :=
  v.setIndex (v.index.removed id (VolumeMetadata.buried info now)
    (v.index.getAllocation.afterDelete info v.info.size now))

/-- A delete may have made the volume available again, and notes the used bytes. -/
def Settled (v v' : Volume) : Prop := ∃ n s u, v' = (((v.ticks n).setState s).setUsed u)

/-- The part behind the checks. -/
theorem removeNeedle_returns
    (h : Returns (removeNeedle id) v r v') (hold : v.index.needles.lookup id = some info) :
    (∃ e n, r = .error e ∧ v' = v.ticks n) ∨
    (∃ now, r = .ok () ∧ Settled (buriedState v id info now) v') := by
  obtain ⟨r₀, v₁, hdel, h⟩ := h.get_bind.parts
  rcases deleteNeedleAtomic_returns hdel with
    ⟨⟨n, rfl⟩, ⟨e, rfl⟩ | ⟨_, hnone⟩⟩ | ⟨info', now, n, hinfo, rfl, rfl⟩
  · obtain ⟨rfl, rfl⟩ := h
    exact .inl ⟨e, n, rfl, rfl⟩
  · rw [hold] at hnone
    cases hnone
  rw [hold] at hinfo
  cases hinfo
  refine .inr ⟨now, ?_⟩
  obtain ⟨r₁, v₂, hfull, h⟩ := h.ok.parts
  obtain ⟨rfl, k, s, rfl⟩ := recoverAvailable_returns hfull
  obtain ⟨rfl, rfl | rfl⟩ := withAllocation_returns h.ok
  · exact ⟨rfl, n + k + 1, s, v.info.used, by
      simp [Volume.ticks, Volume.setIndex, Volume.setState, Volume.setUsed, buriedState,
        Nat.add_assoc]⟩
  · exact ⟨rfl, n + k + 1, s, _, by
      simp [Volume.ticks, Volume.setIndex, Volume.setState, Volume.setUsed, buriedState,
        Nat.add_assoc]; rfl⟩

/-- **How a delete ends.** The dirty entry of the needle is gone in any case. -/
theorem deleteNeedle_returns (h : Returns (deleteNeedle id) v r v') :
    (∃ e n, r = .error e ∧ v' = (v.discard Env.capacity id).ticks n) ∨
    (∃ info now n, v.index.needles.lookup id = some info ∧
      (∀ t, info.wormRetentionUntil = some t → t ≤ utc (v.calls + 1)) ∧ r = .ok () ∧
      Settled (buriedState ((v.discard Env.capacity id).ticks n) id info now) v') := by
  replace h := indexGet_bind h.modify_bind
  split at h
  case h_1 hseen =>
    obtain ⟨rfl, rfl⟩ := h.fail
    exact .inl ⟨_, 1, rfl, rfl⟩
  case h_2 info hseen =>
    have hold : v.index.needles.lookup id = some info := seen_lookup hseen
    split at h
    case isTrue hdel =>
      obtain ⟨rfl, rfl⟩ := h.fail
      exact .inl ⟨_, 1, rfl, rfl⟩
    case isFalse hdel =>
      split at h
      case h_1 hworm =>
        rcases removeNeedle_returns h hold with ⟨e, n, rfl, rfl⟩ | ⟨now, rfl, hset⟩
        · exact .inl ⟨e, 1 + n, rfl, ticks_ticks _ 1 n⟩
        refine .inr ⟨info, now, 1, hold, fun t ht => ?_, rfl, hset⟩
        rw [hworm] at ht
        cases ht
      case h_2 t hworm =>
        replace h := utcNow_bind h
        split at h
        case isTrue hlt =>
          obtain ⟨rfl, rfl⟩ := h.fail
          exact .inl ⟨_, 2, rfl, ticks_ticks _ 1 1⟩
        case isFalse hle =>
          rw [ticks_ticks] at h
          rcases removeNeedle_returns h hold with ⟨e, n, rfl, rfl⟩ | ⟨now, rfl, hset⟩
          · exact .inl ⟨e, 2 + n, rfl, ticks_ticks _ 2 n⟩
          refine .inr ⟨info, now, 2, hold, fun t' ht => ?_, rfl, hset⟩
          rw [hworm] at ht
          cases ht
          exact not_lt.mp hle

theorem restoreNeedleAtomic_returns {size : Nat} {r : Result (Option NeedleInfo)}
    (h : Returns (restoreNeedleAtomic id size) v r v') :
    ((∃ n, v' = v.ticks n) ∧ ((∃ e, r = .error e) ∨ r = .ok none)) ∨
    (∃ info now n, v.index.deleted.lookup id = some info ∧
      r = .ok (some (VolumeMetadata.revived info)) ∧
      v' = (v.ticks n).setIndex (v.index.restored id (VolumeMetadata.revived info)
        (v.index.getAllocation.afterRestore info size now))) := by
  rcases dbRead_bind h with ⟨_, h⟩ | ⟨_, rfl, rfl⟩
  case inr => exact .inl ⟨⟨1, rfl⟩, .inl ⟨_, rfl⟩⟩
  split at h
  case h_1 =>
    obtain ⟨rfl, rfl⟩ := h.pure
    exact .inl ⟨⟨1, rfl⟩, .inr rfl⟩
  case h_2 info hinfo =>
    rcases dbRead_bind (utcNow_bind h) with ⟨_, h⟩ | ⟨_, rfl, rfl⟩
    case inr => exact .inl ⟨⟨3, rfl⟩, .inl ⟨_, rfl⟩⟩
    rcases dbWrite_bind h with ⟨_, h⟩ | ⟨_, rfl, rfl⟩
    case inr => exact .inl ⟨⟨4, rfl⟩, .inl ⟨_, rfl⟩⟩
    obtain ⟨rfl, rfl⟩ := h.pure
    exact .inr ⟨info, _, 4, hinfo, rfl, rfl⟩

/-- A restore has moved the entry back. -/
def revivedState (v : Volume) (id : Nat) (info : NeedleInfo) (now : Int) : Volume :=
  v.setIndex (v.index.restored id (VolumeMetadata.revived info)
    (v.index.getAllocation.afterRestore info v.info.size now))

/-- **How a restore ends.** -/
theorem restoreNeedle_returns (h : Returns (restoreNeedle id) v r v') :
    (∃ n, v' = v.ticks n) ∨
    (∃ info now n, v.index.deleted.lookup id = some info ∧
      v' = revivedState (v.ticks n) id info now) := by
  obtain ⟨r₀, v₁, hres, h⟩ := h.get_bind.parts
  obtain rfl : v' = v₁ := by
    cases r₀ with
    | error e => exact h.2
    | ok old =>
      replace h := h.ok
      split at h
      · exact h.pure.2
      · exact h.fail.2
  rcases restoreNeedleAtomic_returns hres with ⟨⟨n, rfl⟩, _⟩ | ⟨info, now, n, hinfo, _, rfl⟩
  · exact .inl ⟨n, rfl⟩
  · exact .inr ⟨info, now, n, hinfo, rfl⟩

theorem indexInsert_returns (h : Returns (indexInsert info) v r v') :
    r = .ok () ∧ ((fault v.calls = none ∧ v' = (v.ticks 1).setIndex (v.index.putNeedle info)) ∨
      (fault v.calls ≠ none ∧ v' = v.ticks 1)) := by
  obtain ⟨r₀, v₁, hput, h⟩ := h.attempt_bind
  obtain ⟨rfl, rfl⟩ := h.pure
  rcases dbWrite_returns hput with ⟨hq, _, rfl⟩ | ⟨hq, _, rfl⟩
  · exact ⟨rfl, .inl ⟨hq, rfl⟩⟩
  · exact ⟨rfl, .inr ⟨hq, rfl⟩⟩

/-- The end of a retention that begins at a call. -/
def retentionEnd (calls : Nat) (retentionDays : Int) : Int :=
  utc calls + days retentionDays

/-- **How a lock ends.** A failed write to the index is not reported. -/
theorem wormLock_returns {retentionDays : Int} (h : Returns (wormLock id retentionDays) v r v') :
    (∃ e n, r = .error e ∧ v' = v.ticks n) ∨
    (∃ info, v.index.needles.lookup id = some info ∧ info.deletedAt = none ∧ r = .ok () ∧
      ((fault (v.calls + 2) = none ∧ v' = (v.ticks 3).setIndex (v.index.putNeedle
        { info with wormRetentionUntil := some (retentionEnd (v.calls + 1) retentionDays) })) ∨
      (fault (v.calls + 2) ≠ none ∧ v' = v.ticks 3))) := by
  replace h := indexGet_bind h
  split at h
  case h_1 =>
    obtain ⟨rfl, rfl⟩ := h.fail
    exact .inl ⟨_, 1, rfl, rfl⟩
  case h_2 info hseen =>
    split at h
    case isTrue hdel =>
      obtain ⟨rfl, rfl⟩ := h.fail
      exact .inl ⟨_, 1, rfl, rfl⟩
    case isFalse hdel =>
      obtain ⟨rfl, hput⟩ := indexInsert_returns (utcNow_bind h)
      refine .inr ⟨info, seen_lookup hseen, by simpa using hdel, rfl, ?_⟩
      rcases hput with ⟨hq, rfl⟩ | ⟨hq, rfl⟩
      · exact .inl ⟨hq, rfl⟩
      · exact .inr ⟨hq, rfl⟩

/-! ## Purging -/

/-- Entries of the deleted family are gone, and nothing else has changed. -/
def Purged (v : Volume) (d : Table NeedleInfo) (v' : Volume) : Prop :=
  (∀ k info, d.lookup k = some info → v.index.deleted.lookup k = some info) ∧
    ∃ n, v' = (v.ticks n).setIndex { v.index with deleted := d }

omit [Env] in
theorem Purged.refl (v : Volume) : Purged v v.index.deleted v := ⟨fun _ _ h => h, 0, rfl⟩

/-- The loop over the listed entries; when it gets through, it has counted what it took. -/
theorem purgeLoop_returns {now : Int} {items : List (Nat × NeedleInfo)} {purged : Nat}
    {r : Result Nat} (h : Returns (purgeLoop now items purged) v r v')
    (hnodup : (items.map Prod.fst).Nodup)
    (hmem : ∀ e ∈ items, v.index.deleted.lookup e.1 = some e.2) :
    ∃ d, Purged v d v' ∧ ((∃ e, r = .error e ∧ CallFails v v') ∨
      ∃ p, r = .ok (purged + p) ∧ size d + p = size v.index.deleted) := by
  induction items generalizing v purged with
  | nil =>
    obtain ⟨rfl, rfl⟩ := h.pure
    exact ⟨_, .refl v', .inr ⟨0, rfl, rfl⟩⟩
  | cons item items ih =>
    obtain ⟨id, info⟩ := item
    rw [List.map_cons, List.nodup_cons] at hnodup
    have hrest : ∀ e ∈ items, v.index.deleted.lookup e.1 = some e.2 :=
      fun e he => hmem e (List.mem_cons_of_mem _ he)
    unfold purgeLoop at h
    split at h
    case h_2 => exact ih h hnodup.2 hrest
    case h_1 stop hstop =>
      split at h
      case isFalse => exact ih h hnodup.2 hrest
      case isTrue =>
        rcases dbWrite_bind h with ⟨_, h⟩ | ⟨hfault, rfl, rfl⟩
        case inr =>
          exact ⟨_, ⟨fun _ _ h => h, 1, rfl⟩, .inl ⟨_, rfl, _, le_rfl, Nat.lt_succ_self _, hfault⟩⟩
        have hkeep : ∀ e ∈ items, (v.index.deleted.erase id).lookup e.1 = some e.2 := by
          intro e he
          have hne : e.1 ≠ id := fun heq => hnodup.1 (List.mem_map.mpr ⟨e, he, heq⟩)
          rw [Finmap.lookup_erase_ne hne]
          exact hrest e he
        obtain ⟨d, ⟨hsub, n, rfl⟩, hr⟩ := ih h hnodup.2 hkeep
        refine ⟨d, ⟨fun k i hk => lookup_erase_some (hsub k i hk), 1 + n, ?_⟩, ?_⟩
        · rw [← ticks_ticks]
          rfl
        · refine hr.imp (fun ⟨e, hr, hfail⟩ => ⟨e, hr, hfail.within (Nat.le_succ _) le_rfl⟩)
            fun ⟨p, hr, hcount⟩ => ⟨p + 1, ?_, ?_⟩
          · rw [hr, Nat.add_assoc, Nat.add_comm 1 p]
          · have htaken : size v.index.deleted = size (v.index.deleted.erase id) + 1 :=
              size_erase (hmem (id, info) List.mem_cons_self)
            have hcount' : size d + p = size (v.index.deleted.erase id) := hcount
            omega

/-- **How a purge ends.** If it gets through, the deleted count is lowered by what was
taken out. -/
theorem purgeExpiredDeleted_returns {r : Result Nat} (h : Returns purgeExpiredDeleted v r v') :
    ∃ d, (Purged v d v' ∧ (CallFails v v' ∨ size d = size v.index.deleted)) ∨
      ((∀ k info, d.lookup k = some info → v.index.deleted.lookup k = some info) ∧
        ∃ n p now, size d + p = size v.index.deleted ∧
          v' = (v.ticks n).setIndex ⟨v.index.needles, d,
            some (v.index.getAllocation.afterPurge p now)⟩) := by
  rcases dbRead_bind (utcNow_bind h) with ⟨_, h⟩ | ⟨hfault, rfl, rfl⟩
  case inr =>
    exact ⟨_, .inl ⟨⟨fun _ _ h => h, 2, rfl⟩, .inl ⟨_, Nat.le_succ _, Nat.lt_succ_self _, hfault⟩⟩⟩
  obtain ⟨r₀, v₃, hloop, h⟩ := h.parts
  obtain ⟨d, ⟨hsub, n, rfl⟩, ⟨e, rfl, hfail⟩ | ⟨p, rfl, hcount⟩⟩ := purgeLoop_returns hloop
    (toList_nodup_keys _) (fun e he => mem_toList.mp he)
  · obtain ⟨rfl, rfl⟩ := h
    exact ⟨d, .inl ⟨⟨hsub, 2 + n, by rw [← ticks_ticks]; rfl⟩,
      .inl (hfail.within (Nat.le_add_right _ 2) le_rfl)⟩⟩
  rw [Nat.zero_add] at h
  replace h := h.ok
  split at h
  case isFalse hzero =>
    obtain ⟨rfl, rfl⟩ := h.pure
    refine ⟨d, .inl ⟨⟨hsub, 2 + n, by rw [← ticks_ticks]; rfl⟩, .inr ?_⟩⟩
    have hcount' : size d + p = size v.index.deleted := hcount
    omega
  case isTrue hpos =>
    have hlater : v.calls ≤ v.calls + 1 + 1 + n := by omega
    rcases dbRead_bind h with ⟨_, h⟩ | ⟨hfault, rfl, rfl⟩
    case inr =>
      refine ⟨d, .inl ⟨⟨hsub, 2 + n + 1, ?_⟩, .inl ⟨_, hlater, Nat.lt_succ_self _, hfault⟩⟩⟩
      rw [← ticks_ticks, ← ticks_ticks]
      rfl
    rcases dbWrite_bind h with ⟨_, h⟩ | ⟨hfault, rfl, rfl⟩
    case inr =>
      refine ⟨d, .inl ⟨⟨hsub, 2 + n + 1 + 1, ?_⟩,
        .inl ⟨_, hlater.trans (Nat.le_succ _), Nat.lt_succ_self _, hfault⟩⟩⟩
      rw [← ticks_ticks, ← ticks_ticks, ← ticks_ticks]
      rfl
    obtain ⟨rfl, rfl⟩ := h.pure
    refine ⟨d, .inr ⟨hsub, 2 + n + 1 + 1, p, utc v.calls, hcount, ?_⟩⟩
    rw [← ticks_ticks, ← ticks_ticks, ← ticks_ticks]
    rfl

end PowerFS.V1.Requests
