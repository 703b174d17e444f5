import PowerFS.Lib.Crc32c
import PowerFS.Wal.Frame

/-! # The superblock

`wal/superblock.rs`: 128 bytes in two files that are written in turn. Loading takes
the readable copy with the larger sequence number; storing replaces the older one.
A copy is the bytes of its file, or nothing if the file does not exist.

`none` is a panic: the slice of the stored checksum has four bytes only if the file
has 128. -/
namespace PowerFS.Wal.Superblocks
open Lib.ByteString List Checksum

def sbSize : Nat := 128
/-- "PFWLSB\0\0" -/
def sbMagic : Bytes := [0x50, 0x46, 0x57, 0x4C, 0x53, 0x42, 0x00, 0x00]
def sbFormatVer : Nat := 1
def sbCrcOff : Nat := sbSize - 4

structure Superblock where
  seq : UInt64
  volumeId : UInt64
  latestCkptSeq : UInt64
  activeSegId : UInt64
  activeSegSize : UInt64
  volumeSize : UInt64
  state : UInt8
  createdTs : Int64
  lastMountTs : Int64
  minLiveSnapshotLsn : UInt64
  deriving DecidableEq, Repr

inductive SbError where
  | notFound
  | bothCorrupt (reason : String)
  deriving DecidableEq, Repr

section Copies

variable [Checksum]

namespace Superblock

/-- Bytes `[0..124)`, which the checksum covers. -/
def fieldPart (sb : Superblock) : Bytes :=
  sbMagic ++ (toLE 2 sbFormatVer ++ (toLE 8 sb.seq.toNat ++ (toLE 8 sb.volumeId.toNat ++
    (toLE 8 sb.latestCkptSeq.toNat ++ (toLE 8 sb.activeSegId.toNat ++
    (toLE 8 sb.activeSegSize.toNat ++ (toLE 8 sb.volumeSize.toNat ++ ([sb.state] ++
    (toLE 8 sb.createdTs.toUInt64.toNat ++ (toLE 8 sb.lastMountTs.toUInt64.toNat ++
    (toLE 8 sb.minLiveSnapshotLsn.toNat ++ zeros 41)))))))))))

def encode (sb : Superblock) : Bytes :=
  sb.fieldPart ++ toLE 4 (crc32c sb.fieldPart).toNat

def decode (raw : Bytes) : Option (Except String Superblock) :=
  if raw.length < sbSize then some (.error "truncated")
  else if slice raw 0 8 ≠ sbMagic then some (.error "bad magic")
  else if ofLE (slice raw 8 10) ≠ sbFormatVer then some (.error "unsupported version")
  else if raw.length ≠ sbSize then none
  else
    let expect := UInt32.ofNat (ofLE (slice raw sbCrcOff sbSize))
    let got := crc32c (slice raw 0 sbCrcOff)
    if expect ≠ got then some (.error "crc mismatch")
    else some (.ok {
      seq := UInt64.ofNat (ofLE (slice raw 10 18))
      volumeId := UInt64.ofNat (ofLE (slice raw 18 26))
      latestCkptSeq := UInt64.ofNat (ofLE (slice raw 26 34))
      activeSegId := UInt64.ofNat (ofLE (slice raw 34 42))
      activeSegSize := UInt64.ofNat (ofLE (slice raw 42 50))
      volumeSize := UInt64.ofNat (ofLE (slice raw 50 58))
      state := raw.getD 58 0
      createdTs := (UInt64.ofNat (ofLE (slice raw 59 67))).toInt64
      lastMountTs := (UInt64.ofNat (ofLE (slice raw 67 75))).toInt64
      minLiveSnapshotLsn := UInt64.ofNat (ofLE (slice raw 75 83)) })

end Superblock

/-- The files `superblock.a` and `superblock.b`. -/
structure SbCopies where
  a : Option Bytes
  b : Option Bytes
  deriving DecidableEq

/-- Read one copy. A missing file and an undecodable one both give nothing. -/
def readCopy : Option Bytes → Option (Option Superblock)
  | none => some none
  | some raw => match Superblock.decode raw with
    | none => none
    | some (.ok sb) => some (some sb)
    | some (.error _) => some none

namespace SbCopies

def load (c : SbCopies) : Option (Except SbError Superblock) :=
  match readCopy c.a, readCopy c.b with
  | some (some x), some (some y) => some (.ok (if y.seq ≤ x.seq then x else y))
  | some (some x), some none => some (.ok x)
  | some none, some (some y) => some (.ok y)
  | some none, some none =>
    -- a file that exists was written once, so it is damaged
    if c.a.isSome ∨ c.b.isSome then
      some (.error (.bothCorrupt "copies exist but none decodable"))
    else some (.error .notFound)
  | _, _ => none

/-- Replace the older copy; a missing one first. -/
def store (c : SbCopies) (sb : Superblock) : Option SbCopies :=
  match readCopy c.a, readCopy c.b with
  | some (some x), some (some y) =>
    if y.seq < x.seq then some { c with b := some sb.encode }
    else some { c with a := some sb.encode }
  | some (some _), some none => some { c with b := some sb.encode }
  | some none, some (some _) => some { c with a := some sb.encode }
  | some none, some none => some { c with a := some sb.encode }
  | _, _ => none

end SbCopies

/-! ## Round trip -/

open Superblock

omit [Checksum] in
theorem fieldPart_length (sb : Superblock) : sb.fieldPart.length = sbCrcOff := by
  simp [fieldPart, sbMagic, sbCrcOff, sbSize]

theorem encode_length (sb : Superblock) : sb.encode.length = sbSize := by
  simp [encode, fieldPart_length, sbCrcOff, sbSize]

omit [Checksum] in
theorem slice_fieldPart (sb : Superblock) :
    slice sb.fieldPart 0 8 = sbMagic ∧ slice sb.fieldPart 8 10 = toLE 2 sbFormatVer ∧
    slice sb.fieldPart 10 18 = toLE 8 sb.seq.toNat ∧
    slice sb.fieldPart 18 26 = toLE 8 sb.volumeId.toNat ∧
    slice sb.fieldPart 26 34 = toLE 8 sb.latestCkptSeq.toNat ∧
    slice sb.fieldPart 34 42 = toLE 8 sb.activeSegId.toNat ∧
    slice sb.fieldPart 42 50 = toLE 8 sb.activeSegSize.toNat ∧
    slice sb.fieldPart 50 58 = toLE 8 sb.volumeSize.toNat ∧
    slice sb.fieldPart 58 59 = [sb.state] ∧
    slice sb.fieldPart 59 67 = toLE 8 sb.createdTs.toUInt64.toNat ∧
    slice sb.fieldPart 67 75 = toLE 8 sb.lastMountTs.toUInt64.toNat ∧
    slice sb.fieldPart 75 83 = toLE 8 sb.minLiveSnapshotLsn.toNat := by
  unfold fieldPart
  have hmagic : sbMagic.length = 8 := rfl
  have hbyte : ∀ (x : UInt8) (bs : Bytes), slice (x :: bs) 0 1 = [x] := fun _ _ => rfl
  refine ⟨?_, ?_, ?_, ?_, ?_, ?_, ?_, ?_, ?_, ?_, ?_, ?_⟩ <;>
    simp [slice_skip, slice_head, hmagic, slice_cons, hbyte]

theorem decode_encode (sb : Superblock) : decode sb.encode = some (.ok sb) := by
  obtain ⟨h1, h2, h3, h4, h5, h6, h7, h8, h9, h10, h11, h12⟩ := slice_fieldPart sb
  have hleft : ∀ i j, j ≤ 124 → slice sb.encode i j = slice sb.fieldPart i j := by
    intro i j hj
    exact slice_left (by rw [fieldPart_length]; exact hj)
  have hcrc : slice sb.encode 124 128 = toLE 4 (crc32c sb.fieldPart).toNat := by
    rw [encode, slice_skip (by simp [fieldPart_length, sbCrcOff, sbSize])]
    simp [slice, fieldPart_length, sbCrcOff, sbSize]
  have hfield : slice sb.fieldPart 0 124 = sb.fieldPart := by
    have := slice_self sb.fieldPart
    rwa [fieldPart_length] at this
  have hstate : sb.encode.getD 58 0 = sb.state := by
    have := congrArg (getD · 0 0) (hleft 58 59 (by omega))
    rw [h9] at this
    simpa [slice] using this
  have hver : ofLE (toLE 2 sbFormatVer) = sbFormatVer := by decide
  unfold decode
  simp only [encode_length, Nat.lt_irrefl, if_false, sbCrcOff, sbSize, hcrc, hstate,
    hleft 0 8 (by omega), hleft 8 10 (by omega), hleft 10 18 (by omega), hleft 18 26 (by omega),
    hleft 26 34 (by omega), hleft 34 42 (by omega), hleft 42 50 (by omega),
    hleft 50 58 (by omega), hleft 59 67 (by omega), hleft 67 75 (by omega),
    hleft 75 83 (by omega), hleft 0 124 (by omega), hfield, h1, h2, h3, h4, h5, h6, h7, h8, h10,
    h11, h12, hver, ofLE_toLE_u64, ofLE_toLE_u32, UInt64.ofNat_toNat, UInt32.ofNat_toNat]
  simp

/-! ## What was stored last is loaded -/

/-- Two copies that were written whole, or not at all. -/
def SbCopies.ofPair (x y : Option Superblock) : SbCopies :=
  ⟨x.map Superblock.encode, y.map Superblock.encode⟩

theorem readCopy_encode (x : Option Superblock) : readCopy (x.map encode) = some x := by
  cases x with
  | none => rfl
  | some sb => simp [readCopy, decode_encode]

/-- What the two copies hold. A copy that cannot be decoded holds nothing. -/
def Reads (c : SbCopies) (x y : Option Superblock) : Prop :=
  readCopy c.a = some x ∧ readCopy c.b = some y

theorem reads_ofPair (x y : Option Superblock) : Reads (.ofPair x y) x y :=
  ⟨readCopy_encode x, readCopy_encode y⟩

section Newer

variable {c : SbCopies} {x y : Option Superblock} {sb : Superblock}

theorem load_left (h : Reads c (some sb) y) (hy : ∀ z, y = some z → z.seq ≤ sb.seq) :
    c.load = some (.ok sb) := by
  unfold SbCopies.load
  rw [h.1, h.2]
  cases y with
  | none => rfl
  | some y =>
    dsimp only
    rw [if_pos (hy y rfl)]

theorem load_right (h : Reads c x (some sb)) (hx : ∀ z, x = some z → z.seq < sb.seq) :
    c.load = some (.ok sb) := by
  unfold SbCopies.load
  rw [h.1, h.2]
  cases x with
  | none => rfl
  | some x =>
    dsimp only
    rw [if_neg (UInt64.not_le.mpr (hx x rfl))]

/-- The new copy goes to one side; the other side keeps what it had. -/
theorem store_reads (h : Reads c x y) (sb : Superblock) :
    c.store sb = some { c with a := some sb.encode } ∨
    c.store sb = some { c with b := some sb.encode } := by
  unfold SbCopies.store
  rw [h.1, h.2]
  rcases x with _ | x <;> rcases y with _ | y
  · exact .inl rfl
  · exact .inl rfl
  · exact .inr rfl
  dsimp only
  split
  · exact .inr rfl
  · exact .inl rfl

/-- Where every copy is older, what is stored is what is loaded. -/
theorem store_loads (h : Reads c x y) (hx : ∀ z, x = some z → z.seq < sb.seq)
    (hy : ∀ z, y = some z → z.seq < sb.seq) :
    ∃ c', c.store sb = some c' ∧ c'.load = some (.ok sb) ∧
      (c' = { c with a := some sb.encode } ∧ Reads c' (some sb) y ∨
        c' = { c with b := some sb.encode } ∧ Reads c' x (some sb)) := by
  have hnew : readCopy (some sb.encode) = some (some sb) :=
    readCopy_encode (some sb)
  rcases store_reads h sb with hs | hs
  · have hreads : Reads { c with a := some sb.encode } (some sb) y := ⟨hnew, h.2⟩
    exact ⟨_, hs, load_left hreads fun z hz => UInt64.le_of_lt (hy z hz), .inl ⟨rfl, hreads⟩⟩
  · have hreads : Reads { c with b := some sb.encode } x (some sb) := ⟨h.1, hnew⟩
    exact ⟨_, hs, load_right hreads hx, .inr ⟨rfl, hreads⟩⟩

end Newer

/-- `sb` is the newest of the copies on disk, all of which are whole. -/
structure Newest (c : SbCopies) (sb : Superblock) : Prop where
  loads : c.load = some (.ok sb)
  whole : ∃ x y, c = .ofPair x y ∧ (∀ z, x = some z → z.seq ≤ sb.seq) ∧
    ∀ z, y = some z → z.seq ≤ sb.seq

/-- Storing a superblock with a larger sequence number succeeds, and loading returns it. -/
theorem store_newest (x y : Option Superblock) (sb : Superblock)
    (hx : ∀ z, x = some z → z.seq < sb.seq) (hy : ∀ z, y = some z → z.seq < sb.seq) :
    ∃ c, (SbCopies.ofPair x y).store sb = some c ∧ Newest c sb := by
  have hself : ∀ z, some sb = some z → z.seq ≤ sb.seq := by
    rintro z ⟨⟩
    exact UInt64.le_refl _
  obtain ⟨c, hs, hload, ⟨rfl, _⟩ | ⟨rfl, _⟩⟩ := store_loads (reads_ofPair x y) hx hy
  · exact ⟨_, hs, hload, some sb, y, rfl, hself, fun z hz => UInt64.le_of_lt (hy z hz)⟩
  · exact ⟨_, hs, hload, x, some sb, rfl, fun z hz => UInt64.le_of_lt (hx z hz), hself⟩

/-! ## Stores that are cut off -/

/-- How far a store gets. -/
inductive Reach where
  | beforeRename
  | renamed
  | completed
  deriving DecidableEq

structure Attempt where
  sb : Superblock
  reach : Reach

/-- A store that is cut off before the rename has looked at both copies, and has written a
file that nobody reads. -/
def SbCopies.attempt (c : SbCopies) (t : Attempt) : Option SbCopies :=
  (c.store t.sb).map fun c' => if t.reach = .beforeRename then c else c'

def SbCopies.attempts (c : SbCopies) : List Attempt → Option SbCopies
  | [] => some c
  | t :: ts => (c.attempt t).bind fun c' => c'.attempts ts

/-- What a load has to return: the superblock that was renamed last, or what it returned
before. -/
def lastRenamed (out : Except SbError Superblock) (ts : List Attempt) : Except SbError Superblock :=
  ts.foldl (fun out t => if t.reach = .beforeRename then out else .ok t.sb) out

/-- Sequence numbers go up, from those of the copies that can be read. -/
structure Rising (c : SbCopies) (ts : List Attempt) : Prop where
  left : ∀ z, readCopy c.a = some (some z) → ∀ t ∈ ts, z.seq < t.sb.seq
  right : ∀ z, readCopy c.b = some (some z) → ∀ t ∈ ts, z.seq < t.sb.seq
  sorted : ts.Pairwise fun s t => s.sb.seq < t.sb.seq

/-- The stores return, and so do loads before and after them. -/
def Survives (c : SbCopies) (ts : List Attempt) : Prop :=
  ∃ c' out, c.attempts ts = some c' ∧ c.load = some out ∧
    c'.load = some (lastRenamed out ts)

/-- A file that starts as a superblock and goes on behind its end. -/
def Overlong (raw : Option Bytes) : Prop :=
  ∃ bytes, raw = some bytes ∧ slice bytes 0 8 = sbMagic ∧
    ofLE (slice bytes 8 10) = sbFormatVer ∧ sbSize < bytes.length

section CutOff

variable {c : SbCopies}

theorem readCopy_panics_iff {raw : Option Bytes} : readCopy raw = none ↔ Overlong raw := by
  unfold readCopy Overlong
  cases raw with
  | none => exact ⟨nofun, nofun⟩
  | some raw =>
    unfold decode
    constructor
    · intro h
      by_cases hmagic : slice raw 0 8 = sbMagic
      · by_cases hver : ofLE (slice raw 8 10) = sbFormatVer
        · refine ⟨raw, rfl, hmagic, hver, ?_⟩
          by_contra hlen
          grind
        · grind
      · grind
    · rintro ⟨_, ⟨⟩, hmagic, hver, hlen⟩
      dsimp only
      rw [if_neg (by omega), if_neg (not_not.mpr hmagic), if_neg (not_not.mpr hver),
        if_pos (by omega)]

theorem load_returns {x y : Option Superblock} (h : Reads c x y) : ∃ out, c.load = some out := by
  unfold SbCopies.load
  rw [h.1, h.2]
  rcases x with _ | x <;> rcases y with _ | y
  · exact ⟨_, (apply_ite some ..).symm⟩
  all_goals exact ⟨_, rfl⟩

-- the newest copy is never the one that is replaced
theorem attempt_rising {x y : Option Superblock} {t : Attempt} {ts : List Attempt}
    {out : Except SbError Superblock} (h : Reads c x y) (hr : Rising c (t :: ts))
    (hload : c.load = some out) :
    ∃ c' x' y', c.attempt t = some c' ∧ Reads c' x' y' ∧ Rising c' ts ∧
      c'.load = some (lastRenamed out [t]) := by
  obtain ⟨hlater, hsorted⟩ := pairwise_cons.mp hr.sorted
  have hleft z hz u hu := hr.left z hz u (mem_cons_of_mem t hu)
  have hright z hz u hu := hr.right z hz u (mem_cons_of_mem t hu)
  obtain ⟨c', hs, hnew, hreads⟩ := @store_loads _ c x y t.sb h
    (fun z hz => hr.left z (h.1.trans (congrArg some hz)) t mem_cons_self)
    (fun z hz => hr.right z (h.2.trans (congrArg some hz)) t mem_cons_self)
  unfold SbCopies.attempt lastRenamed
  rw [hs]
  by_cases hcut : t.reach = .beforeRename
  · refine ⟨c, x, y, congrArg some (if_pos hcut), h, ⟨hleft, hright, hsorted⟩, ?_⟩
    rw [hload, foldl_cons, if_pos hcut, foldl_nil]
  have hattempt := congrArg some (if_neg hcut : (if t.reach = .beforeRename then c else c') = c')
  have hfound : c'.load = some ([t].foldl (fun out t =>
      if t.reach = .beforeRename then out else .ok t.sb) out) := by
    rw [hnew, foldl_cons, if_neg hcut, foldl_nil]
  have hself z (hz : some (some t.sb) = some (some z)) : ∀ u ∈ ts, z.seq < u.sb.seq := by
    cases hz
    exact hlater
  rcases hreads with ⟨rfl, hreads⟩ | ⟨rfl, hreads⟩
  · exact ⟨_, _, _, hattempt, hreads,
      ⟨fun z hz => hself z (hreads.1.symm.trans hz), hright, hsorted⟩, hfound⟩
  · exact ⟨_, _, _, hattempt, hreads,
      ⟨hleft, fun z hz => hself z (hreads.2.symm.trans hz), hsorted⟩, hfound⟩

theorem survives_of_rising {ts : List Attempt} :
    ∀ {c x y}, Reads c x y → Rising c ts → Survives c ts := by
  induction ts with
  | nil =>
    intro c x y h _
    obtain ⟨out, hload⟩ := load_returns h
    exact ⟨c, out, rfl, hload, hload⟩
  | cons t ts ih =>
    intro c x y h hr
    obtain ⟨out, hload⟩ := load_returns h
    obtain ⟨c', x', y', hc, hreads, hrise, hnext⟩ := attempt_rising h hr hload
    obtain ⟨d, out', hd, hout, hlast⟩ := ih hreads hrise
    cases hnext.symm.trans hout
    refine ⟨d, out, ?_, hload, hlast⟩
    rw [SbCopies.attempts, hc]
    exact hd

end CutOff

/-- **Stores of rising sequence numbers, each cut off anywhere, keep the newest superblock,
whatever the copies held before — unless one of them was longer than a superblock.** Such a
copy is not a damaged one to `decode`: it panics on it. -/
theorem rotation_survives_iff (c : SbCopies) :
    (∀ ts, Rising c ts → Survives c ts) ↔ ¬ Overlong c.a ∧ ¬ Overlong c.b := by
  simp only [← @readCopy_panics_iff]
  constructor
  · intro h
    obtain ⟨_, out, _, hload, _⟩ := h [] ⟨nofun, nofun, .nil⟩
    unfold SbCopies.load at hload
    exact ⟨fun hn => by simp [hn] at hload, fun hn => by simp [hn] at hload⟩
  · intro h ts
    obtain ⟨x, hx⟩ := Option.ne_none_iff_exists'.mp h.1
    obtain ⟨y, hy⟩ := Option.ne_none_iff_exists'.mp h.2
    exact survives_of_rising ⟨hx, hy⟩

end Copies

local instance : Checksum := ⟨Lib.Crc32c.crc32c⟩

/-- A copy with one byte too many: the next store panics on it. -/
theorem overlong_copy_panics :
    let sb : Superblock := ⟨1, 0, 0, 0, 0, 0, 0, 0, 0, 0⟩
    let c : SbCopies := ⟨some (sb.encode ++ [0]), none⟩
    Rising c [⟨{ sb with seq := 2 }, .completed⟩] ∧ c.store { sb with seq := 2 } = none ∧
      c.load = none := by
  intro sb c
  have hread : readCopy (some (sb.encode ++ [0])) = none :=
    readCopy_panics_iff.mpr ⟨_, rfl, rfl, rfl, by simp [encode_length]⟩
  refine ⟨⟨fun z hz => ?_, nofun, pairwise_singleton ..⟩, ?_, ?_⟩
  · cases hread.symm.trans hz
  · rw [SbCopies.store, hread]
  · rw [SbCopies.load, hread]

end PowerFS.Wal.Superblocks
