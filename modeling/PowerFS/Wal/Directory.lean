import PowerFS.Wal.Checkpoint
import PowerFS.Wal.Replay
import PowerFS.Wal.Superblocks

/-! # The directory of a volume

The files of a volume: segments in the order of their ids, checkpoints in the order
of their sequence numbers, and the two superblock copies. A checkpoint file that
cannot be loaded has no contents here. `wal/manifest.rs` builds the list of segments
from the segment headers. -/
namespace PowerFS.Wal.Directory
open Lib.ByteString Segment Checkpoint Replay Superblocks

structure Volume where
  segs : List SegFile
  ckpts : List (Nat × Option CkptData)
  superblock : SbCopies

def Volume.fresh : Volume := ⟨[], [], ⟨none, none⟩⟩

/-! ## The segment manifest -/

inductive SegmentState where
  | sealed
  | active
  deriving DecidableEq, Repr

structure SegEntry where
  segId : Nat
  state : SegmentState
  baseLsn : Nat
  volumeId : UInt64
  deriving DecidableEq, Repr

abbrev SegManifest := List SegEntry

namespace SegManifest

def stateOf (h : SegmentHeader) : SegmentState := if h.isSealed then .sealed else .active

def readEntry [Checksum] (f : SegFile) : Except SegmentError SegEntry :=
  if f.bytes.length < segHeaderSize then .error .unexpectedEof
  else match SegmentHeader.decode (slice f.bytes 0 segHeaderSize) with
    | .error e => .error e
    | .ok h =>
      if h.segId.toNat ≠ f.segId then .error (.badFileName f.segId h.segId.toNat)
      else .ok ⟨f.segId, stateOf h, h.baseLsn.toNat, h.volumeId⟩

/-- A segment with a successor counts as sealed, whatever its header says. -/
def normalize : SegManifest → SegManifest
  | [] => []
  | [e] => [e]
  | e :: rest => { e with state := .sealed } :: normalize rest

def load [Checksum] (segs : List SegFile) : Except SegmentError SegManifest :=
  (segs.mapM readEntry).map normalize

def active (m : SegManifest) : Option SegEntry :=
  m.getLast?.filter fun e => decide (e.state = .active)

def nextSegId (m : SegManifest) : Nat :=
  match m.getLast? with
  | some e => e.segId + 1
  | none => 1

/-- The last entry, if it is active, becomes sealed. -/
def sealLast : SegManifest → SegManifest
  | [] => []
  | [e] => [{ e with state := .sealed }]
  | e :: rest => e :: sealLast rest

def register (m : SegManifest) (segId baseLsn : Nat) (volumeId : UInt64) : SegManifest :=
  sealLast m ++ [⟨segId, .active, baseLsn, volumeId⟩]

def markSealed (m : SegManifest) (segId : Nat) : SegManifest :=
  m.map fun e => if e.segId = segId then { e with state := .sealed } else e

def remove (m : SegManifest) (segId : Nat) : SegManifest :=
  m.filter fun e => decide (e.segId ≠ segId)

end SegManifest

/-! ## Checkpoint files -/

/-- The newest checkpoint that can be loaded. -/
def newestCkpt (ckpts : List (Nat × Option CkptData)) : Option (Nat × CkptData) :=
  ckpts.reverse.findSome? fun c => c.2.map fun data => (c.1, data)

def latestSeq (ckpts : List (Nat × Option CkptData)) : Option Nat := ckpts.getLast?.map (·.1)

/-- A new checkpoint file among those there are. -/
def insertCkpt (ckpts : List (Nat × Option CkptData)) (seq : Nat) (data : CkptData) :
    List (Nat × Option CkptData) :=
  (ckpts.filter fun c => decide (c.1 < seq)) ++ (seq, some data) ::
    ckpts.filter fun c => decide (seq < c.1)

theorem mem_insertCkpt {ckpts : List (Nat × Option CkptData)} {seq : Nat} {data : CkptData}
    {c : Nat × Option CkptData} (h : c ∈ insertCkpt ckpts seq data) :
    c ∈ ckpts ∨ c = (seq, some data) := by
  rcases List.mem_append.mp h with h | h
  · exact .inl (List.mem_filter.mp h).1
  rcases List.mem_cons.mp h with h | h
  · exact .inr h
  · exact .inl (List.mem_filter.mp h).1

/-- The checkpoint was taken behind `maxLsn`. -/
def isFuture (maxLsn : Nat) (c : Nat × Option CkptData) : Bool :=
  match c.2 with
  | some data => decide (maxLsn < data.header.appliedLsn)
  | none => false

/-- Delete the checkpoints behind `maxLsn`; the files left and the numbers deleted. -/
def removeFutureCkpts (ckpts : List (Nat × Option CkptData)) (maxLsn : Nat) :
    List (Nat × Option CkptData) × List Nat :=
  (ckpts.filter fun c => !isFuture maxLsn c, (ckpts.filter (isFuture maxLsn)).map (·.1))

end PowerFS.Wal.Directory
