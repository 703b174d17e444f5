import PowerFS.Wal.Index
import PowerFS.Wal.SegmentScan

/-! # Replay

`wal/replay.rs`: scan all segments in order, apply their records to an index, and
deal with torn tails and broken chains as the recovery mode says. The directory is
the list of segment files in the order of the manifest. How reads cut a file and
what the clock shows are parameters. -/
namespace PowerFS.Wal.Replay
open Lib.ByteString Lib.FinTable Wal.Frame Segment SegmentScan Index

inductive RecoveryMode where
  | tolerateTail
  | pointInTime
  | absolute
  deriving DecidableEq, Repr

inductive ReplayError where
  | segment (segId : Nat) (source : SegmentError)
  | corrupt (segId offset : Nat) (source : FrameError)
  | tornNonTail (segId offset : Nat)
  | lsnRegression (segId prev got : Nat)
  | malformedPayload (segId lsn : Nat) (rtype : UInt8)
  deriving DecidableEq, Repr

inductive StopReason where
  | tornNonTail
  | corrupt
  | lsnRegression
  | malformedPayload
  deriving DecidableEq, Repr

structure StopPoint where
  segId : Nat
  offset : Nat
  reason : StopReason
  deriving DecidableEq, Repr

structure SegFile where
  segId : Nat
  bytes : Bytes
  deriving DecidableEq

structure ReplayResult where
  index : WalIndex
  framesReplayed : Nat
  framesSkipped : Nat
  truncated : Table Nat
  stop : Option StopPoint
  abandoned : List Nat
  segmentsScanned : Nat
  /-- The directory that replay leaves. -/
  files : List SegFile

/-- How the body of each segment file is cut into reads. -/
structure ReadSplit where
  split : Nat → Bytes → List Bytes
  join : ∀ segId body, (split segId body).flatten = body
  nonempty : ∀ segId body, ∀ c ∈ split segId body, c ≠ []

/-- One read for the whole body. -/
def ReadSplit.whole : ReadSplit where
  split _ body := if body = [] then [] else [body]
  join _ body := by
    by_cases h : body = [] <;> simp [h]
  nonempty _ body := by
    by_cases h : body = [] <;> simp [h]

def placeOf (segId : Nat) (m : FrameMeta) : WalIndex.Place := ⟨segId, m.offset, m.crc, m.lsn.toNat⟩

def malformed (segId : Nat) (m : FrameMeta) : ReplayError :=
  .malformedPayload segId m.lsn.toNat m.rtype.toU8

/-- Report a failed operation of the index as a malformed payload. -/
def reportAs {α : Type} (e : ReplayError) (out : WalIndex × Except IndexError α) :
    WalIndex × Except ReplayError Unit :=
  match out.2 with
  | .ok _ => (out.1, .ok ())
  | .error _ => (out.1, .error e)

def applyFrame (index : WalIndex) (segId : Nat) (f : ScannedFrame) (now : Int64) :
    WalIndex × Except ReplayError Unit :=
  let err := malformed segId f.fmeta
  let lsn := f.fmeta.lsn.toNat
  match f.fmeta.rtype with
  | .pad => (index, .ok ())
  | .data => reportAs err (index.applyData (placeOf segId f.fmeta) f.payload now)
  | .delete => reportAs err (index.applyDelete lsn f.payload)
  | .ckptAnchor =>
    if f.payload.length = 16 then
      (index.applyCkptAnchor (ofLE (slice f.payload 0 8)) (ofLE (slice f.payload 8 16)) lsn, .ok ())
    else (index, .error err)
  | .gcMigrate => reportAs err (index.applyGcMigrate (placeOf segId f.fmeta) f.payload now)
  | .tombPurge => reportAs err (index.applyTombPurge lsn f.payload)
  | .attr | .snapTake | .snapDrop => (index, .ok ())
  | .volumeMeta => reportAs err (index.applyVolumeMeta lsn f.payload)

structure ReplayState where
  index : WalIndex
  framesReplayed : Nat
  framesSkipped : Nat
  truncated : Table Nat
  stop : Option StopPoint
  files : List SegFile

/-- Cut a segment file to `len` bytes. -/
def truncateSegment (files : List SegFile) (segId len : Nat) : List SegFile :=
  files.map fun f => if f.segId = segId then { f with bytes := f.bytes.take len } else f

def ReplayState.truncate (st : ReplayState) (segId len : Nat) : ReplayState :=
  { st with
    truncated := st.truncated.insert segId len
    files := truncateSegment st.files segId len }

def ReplayState.stopAt (st : ReplayState) (segId offset : Nat) (reason : StopReason) :
    ReplayState :=
  { st.truncate segId offset with stop := some ⟨segId, offset, reason⟩ }

/-- Go on, or leave all loops. -/
inductive Flow where
  | next (st : ReplayState)
  | halt (st : ReplayState)

/-- Behind a segment: go on with the next one, unless the loops were left. -/
def afterSegment (out : Except ReplayError Flow)
    (go : ReplayState → Except ReplayError ReplayState) : Except ReplayError ReplayState :=
  match out with
  | .error e => .error e
  | .ok (.halt st) => .ok st
  | .ok (.next st) => go st

section Replay

variable [Checksum] (reads : ReadSplit) (clock : Nat → Int64)
  (mode : RecoveryMode) (skipLsn : Nat)

/-- The body of the loop for a frame that was read. -/
def onFrame (segId : Nat) (st : ReplayState) (f : ScannedFrame) : Except ReplayError Flow :=
  let lsn := f.fmeta.lsn.toNat
  if f.fmeta.rtype ≠ .pad ∧ lsn ≤ skipLsn then
    .ok (.next { st with framesSkipped := st.framesSkipped + 1 })
  else if f.fmeta.rtype ≠ .pad ∧ lsn ≤ st.index.lastLsn then
    if mode = .absolute then .error (.lsnRegression segId st.index.lastLsn lsn)
    else .ok (.halt (st.stopAt segId f.fmeta.offset .lsnRegression))
  else match applyFrame st.index segId f (clock lsn) with
    | (index, .ok ()) =>
      .ok (.next { st with index := index, framesReplayed := st.framesReplayed + 1 })
    | (index, .error e) => match e with
      | .malformedPayload _ _ _ =>
        if mode = .absolute then .error e
        else .ok (.halt ({ st with index := index }.stopAt segId f.fmeta.offset .malformedPayload))
      | _ => .error e

/-- The end of a segment: how `next_frame` stopped, at which offset. -/
def onEnd (forcedStop : Option StopPoint) (isTail : Bool) (segId : Nat) (st : ReplayState)
    (validEnd : Nat) : Except ScanError (Option ScannedFrame) → Except ReplayError Flow
  | .ok _ => match forcedStop with
    | some fs =>
      if fs.segId = segId then
        .ok (.halt { st with
          truncated := st.truncated.insert segId fs.offset
          stop := some fs })
      else .ok (.next st)
    | none => .ok (.next st)
  | .error (.tornTail _ _ _) =>
    if isTail then .ok (.next (st.truncate segId validEnd))
    else if mode = .absolute then .error (.tornNonTail segId validEnd)
    else .ok (.halt (st.stopAt segId validEnd .tornNonTail))
  | .error (.corrupt e) =>
    if mode = .absolute then .error (.corrupt segId validEnd e)
    else .ok (.halt (st.stopAt segId validEnd .corrupt))

/-- The loop over the frames of one segment. A frame takes at least 26 bytes, so the
file size bounds the number of passes. -/
def replayLoop (forcedStop : Option StopPoint) (isTail : Bool) (segId : Nat) :
    Nat → SegReader → ReplayState → Except ReplayError Flow
  | 0, _, st => .ok (.next st)
  | n + 1, r, st => match r.nextFrame with
    | (r', .ok (some f)) => match onFrame clock mode skipLsn segId st f with
      | .ok (.next st') => replayLoop forcedStop isTail segId n r' st'
      | out => out
    | (r', out) => onEnd mode forcedStop isTail segId st r'.validEnd out

/-- The loop over the segments. -/
def replaySegments (forcedStop : Option StopPoint) :
    List SegFile → ReplayState → Except ReplayError ReplayState
  | [], st => .ok st
  | seg :: rest, st =>
    match SegReader.openFile seg.bytes (reads.split seg.segId (seg.bytes.drop segHeaderSize)) with
    | .error e => .error (.segment seg.segId e)
    | .ok reader =>
      afterSegment (replayLoop clock mode skipLsn forcedStop rest.isEmpty seg.segId
        (seg.bytes.length + 1) reader st) fun st' => replaySegments forcedStop rest st'

def abandonedAfter (files : List SegFile) : Option StopPoint → List Nat
  | some sp => (files.filter fun f => decide (sp.segId < f.segId)).map (·.segId)
  | none => []

def replayWith (files : List SegFile) (index : WalIndex) (forcedStop : Option StopPoint) :
    Except ReplayError ReplayResult :=
  match replaySegments reads clock mode skipLsn forcedStop files ⟨index, 0, 0, ∅, none, files⟩ with
  | .error e => .error e
  | .ok st => .ok ⟨st.index, st.framesReplayed, st.framesSkipped, st.truncated, st.stop,
      abandonedAfter files st.stop, files.length, st.files⟩

def replayAll (files : List SegFile) (index : WalIndex) : Except ReplayError ReplayResult :=
  replayWith reads clock mode skipLsn files index none

/-! ## Replay reads the scan of a segment -/

/-- The loop over the frames of a segment, given the list of its frames and its end. -/
def feed (forcedStop : Option StopPoint) (isTail : Bool) (segId : Nat) (validEnd : Nat)
    (verdict : ScanEnd) : List ScannedFrame → ReplayState → Except ReplayError Flow
  | [], st => onEnd mode forcedStop isTail segId st validEnd (verdict.result validEnd)
  | f :: fs, st => match onFrame clock mode skipLsn segId st f with
    | .ok (.next st') => feed forcedStop isTail segId validEnd verdict fs st'
    | out => out

theorem replayLoop_eq_feed (forcedStop : Option StopPoint) (isTail : Bool) (segId : Nat)
    (fs : List ScannedFrame) :
    ∀ (n : Nat) (r : SegReader) (st : ReplayState) (off : Nat) (prev : UInt64) (ahead : Bytes),
      At r off prev ahead → (scanBody prev off ahead).frames = fs → ahead.length < n →
      replayLoop clock mode skipLsn forcedStop isTail segId n r st =
        feed clock mode skipLsn forcedStop isTail segId
          (scanBody prev off ahead).validEnd (scanBody prev off ahead).verdict fs st
      := by
  intro n
  induction n generalizing fs with
  | zero =>
    intro r st off prev ahead hat hfs hn
    cases hn
  | succ n ih =>
    rintro r st off prev ahead hat rfl hn
    have hspec := nextFrame_spec hat
    rw [replayLoop]
    generalize r.nextFrame = out at hspec ⊢
    obtain ⟨r', res⟩ := out
    rw [scanBody_eq]
    cases hs : scanOne ahead prev with
    | endOfData | torn | corrupt =>
      rw [hs] at hspec
      obtain ⟨rfl, hend⟩ := hspec
      dsimp only at hend ⊢
      rw [hend]
      rfl
    | frame h payload k =>
      rw [hs] at hspec
      obtain ⟨rfl, hat'⟩ := hspec
      obtain ⟨hk, hk'⟩ := scanOne_consumed hs
      have hshort : (ahead.drop k).length < n := by
        simp only [List.length_drop, frameHeaderSize] at *
        omega
      dsimp only [BodyScan.cons]
      rw [feed]
      generalize onFrame clock mode skipLsn segId st (frameAt off h payload) = step
      cases step with
      | error e => rfl
      | ok flow =>
        cases flow with
        | halt st' => rfl
        | next st' => exact ih _ r' st' _ _ _ hat' rfl hshort

/-- Reading one segment file is feeding the scan of its body. -/
theorem replaySegments_cons (forcedStop : Option StopPoint) (segId : Nat) (header : SegmentHeader)
    (body : Bytes) (rest : List SegFile) (st : ReplayState) :
    replaySegments reads clock mode skipLsn forcedStop (⟨segId, header.encode ++ body⟩ :: rest) st =
      let s := scanBody header.chainSeed segHeaderSize body
      afterSegment
        (feed clock mode skipLsn forcedStop rest.isEmpty segId s.validEnd s.verdict s.frames st)
        (replaySegments reads clock mode skipLsn forcedStop rest) := by
  have hbody : (header.encode ++ body).drop segHeaderSize = body := by
    rw [← encode_length header, List.drop_left]
  obtain ⟨r, hr, _, hat⟩ := openFile_at header body (reads.split segId body)
    (reads.nonempty segId body) (reads.join segId body)
  rw [replaySegments]
  rw [hbody, hr]
  dsimp only
  rw [replayLoop_eq_feed clock mode skipLsn forcedStop rest.isEmpty segId _ _ _ _ _ _ _
    hat rfl (by rw [List.length_append]; omega)]

end Replay

end PowerFS.Wal.Replay
