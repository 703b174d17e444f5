import PowerFS.Wal.Engine
import PowerFS.Wal.LogContents
import PowerFS.Wal.SegmentRoundTrip

/-! # What the engine has on disk

The segment files of an engine are whole segments with increasing ids, the last one
open for appending. A record that is enqueued ends up behind all others, in the last
segment or in a new one. -/
namespace PowerFS.Wal.EngineDisk
open Lib.ByteString Lib.Calls Wal.Frame Segment SegmentScan SegmentRoundTrip Replay LogContents
  Directory Engine List SegWriter SegManifest

/-! ## Segments and the manifest -/

/-- All records on disk, in the order of the segments. -/
def onDisk (segs : List SegContents) (last : SegContents) : List Located := records (segs ++ [last])

theorem onDisk_eq (segs : List SegContents) (last : SegContents) :
    onDisk segs last = records segs ++ recordsOf last.segId last.frames := by
  simp [onDisk, records, SegContents.records]

/-- The last segment may be replaced by one that has the property as well. -/
theorem forall_mem_relast {segs : List SegContents} {last s : SegContents} {p : SegContents → Prop}
    (h : ∀ t ∈ segs ++ [last], p t) (hs : p s) : ∀ t ∈ segs ++ [s], p t :=
  forall_mem_append.mpr ⟨(forall_mem_append.mp h).1, forall_mem_singleton.mpr hs⟩

/-- An empty segment adds no record. -/
theorem records_append_empty (segs : List SegContents) {s : SegContents} (hs : s.frames = []) :
    records (segs ++ [s]) = records segs := by
  simp [records, SegContents.records, recordsOf, hs]

/-- More frames in the last segment. -/
def grown (s : SegContents) (fs : List ScannedFrame) (slack : Nat) : SegContents :=
  { s with frames := s.frames ++ fs, slack := slack }

theorem onDisk_grown (segs : List SegContents) (last : SegContents) (fs : List ScannedFrame)
    (slack : Nat) :
    onDisk segs (grown last fs slack) = onDisk segs last ++ recordsOf last.segId fs := by
  simp [onDisk_eq, grown, recordsOf_append]

theorem nextSegId_of_getLast {m : SegManifest} {x : SegEntry} (front : SegManifest)
    (h : m = front ++ [x]) : nextSegId m = x.segId + 1 := by
  rw [nextSegId, h, getLast?_append]
  rfl

theorem sealLast_append (front : SegManifest) (x : SegEntry) :
    sealLast (front ++ [x]) = front ++ [{ x with state := .sealed }] := by
  induction front with
  | nil => rfl
  | cons y front ih =>
    cases hf : front with
    | nil => rfl
    | cons z rest =>
      rw [hf] at ih
      rw [cons_append, cons_append, sealLast, ← cons_append, ih]
      · rfl
      · simp

variable [Checksum]

/-! ## The invariant -/

/-- The manifest entry of a segment. -/
def entryOf (state : SegmentState) (s : SegContents) : SegEntry :=
  ⟨s.segId, state, s.header.baseLsn.toNat, s.header.volumeId⟩

/-- The engine has the segments `segs` on disk and appends to `last`. -/
structure Stored (e : WalEngine) (segs : List SegContents) (last : SegContents) : Prop where
  older : e.sink.older = segs.map SegContents.file
  image : Image e.sink.writer last.frames last.slack
  header : last.header = e.sink.writer.header
  unsealed : e.sink.writer.isSealed = false
  segSize : e.sink.writer.segSize = e.config.segSize
  fits : segHeaderSize + frameHeaderSize ≤ e.config.segSize
  manifest : e.sink.manifest = segs.map (entryOf .sealed) ++ [entryOf .active last]
  wellFormed : WellFormed (segs ++ [last])
  ids : ∀ s ∈ segs ++ [last], s.header.segId.toNat = s.segId
  ordered : ((segs ++ [last]).map (·.segId)).Pairwise (· < ·)

section Append

variable {clock : Nat → Int64} {e e' : WalEngine}
  {segs : List SegContents} {last : SegContents}

theorem Stored.segId_eq (h : Stored e segs last) : e.sink.activeSegId = last.segId := by
  rw [SegSink.activeSegId, ← h.header]
  exact h.ids last (by simp)

/-- The segment files of the engine. -/
theorem Stored.files_eq (h : Stored e segs last) :
    e.sink.files = (segs ++ [last]).map (SegContents.file) := by
  have hactive : e.sink.activeFile = SegContents.file last := by
    rw [SegSink.activeFile, h.segId_eq, h.image.file, ← h.header, append_assoc]
    rfl
  rw [SegSink.files, h.older, hactive, map_append, map_singleton]

/-- Frames and a header flag of the last segment may change as long as its records and
their order stay well formed. -/
theorem Stored.wellFormed_append (h : Stored e segs last) {fs : List ScannedFrame}
    {s : SegContents} (hs : s.segId = last.segId) (hframes : s.frames = last.frames ++ fs)
    (hdesc : Described segHeaderSize s.frames) (hengine : ∀ f ∈ fs, EngineFrame f)
    (hsorted : (onDisk segs last ++ recordsOf last.segId fs).Pairwise fun a b => a.lsn < b.lsn)
    (hpos : ∀ r ∈ recordsOf last.segId fs, 0 < r.lsn) : WellFormed (segs ++ [s]) := by
  obtain ⟨hd, he, _, hp⟩ := h.wellFormed
  have hrecs : records (segs ++ [s]) = onDisk segs last ++ recordsOf last.segId fs := by
    rw [onDisk_eq]
    simp [records, SegContents.records, hs, hframes, recordsOf_append]
  refine ⟨forall_mem_relast hd hdesc, forall_mem_relast he ?_, ?_, ?_⟩
  · rw [hframes]
    exact forall_mem_append.mpr ⟨he last (by simp), hengine⟩
  · rw [hrecs]; exact hsorted
  · rw [hrecs]
    exact forall_mem_append.mpr ⟨hp, hpos⟩

theorem wellFormed_append_empty {segs : List SegContents} (h : WellFormed segs)
    {s : SegContents} (hs : s.frames = []) : WellFormed (segs ++ [s]) := by
  obtain ⟨hd, he, hsorted, hp⟩ := h
  rw [← records_append_empty segs hs] at hsorted hp
  refine ⟨forall_mem_append.mpr ⟨hd, forall_mem_singleton.mpr ?_⟩,
    forall_mem_append.mpr ⟨he, forall_mem_singleton.mpr ?_⟩, hsorted, hp⟩
  · rw [hs]; trivial
  · rw [hs]
    exact forall_mem_nil _

/-! ## Rolling over -/

theorem sealSegment_header (w : SegWriter) :
    w.sealSegment.header.segId = w.header.segId ∧
    w.sealSegment.header.volumeId = w.header.volumeId ∧
    w.sealSegment.header.baseLsn = w.header.baseLsn := by
  unfold sealSegment
  split <;> exact ⟨rfl, rfl, rfl⟩

/-- The segment that `roll` leaves behind. -/
def sealedOf (w : SegWriter) (segId : Nat) (frames : List ScannedFrame)
    (slack : Nat) : SegContents :=
  ⟨segId, w.sealSegment.header, frames, slack⟩

theorem create_fits (segId volumeId baseLsn : UInt64) {segSize : Nat} (preallocate : Bool)
    (t : Int64) (hfit : segHeaderSize + frameHeaderSize ≤ segSize) :
    ∃ w slack, create segId volumeId baseLsn segSize preallocate t = .ok w ∧
      Image w [] slack ∧ w.isSealed = false ∧
      w.header = ⟨segId, volumeId, baseLsn, t, 0⟩ ∧ w.segSize = segSize ∧
      w.writePos = segHeaderSize := by
  have hok : ∃ w, create segId volumeId baseLsn segSize preallocate t = .ok w ∧
      w.header = ⟨segId, volumeId, baseLsn, t, 0⟩ ∧ w.segSize = segSize ∧
      w.writePos = segHeaderSize := by
    unfold create
    rw [if_neg (not_lt.mpr hfit)]
    exact ⟨_, rfl, rfl, rfl, rfl⟩
  obtain ⟨w, hw, hheader, hsize, hpos⟩ := hok
  obtain ⟨⟨slack, himg⟩, hopen⟩ := create_image hw
  exact ⟨w, slack, hw, himg, hopen, hheader, hsize, hpos⟩

theorem sealed_file {w : SegWriter} {frames : List ScannedFrame} {slack : Nat}
    (himg : Image w frames slack) {segId : Nat} (hid : w.header.segId.toNat = segId) :
    (⟨w.sealSegment.header.segId.toNat, w.sealSegment.file⟩ : SegFile) =
      SegContents.file (sealedOf w segId frames slack) := by
  have hfile := (seal_image himg).1.file
  rw [(sealSegment_header w).1, hid, hfile, append_assoc]
  rfl

/-- The engine after `roll`, for the writer `w` that was created. -/
def rolled (e : WalEngine) (lsn : Nat) (w : SegWriter) : WalEngine :=
  let sink := { e.sink with writer := e.sink.writer.sealSegment }
  { e with
    sink := {
      older := sink.files
      writer := w
      manifest := SegManifest.register sink.manifest (SegManifest.nextSegId sink.manifest) lsn
        sink.writer.header.volumeId }
    ticks := e.ticks + 1 }

/-- A segment that is large enough for a header and a frame can be left for a new one. -/
theorem roll_eq (hfits : segHeaderSize + frameHeaderSize ≤ e.config.segSize) (lsn : Nat) :
    ∃ w slack, roll clock lsn e = some (.ok (), rolled e lsn w) ∧
      Image w [] slack ∧ w.isSealed = false ∧ w.segSize = e.config.segSize ∧
      w.writePos = segHeaderSize ∧
      w.header = ⟨UInt64.ofNat (nextSegId e.sink.manifest),
        e.sink.writer.header.volumeId, UInt64.ofNat lsn, clock e.ticks, 0⟩ := by
  obtain ⟨w, slack, hcreate, himg, hopen, hheader, hsize, hpos⟩ :=
    @create_fits _ (UInt64.ofNat (nextSegId e.sink.manifest))
      e.sink.writer.sealSegment.header.volumeId (UInt64.ofNat lsn) _
      e.config.preallocate (clock e.ticks) hfits
  refine ⟨w, slack, ?_, himg, hopen, hsize, hpos, ?_⟩
  · refine (bind_eq rfl).trans ((bind_eq rfl).trans ((bind_eq rfl).trans ?_))
    rw [hcreate]
    rfl
  · rw [hheader, (sealSegment_header e.sink.writer).2.1]

/-- **Rolling over** seals the segment with what it holds and goes on with an empty one. -/
theorem roll_stored (h : Stored e segs last) {lsn : Nat} (hid : last.segId + 1 < 2 ^ 64)
    (hlsn : lsn < 2 ^ 64) :
    ∃ w slack, roll clock lsn e = some (.ok (), rolled e lsn w) ∧
      Stored (rolled e lsn w) (segs ++ [sealedOf e.sink.writer last.segId last.frames last.slack])
        ⟨last.segId + 1, w.header, [], slack⟩ ∧
      w.writePos = segHeaderSize := by
  obtain ⟨w, slack, hroll, himg, hopen, hsize, hpos, hheader⟩ := @roll_eq _ clock e h.fits lsn
  have hnext : nextSegId e.sink.manifest = last.segId + 1 :=
    nextSegId_of_getLast _ h.manifest
  rw [hnext] at hheader
  refine ⟨w, slack, hroll, ?_, hpos⟩
  have hid' : e.sink.writer.header.segId.toNat = last.segId := h.segId_eq
  obtain ⟨_, hvol, hbase⟩ := @sealSegment_header _ e.sink.writer
  set s := sealedOf e.sink.writer last.segId last.frames last.slack with hs
  have hwf : WellFormed (segs ++ [s]) := by
    refine @Stored.wellFormed_append _ e segs last h [] s rfl (append_nil _).symm
      h.image.described (by simp) ?_ (by simp [recordsOf])
    simpa [recordsOf, onDisk] using h.wellFormed.increasing
  refine ⟨?_, himg, rfl, hopen, hsize, h.fits, ?_, wellFormed_append_empty hwf rfl, ?_, ?_⟩
  · show e.sink.older ++ [_] = (segs ++ [s]).map SegContents.file
    rw [h.older, map_append, map_singleton]
    exact congrArg (fun f => _ ++ [f]) (sealed_file h.image hid')
  · show register e.sink.manifest (nextSegId e.sink.manifest) lsn
      e.sink.writer.sealSegment.header.volumeId = _
    have hentry : entryOf .sealed s = { entryOf .active last with state := .sealed } := by
      simp [entryOf, hs, sealedOf, hvol, hbase, h.header]
    have hnew : entryOf .active ⟨last.segId + 1, w.header, [], slack⟩ =
        ⟨last.segId + 1, .active, lsn, e.sink.writer.sealSegment.header.volumeId⟩ := by
      simp [entryOf, hheader, UInt64.toNat_ofNat_of_lt' hlsn, hvol]
    rw [hnext, register, h.manifest, sealLast_append, ← hentry, ← hnew]
    simp
  · refine forall_mem_append.mpr ⟨forall_mem_relast h.ids ?_, forall_mem_singleton.mpr ?_⟩
    · exact (congrArg UInt64.toNat (sealSegment_header e.sink.writer).1).trans hid'
    · rw [hheader]
      exact UInt64.toNat_ofNat_of_lt' hid
  · have hord := h.ordered
    have hmap : (segs ++ [s]).map (·.segId) = (segs ++ [last]).map (·.segId) := by
      simp [hs, sealedOf]
    rw [map_append, hmap]
    refine pairwise_append.mpr
      ⟨hord, pairwise_singleton _ _, fun i hi => forall_mem_singleton.mpr ?_⟩
    rw [map_append] at hi hord
    rcases mem_append.mp hi with hi | hi
    · exact Nat.lt_succ_of_lt ((pairwise_append.mp hord).2.2 i hi _ mem_cons_self)
    · rw [mem_singleton.mp hi]
      exact Nat.lt_succ_self _

/-! ## Appending -/

/-- The writer put frames of the engine behind those of the last segment. -/
theorem Stored.grow (h : Stored e segs last) {w : SegWriter} {fs : List ScannedFrame}
    {slack : Nat} (himg : Image w (last.frames ++ fs) slack)
    (hheader : w.header = e.sink.writer.header) (hsize : w.segSize = e.sink.writer.segSize)
    (hengine : ∀ f ∈ fs, EngineFrame f)
    (hsorted : (onDisk segs last ++ recordsOf last.segId fs).Pairwise fun a b => a.lsn < b.lsn)
    (hpos : ∀ r ∈ recordsOf last.segId fs, 0 < r.lsn) :
    Stored { e with sink := { e.sink with writer := w } } segs (grown last fs slack) where
  older := h.older
  image := himg
  header := h.header.trans hheader.symm
  unsealed := by
    rw [isSealed, hheader]
    exact h.unsealed
  segSize := hsize.trans h.segSize
  fits := h.fits
  manifest := h.manifest
  wellFormed := h.wellFormed_append rfl rfl himg.described hengine hsorted hpos
  ids := forall_mem_relast h.ids (h.ids last (by simp))
  ordered := by
    have := h.ordered
    simpa [grown] using this

/-- The frame went behind all others, into the segment `segId`. -/
def Appended (e e' : WalEngine) (segs : List SegContents)
    (last : SegContents) (segId : Nat) (f : ScannedFrame) : Prop :=
  ∃ sink ticks segs' last', e' = { e with sink := sink, ticks := ticks } ∧
    Stored e' segs' last' ∧ last'.segId = segId ∧
    onDisk segs' last' = onDisk segs last ++ [(segId, f)]

/-- A record that may come next: it is written by the engine, and its LSN is new. -/
structure Next (segs : List SegContents) (last : SegContents)
    (rtype : RecordType) (lsn : Nat) (payload : Bytes) : Prop where
  below : ∀ r ∈ onDisk segs last, r.lsn < lsn
  positive : 0 < lsn
  bounded : lsn < 2 ^ 64
  short : payload.length < 2 ^ 32
  engine : ∀ off, EngineFrame (frameOf off rtype 0 (UInt64.ofNat lsn) payload)
  isRecord : rtype ≠ .pad

/-- What `append` reports about a record. -/
def placed (segId off : Nat) (rtype : RecordType) (lsn : Nat) (payload : Bytes) : Placement :=
  ⟨segId, off, computeFrameCrc rtype.toU8 0 (UInt64.ofNat lsn) payload, UInt32.ofNat payload.length⟩

variable {rtype : RecordType} {flags : UInt8} {lsn : Nat} {payload : Bytes}

/-- One pass of the loop, with the outcome of the append. -/
theorem appendLoop_succ (n : Nat) : appendLoop clock lsn rtype flags payload (n + 1) e =
    match e.sink.writer.append rtype flags (UInt64.ofNat lsn) payload with
    | (w, .ok fmeta) => some (.ok ⟨w.header.segId.toNat, fmeta.offset, fmeta.crc,
        fmeta.payloadLen⟩, { e with sink := { e.sink with writer := w } })
    | (w, .error (.segmentFull _ _)) =>
      if w.writePos = segHeaderSize then
        some (.error (.exceedsCapacity (frameHeaderSize + payload.length) e.config.segSize),
          { e with sink := { e.sink with writer := w } })
      else (do
        roll clock lsn
        appendLoop clock lsn rtype flags payload n) { e with sink := { e.sink with writer := w } }
    | (w, .error err) =>
      some (.error (.segment err), { e with sink := { e.sink with writer := w } }) := by
  rw [appendLoop]
  refine (bind_eq rfl).trans ((bind_eq rfl).trans ?_)
  generalize e.sink.writer.append rtype flags (UInt64.ofNat lsn) payload = out
  rcases out with ⟨w, err | fmeta⟩
  · cases err with
    | segmentFull need got =>
      dsimp only
      split <;> rfl
    | _ => rfl
  · rfl

/-- The active segment takes records; only its sizes and positions are looked at. -/
structure Active (e : WalEngine) : Prop where
  fits : segHeaderSize + frameHeaderSize ≤ e.config.segSize
  segSize : e.sink.writer.segSize = e.config.segSize
  unsealed : e.sink.writer.isSealed = false
  started : segHeaderSize ≤ e.sink.writer.writePos
  inside : e.sink.writer.writePos ≤ e.config.segSize

theorem Stored.active (h : Stored e segs last) : Active e where
  fits := h.fits
  segSize := h.segSize
  unsealed := h.unsealed
  started := by
    rw [h.image.writePos]
    exact Nat.le_add_right _ _
  inside := by
    rw [← h.segSize]
    exact h.image.room

/-- The pass in which the record fits. -/
theorem Active.appends (h : Active e)
    (hfit : frameHeaderSize + payload.length ≤ e.sink.writer.remaining) (n : Nat) :
    ∃ p e', appendLoop clock lsn rtype flags payload (n + 1) e = some (.ok p, e') := by
  rw [appendLoop_succ]
  unfold append
  simp only [h.unsealed, Bool.false_eq_true, if_false, if_neg (not_lt.mpr hfit)]
  exact ⟨_, _, rfl⟩

/-- The pass in which it does not: the segment is padded, so that it no longer looks
fresh, and left for the next one. -/
theorem Active.rolls (h : Active e)
    (hfull : e.sink.writer.remaining < frameHeaderSize + payload.length) :
    ∃ e₁, Active e₁ ∧ e₁.config = e.config ∧ e₁.sink.writer.writePos = segHeaderSize ∧
      ∀ n, appendLoop clock lsn rtype flags payload (n + 1) e =
        appendLoop clock lsn rtype flags payload n e₁ := by
  have happend : ∃ w need got, e.sink.writer.append rtype flags (UInt64.ofNat lsn) payload =
      (w, .error (.segmentFull need got)) ∧ w.writePos ≠ segHeaderSize := by
    unfold append
    simp only [h.unsealed, Bool.false_eq_true, if_false, if_pos hfull]
    refine ⟨_, _, _, rfl, ?_⟩
    have hfits := h.fits
    rw [← h.segSize] at hfits
    by_cases hpad : frameHeaderSize ≤ e.sink.writer.remaining
    · rw [if_pos hpad, padToEnd, if_neg (not_lt.mpr hpad)]
      show e.sink.writer.segSize ≠ segHeaderSize
      simp only [segHeaderSize, frameHeaderSize] at *
      omega
    · rw [if_neg hpad]
      simp only [remaining, segHeaderSize, frameHeaderSize] at *
      omega
  obtain ⟨w, need, got, happend, hpos⟩ := happend
  obtain ⟨w₂, _, hroll, _, hopen, hsize, hstart, _⟩ :=
    @roll_eq _ clock { e with sink := { e.sink with writer := w } } h.fits lsn
  have hend : w₂.writePos ≤ e.config.segSize := hstart ▸ (Nat.le_add_right _ _).trans h.fits
  refine ⟨rolled { e with sink := { e.sink with writer := w } } lsn w₂,
    ⟨h.fits, hsize, hopen, hstart.ge, hend⟩, rfl, hstart, fun n => ?_⟩
  rw [appendLoop_succ, happend]
  dsimp only
  rw [if_neg hpos]
  exact bind_eq hroll

/-- **A record that does not fit a fresh segment is never answered**: every segment is
padded and left for the next one. -/
theorem Active.stuck (n : Nat) : ∀ e : WalEngine, Active e →
    e.config.segSize - segHeaderSize < frameHeaderSize + payload.length →
    appendLoop clock lsn rtype flags payload n e = none := by
  induction n with
  | zero =>
    intro e _ _
    rfl
  | succ n ih =>
    intro e h hsmall
    have hfull : e.sink.writer.remaining < frameHeaderSize + payload.length := by
      have hstarted := h.started
      rw [remaining, h.segSize]
      omega
    obtain ⟨e₁, h₁, hconfig, _, hpass⟩ := @Active.rolls _ clock e rtype flags lsn payload h hfull
    rw [hpass]
    exact ih e₁ h₁ (by rw [hconfig]; exact hsmall)

section

variable (h : Stored e segs last)
include h

/-- The pass of the loop in which the record fits. -/
theorem append_here (hnext : Next segs last rtype lsn payload)
    (hfit : frameHeaderSize + payload.length ≤ e.sink.writer.remaining) :
    ∃ off e', (∀ n, appendLoop clock lsn rtype 0 payload (n + 1) e =
        some (.ok (placed last.segId off rtype lsn payload), e')) ∧
      Appended e e' segs last last.segId (frameOf off rtype 0 (UInt64.ofNat lsn) payload) := by
  obtain ⟨w, happend, ⟨slack, himg⟩, hheader, hsize⟩ := append_fits h.image h.unsealed rtype
    0 (UInt64.ofNat lsn) hfit hnext.short
  have hid : w.header.segId.toNat = last.segId := by
    rw [hheader]
    exact h.segId_eq
  have hloop : ∀ n, appendLoop clock lsn rtype 0 payload (n + 1) e =
      some (.ok (placed last.segId e.sink.writer.writePos rtype lsn payload),
        { e with sink := { e.sink with writer := w } }) := by
    intro n
    rw [appendLoop_succ, happend, ← hid]
    rfl
  have hlsn : (UInt64.ofNat lsn).toNat = lsn := UInt64.toNat_ofNat_of_lt' hnext.bounded
  set f := appended e.sink.writer rtype 0 (UInt64.ofNat lsn) payload with hf
  have hrec : recordsOf last.segId [f] = [(last.segId, f)] := by
    simp [recordsOf, isRecord, hf, appended, frameOf, hnext.isRecord]
  have hstored : Stored { e with sink := { e.sink with writer := w } } segs
      (grown last [f] slack) := by
    refine h.grow himg hheader hsize ?_ ?_ ?_
    · exact forall_mem_singleton.mpr (hnext.engine _)
    · rw [hrec, pairwise_append]
      refine ⟨h.wellFormed.increasing, pairwise_singleton _ _, ?_⟩
      intro a ha b hb
      rw [mem_singleton.mp hb]
      show a.lsn < (UInt64.ofNat lsn).toNat
      rw [hlsn]
      exact hnext.below a ha
    · rw [hrec]
      refine forall_mem_singleton.mpr ?_
      show 0 < (UInt64.ofNat lsn).toNat
      rw [hlsn]
      exact hnext.positive
  refine ⟨_, _, hloop, _, _, segs, grown last [f] slack, rfl, hstored, rfl, ?_⟩
  rw [onDisk_grown, hrec]
  rfl

/-- A segment without room for the record is padded, or full. -/
theorem pad_stored (lsn' : UInt64)
    (hfull : e.sink.writer.remaining < frameHeaderSize + payload.length)
    (hshort : payload.length < 2 ^ 32) :
    ∃ w last₁ need got, e.sink.writer.append rtype 0 lsn' payload =
        (w, .error (.segmentFull need got)) ∧
      Stored { e with sink := { e.sink with writer := w } } segs last₁ ∧
      onDisk segs last₁ = onDisk segs last ∧ last₁.segId = last.segId ∧
      w.writePos ≠ segHeaderSize := by
  obtain ⟨w, happend, hheader, hsize, hcase⟩ :=
    append_full h.image h.unsealed rtype 0 lsn' hfull hshort
  have hfits := h.fits
  have hseg := h.segSize
  rcases hcase with ⟨rfl, hsmall⟩ | ⟨_, hrem, pad, slack, himg, htype⟩
  · refine ⟨_, last, _, _, happend, h, rfl, rfl, ?_⟩
    simp only [remaining, segHeaderSize, frameHeaderSize] at *
    omega
  have hnone : recordsOf last.segId [pad] = [] := by
    simp [recordsOf, isRecord, htype]
  refine ⟨w, grown last [pad] slack, _, _, happend, h.grow himg hheader hsize ?_ ?_ ?_, ?_, rfl, ?_⟩
  · refine forall_mem_singleton.mpr ?_
    rw [EngineFrame, htype]
    trivial
  · rw [hnone, append_nil]
    exact h.wellFormed.increasing
  · rw [hnone]
    exact forall_mem_nil _
  · rw [onDisk_grown, hnone, append_nil]
  · have hroom := himg.room
    simp only [remaining, segHeaderSize, frameHeaderSize] at *
    omega

/-- The pass in which it does not: the segment is padded and left behind. -/
theorem append_rolls (hnext : Next segs last rtype lsn payload) (hid : last.segId + 1 < 2 ^ 64)
    (hfull : e.sink.writer.remaining < frameHeaderSize + payload.length) :
    ∃ e₁ sink ticks segs₁ last₁, e₁ = { e with sink := sink, ticks := ticks } ∧
      Stored e₁ segs₁ last₁ ∧ onDisk segs₁ last₁ = onDisk segs last ∧
      last₁.segId = last.segId + 1 ∧ e₁.sink.writer.writePos = segHeaderSize ∧
      ∀ n, appendLoop clock lsn rtype 0 payload (n + 1) e =
        appendLoop clock lsn rtype 0 payload n e₁ := by
  obtain ⟨w, last₁, need, got, happend, hstored, hdisk, hseg, hpos⟩ :=
    @pad_stored _ e segs last rtype payload h (UInt64.ofNat lsn) hfull hnext.short
  obtain ⟨w₂, slack, hroll, hstored₂, hpos₂⟩ :=
    @roll_stored _ clock _ _ _ hstored lsn (by rw [hseg]; exact hid) hnext.bounded
  refine ⟨_, _, _, _, _, rfl, hstored₂, ?_, by rw [hseg], hpos₂, ?_⟩
  · rw [← hdisk, onDisk_eq, onDisk_eq]
    simp [records, SegContents.records, recordsOf, sealedOf]
  · intro n
    rw [appendLoop_succ, happend]
    dsimp only
    rw [if_neg hpos]
    exact bind_eq hroll

/-- **Appending** puts the record behind all others, or does not return. -/
theorem appendRecord_spec (hnext : Next segs last rtype lsn payload) (hid : last.segId + 1 < 2 ^ 64)
    {r : Except SinkError Placement}
    (hret : Returns (appendRecord clock lsn rtype payload) e r e') :
    ∃ segId off, segId ≤ last.segId + 1 ∧ r = .ok (placed segId off rtype lsn payload) ∧
      Appended e e' segs last segId (frameOf off rtype 0 (UInt64.ofNat lsn) payload) := by
  unfold Returns appendRecord at hret
  by_cases hfit : frameHeaderSize + payload.length ≤ e.sink.writer.remaining
  · obtain ⟨off, e₁, hloop, happ⟩ :=
      @append_here _ clock e segs last rtype lsn payload h hnext hfit
    rw [hloop 1] at hret
    cases hret
    exact ⟨last.segId, off, Nat.le_succ _, rfl, happ⟩
  · obtain ⟨e₁, sink, ticks, segs₁, last₁, rfl, hstored, hdisk, hseg, hstart, hloop⟩ :=
      @append_rolls _ clock e segs last rtype lsn payload h hnext hid (not_le.mp hfit)
    rw [hloop 1] at hret
    have hnext₁ : Next segs₁ last₁ rtype lsn payload :=
      { hnext with below := by rw [hdisk]; exact hnext.below }
    by_cases hsmall : e.config.segSize - segHeaderSize < frameHeaderSize + payload.length
    · rw [hstored.active.stuck 1 _ hsmall] at hret
      cases hret
    have hfit₁ : frameHeaderSize + payload.length ≤ sink.writer.remaining := by
      have hsize := hstored.segSize
      dsimp only at hsize hstart
      rw [remaining, hsize, hstart]
      omega
    obtain ⟨off, e₂, hloop₂, sink₂, ticks₂, segs₂, last₂, rfl, hstored₂, hseg₂, hdisk₂⟩ :=
      @append_here _ clock _ segs₁ last₁ rtype lsn payload hstored hnext₁ hfit₁
    rw [hloop₂ 0] at hret
    cases hret
    refine ⟨last₁.segId, off, Nat.le_of_eq hseg, rfl, sink₂, ticks₂, segs₂, last₂, rfl, hstored₂,
      hseg₂, ?_⟩
    rw [hdisk₂, hdisk]

end

end Append

/-! ## Enqueueing -/

/-- The engine accepts records: the next LSN is above all that are on disk, and no
append has failed. -/
structure Running (e : WalEngine) (segs : List SegContents) (last : SegContents) : Prop where
  stored : Stored e segs last
  below : ∀ r ∈ onDisk segs last, r.lsn < e.nextLsn
  started : 0 < e.nextLsn
  bounded : e.nextLsn < 2 ^ 64
  idBound : last.segId ≤ e.nextLsn
  healthy : e.commitError = none

/-- A payload that the codec of its type made. -/
structure EngineRecord (rtype : RecordType) (payload : Bytes) : Prop where
  isRecord : rtype ≠ .pad
  engine : payload.length < 2 ^ 32 →
    ∀ off lsn, EngineFrame (frameOf off rtype 0 lsn payload)

section Enqueue

variable {clock : Nat → Int64} {e e' : WalEngine}
  {segs : List SegContents} {last : SegContents} {rtype : RecordType} {payload : Bytes}

theorem appended_returns {lsn : Nat} {r : Except EngineError (Except SinkError Placement)}
    (h : Returns (enqueue.appended clock rtype payload lsn) e r e') :
    ∃ out, r = .ok out ∧ Returns (appendRecord clock lsn rtype payload) e out e' := by
  unfold Returns enqueue.appended at h
  rcases hx : appendRecord clock lsn rtype payload e with _ | ⟨out, e₁⟩
  · rw [hx] at h
    cases h
  rw [hx] at h
  cases h
  exact ⟨out, rfl, hx⟩

/-- The record was accepted and is the last one on disk. -/
def Enqueued (e e' : WalEngine) (segs segs' : List SegContents)
    (last last' : SegContents) (rtype : RecordType) (payload : Bytes) (off : Nat) : Prop :=
  (∃ sink ticks, e' = { e with nextLsn := e.nextLsn + 1, sink := sink, ticks := ticks }) ∧
  Running e' segs' last' ∧
  onDisk segs' last' = onDisk segs last ++
    [(last'.segId, frameOf off rtype 0 (UInt64.ofNat e.nextLsn) payload)]

/-- **Enqueueing** refuses a record that is too long and changes nothing, or puts it behind all
others with the next LSN. -/
theorem enqueue_spec (h : Running e segs last) (hrec : EngineRecord rtype payload)
    {r : Except EngineError CommitReceipt}
    (hret : Returns (enqueue clock rtype payload) e r e') :
    (e' = e ∧ 2 ^ 32 ≤ payload.length ∧ ∃ err, r = .error err) ∨
    ∃ segs' last' off, Enqueued e e' segs segs' last last' rtype payload off ∧
      r = .ok ⟨e.nextLsn, placed last'.segId off rtype e.nextLsn payload⟩ := by
  unfold enqueue at hret
  split at hret
  · rename_i hlong
    obtain ⟨rfl, rfl⟩ := hret.fail
    exact .inl ⟨rfl, hlong, _, rfl⟩
  rename_i hlong
  have hshort : payload.length < 2 ^ 32 := not_le.mp hlong
  have hret := hret.get_bind
  rw [h.healthy] at hret
  dsimp only at hret
  split at hret
  · exact absurd hret Returns.hang
  rename_i hbudget
  have hbound : e.nextLsn + 1 < 2 ^ 64 := by
    by_contra hcon
    exact hbudget (.inr (not_lt.mp hcon))
  have hret := hret.modify_bind
  have hstored : Stored { e with nextLsn := e.nextLsn + 1 } segs last := { h.stored with }
  have hnext : Next segs last rtype e.nextLsn payload :=
    ⟨h.below, h.started, h.bounded, hshort, fun off => hrec.engine hshort off _, hrec.isRecord⟩
  have hid : last.segId + 1 < 2 ^ 64 := lt_of_le_of_lt (Nat.succ_le_succ h.idBound) hbound
  rcases hret.bind with ⟨err, rfl, hfail⟩ | ⟨out, e₁, happ, hrest⟩
  · obtain ⟨_, habs, _⟩ := appended_returns hfail
    cases habs
  obtain ⟨out', hout, happend⟩ := appended_returns happ
  cases hout
  obtain ⟨segId, off, hle, rfl, sink, ticks, segs', last', rfl, hstored', rfl, hdisk⟩ :=
    appendRecord_spec hstored hnext hid happend
  obtain ⟨rfl, rfl⟩ := hrest.pure
  refine .inr ⟨segs', last', off, ⟨⟨sink, ticks, rfl⟩, ⟨hstored', ?_, Nat.succ_pos _, hbound,
    ?_, h.healthy⟩, hdisk⟩, rfl⟩
  · rw [hdisk]
    refine forall_mem_append.mpr
      ⟨fun q hq => Nat.lt_succ_of_lt (h.below q hq), forall_mem_singleton.mpr ?_⟩
    show (UInt64.ofNat e.nextLsn).toNat < e.nextLsn + 1
    rw [UInt64.toNat_ofNat_of_lt' h.bounded]
    exact Nat.lt_succ_self _
  · exact le_trans hle (Nat.succ_le_succ h.idBound)

/-- A call that enqueues a record first. -/
theorem enqueue_bind (h : Running e segs last) (hrec : EngineRecord rtype payload)
    {α : Type} {f : CommitReceipt → EngineM α} {r : Except EngineError α}
    (hret : Returns (enqueue clock rtype payload >>= f) e r e') :
    (e' = e ∧ 2 ^ 32 ≤ payload.length ∧ ∃ err, r = .error err) ∨
    ∃ segs' last' off e₁, Enqueued e e₁ segs segs' last last' rtype payload off ∧
      Returns (f ⟨e.nextLsn, placed last'.segId off rtype e.nextLsn payload⟩) e₁ r e' := by
  rcases hret.bind with ⟨err, rfl, hfail⟩ | ⟨receipt, e₁, henq, hrest⟩
  · rcases enqueue_spec h hrec hfail with ⟨rfl, hlong, _⟩ | ⟨_, _, _, _, hok⟩
    · exact .inl ⟨rfl, hlong, err, rfl⟩
    · cases hok
  rcases enqueue_spec h hrec henq with ⟨_, _, err, herr⟩ | ⟨segs', last', off, henqd, hok⟩
  · cases herr
  · cases hok
    exact .inr ⟨segs', last', off, e₁, henqd, hrest⟩

theorem Enqueued.index_eq {segs' : List SegContents} {last' : SegContents} {off : Nat}
    (h : Enqueued e e' segs segs' last last' rtype payload off) : e'.index = e.index := by
  obtain ⟨⟨_, _, rfl⟩, _, _⟩ := h
  rfl

end Enqueue

end PowerFS.Wal.EngineDisk
