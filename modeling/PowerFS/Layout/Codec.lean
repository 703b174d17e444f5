import PowerFS.Layout.Striping

/-! # The layout codec

A file layout travels as a row of fields inside a message. The decoder collects
layout fields as long as it sees the id of one, and puts the layout together from
what it has collected. Fields in front of the layout are skipped only while their
ids are known. -/
namespace PowerFS.Layout.Codec

open Lib.ByteString Net.Tlv Striping

/-! ## Fields -/

/-- The fields that belong to a layout. -/
inductive LayoutField where
  | placement | inlineMaxSize | stripeSize | stripeCount | startVolumeIdx | volumeIds
  | volumeIdsRange | reliability | reliabilityState | compression | chunkLayout | inlineData
  deriving DecidableEq, Repr

def LayoutField.code : LayoutField → UInt8
  | .placement => 0xA0
  | .reliability => 0xA1
  | .reliabilityState => 0xA2
  | .compression => 0xA3
  | .chunkLayout => 0xA4
  | .stripeSize => 0xA8
  | .stripeCount => 0xA9
  | .startVolumeIdx => 0xAA
  | .volumeIds => 0xAB
  | .inlineData => 0xAE
  | .inlineMaxSize => 0xAF
  | .volumeIdsRange => 0xB6

/-- `is_file_layout_field`, with the field it is. -/
def layoutField? (c : UInt8) : Option LayoutField :=
  [.placement, .inlineMaxSize, .stripeSize, .stripeCount, .startVolumeIdx, .volumeIds,
    .volumeIdsRange, .reliability, .reliabilityState, .compression, .chunkLayout,
    .inlineData].find? (·.code == c)

theorem code_of_layoutField? {c : UInt8} {f : LayoutField} (h : layoutField? c = some f) :
    f.code = c := by
  simpa using List.find?_some h

theorem layoutField?_code (f : LayoutField) :
    layoutField? f.code = some f ∧ ∃ id, FieldId.fromU8 f.code = some id := by
  cases f <;> exact ⟨by decide, _, rfl⟩

/-! ## Encoding -/

def u32LE (n : UInt32) : Bytes := toLE 4 n.toNat

def u64LE (n : UInt64) : Bytes := toLE 8 n.toNat

/-- The fields an encoder adds, in order. -/
abbrev Row := List (LayoutField × Bytes)

/-- Each id is the first one plus its index. -/
def contiguous (ids : List UInt64) : Bool :=
  ids.zipIdx.all fun vi => vi.1 == ids.headD 0 + UInt64.ofNat vi.2

def encodeVolumeIds (ids : List UInt64) : Row :=
  if 2 ≤ ids.length ∧ contiguous ids then
    [(.volumeIdsRange, u64LE (ids.headD 0) ++ toLE 4 ids.length)]
  else [(.volumeIds, ids.flatMap u64LE)]

def encodeStripes (tag : UInt8) (s : Stripes) : Row :=
  [(.placement, [tag]), (.stripeSize, u64LE s.stripeSize), (.stripeCount, u32LE s.stripeCount),
    (.startVolumeIdx, u32LE s.startVolumeIdx)] ++ encodeVolumeIds s.volumeIds

def encodePlacement : Placement → Row
  | .inline maxSize => [(.placement, [0]), (.inlineMaxSize, u32LE maxSize)]
  | .flat => [(.placement, [1])]
  | .stripe s => encodeStripes 2 s
  | .wideStripe s => encodeStripes 3 s

def encodeReliability : Reliability → Bytes
  | .singleReplica => [0]
  | .replicated count => 1 :: u32LE count
  | .ec data parity => 2 :: (u32LE data ++ u32LE parity)

def reliabilityStateToU8 : ReliabilityState → UInt8
  | .pendingReplicated => 0
  | .replicated => 1
  | .pendingEC => 2
  | .ec => 3
  | .degraded => 4

def compressionStateToU8 : CompressionState → UInt8
  | .none => 0
  | .pending => 1
  | .compressed => 2

def CompressionAlgo.toTag : CompressionAlgo → UInt8
  | .none => 0
  | .zstd => 1

def encodeChunkRef (c : ChunkRef) : Bytes :=
  u64LE c.offset ++ u64LE c.size ++ u64LE c.needleId ++ u64LE c.volumeId ++ u32LE c.crc32 ++
    u64LE c.mtime

def encodeCompressionTrailer (chunks : List ChunkRef) : Bytes :=
  if chunks.all fun c => c.compression == .none then []
  else toLE 4 chunks.length ++ chunks.map fun c => CompressionAlgo.toTag c.compression

def encodeChunks (chunks : List ChunkRef) : Bytes :=
  toLE 4 chunks.length ++ (chunks.flatMap encodeChunkRef ++ encodeCompressionTrailer chunks)

def encodeEncoding : ChunkEncoding → Bytes
  | .inlineData data => 0 :: (toLE 4 data.length ++ data)
  | .perChunk chunks => 1 :: encodeChunks chunks
  | .stripeDescriptor startNeedleId chunkSize chunkCount volumeIds startVolumeIdx =>
    2 :: (u64LE startNeedleId ++ (u32LE chunkSize ++ (u32LE chunkCount ++ (u32LE startVolumeIdx ++
      (toLE 4 volumeIds.length ++ volumeIds.flatMap u64LE)))))
  | .paginated chunks totalCount hasMore nextOffset =>
    3 :: (u32LE totalCount ++ ([if hasMore then 1 else 0] ++ (u64LE nextOffset ++
      encodeChunks chunks)))

def layoutRow (l : FileLayout) : Row :=
  encodePlacement l.placement ++
    [(.reliability, encodeReliability l.reliability),
      (.reliabilityState, [reliabilityStateToU8 l.reliabilityState]),
      (.compression, [compressionStateToU8 l.compression]),
      (.chunkLayout, encodeEncoding l.encoding)]

/-- `add_bytes` refuses a value whose length does not fit its four bytes. -/
def writeRow : Row → Except LayoutError Bytes
  | [] => .ok []
  | (f, v) :: row =>
    let len := v.length
    if len < 2 ^ 32 then
      (writeRow row).map (f.code :: (toBE 4 len ++ v) ++ ·)
    else .error (.tlvDecode s!"Serialization error: bytes too long: {len} > 4294967295")

def encodeFileLayout (l : FileLayout) : Except LayoutError Bytes := writeRow (layoutRow l)

/-! ## Decoding values -/

/-- `read_u32_at` and `read_u64_at` for widths 4 and 8. -/
def readAt (w : Nat) (bs : Bytes) (offset : Nat) : Option Nat :=
  if offset + w ≤ bs.length then some (ofLE ((bs.drop offset).take w)) else none

/-- The first `n` pieces of `w` bytes. -/
def pieces (w : Nat) : Nat → Bytes → List Bytes
  | 0, _ => []
  | n + 1, bs => bs.take w :: pieces w n (bs.drop w)

def decodeVolumeIds (bs : Bytes) : Except LayoutError (List UInt64) :=
  let len := bs.length
  if len % 8 ≠ 0 then .error (.tlvDecode s!"volume_ids length {len} not multiple of 8")
  else .ok ((pieces 8 (len / 8) bs).map fun p => UInt64.ofNat (ofLE p))

/-- A list of `needed` bytes that does not fit behind the offset. -/
def truncated {α : Type} (what : String) (needed offset : Nat) (bs : Bytes) :
    Except LayoutError α :=
  let present := bs.length
  .error (.invalidEncoding
    s!"{what} truncated: need {needed} bytes at offset {offset}, have {present}")

def decodeVolumeIdsFrom (bs : Bytes) (offset count : Nat) : Except LayoutError (List UInt64) :=
  if offset + count * 8 ≤ bs.length then
    .ok ((pieces 8 count (bs.drop offset)).map fun p => UInt64.ofNat (ofLE p))
  else truncated "volume_ids" (count * 8) offset bs

def decodeReliability (bs : Bytes) : Except LayoutError Reliability :=
  match bs with
  | [] => .error (.invalidReliability "empty reliability field")
  | tag :: _ =>
    if tag = 0 then .ok .singleReplica
    else if tag = 1 then
      match readAt 4 bs 1 with
      | some count => .ok (.replicated (UInt32.ofNat count))
      | none => .error (.invalidReliability "Replicated missing count")
    else if tag = 2 then
      match readAt 4 bs 1, readAt 4 bs 5 with
      | some data, some parity => .ok (.ec (UInt32.ofNat data) (UInt32.ofNat parity))
      | none, _ => .error (.invalidReliability "EC missing data")
      | _, none => .error (.invalidReliability "EC missing parity")
    else .error (.invalidReliability s!"unknown reliability tag {tag}")

def u8ToReliabilityState (tag : Nat) : Except LayoutError ReliabilityState :=
  match tag with
  | 0 => .ok .pendingReplicated
  | 1 => .ok .replicated
  | 2 => .ok .pendingEC
  | 3 => .ok .ec
  | 4 => .ok .degraded
  | _ => .error (.invalidReliability s!"unknown reliability state tag {tag}")

def u8ToCompressionState (tag : Nat) : Except LayoutError CompressionState :=
  match tag with
  | 0 => .ok .none
  | 1 => .ok .pending
  | 2 => .ok .compressed
  | _ => .error (.invalidReliability s!"unknown compression state tag {tag}")

def CompressionAlgo.fromTag (tag : UInt8) : CompressionAlgo :=
  if tag = 1 then .zstd else .none

def decodeChunkRef (p : Bytes) : ChunkRef where
  offset := UInt64.ofNat (ofLE (slice p 0 8))
  size := UInt64.ofNat (ofLE (slice p 8 16))
  needleId := UInt64.ofNat (ofLE (slice p 16 24))
  volumeId := UInt64.ofNat (ofLE (slice p 24 32))
  crc32 := UInt32.ofNat (ofLE (slice p 32 36))
  mtime := UInt64.ofNat (ofLE (slice p 36 44))
  compression := .none

/-- The compression tags behind a chunk list; anything unexpected means none. -/
def decodeTrailer (rest : Bytes) (chunks : List ChunkRef) : List ChunkRef :=
  if readAt 4 rest 0 = some chunks.length ∧ 4 + chunks.length ≤ rest.length then
    chunks.zipWith (fun c tag => { c with compression := CompressionAlgo.fromTag tag })
      ((rest.drop 4).take chunks.length)
  else chunks

def decodeChunkList (bs : Bytes) (offset count : Nat) : Except LayoutError (List ChunkRef) :=
  if offset + count * 44 ≤ bs.length then
    .ok (decodeTrailer (bs.drop (offset + count * 44))
      ((pieces 44 count (bs.drop offset)).map decodeChunkRef))
  else truncated "chunk list" (count * 44) offset bs

def missing {α : Type} (text : String) : Option α → Except LayoutError α
  | some a => .ok a
  | none => .error (.invalidEncoding text)

def decodeEncoding (bs : Bytes) : Except LayoutError ChunkEncoding :=
  match bs with
  | [] => .error (.invalidEncoding "empty encoding field")
  | tag :: rest =>
    if tag = 0 then do
      let len ← missing "InlineData missing len" (readAt 4 rest 0)
      if 4 + len ≤ rest.length then return .inlineData ((rest.drop 4).take len)
      else .error (.invalidEncoding "InlineData data truncated")
    else if tag = 1 then do
      let count ← missing "PerChunk missing count" (readAt 4 rest 0)
      return .perChunk (← decodeChunkList rest 4 count)
    else if tag = 2 then do
      let startNeedleId ← missing "StripeDescriptor missing start_needle_id" (readAt 8 rest 0)
      let chunkSize ← missing "StripeDescriptor missing chunk_size" (readAt 4 rest 8)
      let chunkCount ← missing "StripeDescriptor missing chunk_count" (readAt 4 rest 12)
      let startVolumeIdx ← missing "StripeDescriptor missing start_volume_idx" (readAt 4 rest 16)
      let volCount ← missing "StripeDescriptor missing vol_count" (readAt 4 rest 20)
      let volumeIds ← decodeVolumeIdsFrom rest 24 volCount
      return .stripeDescriptor (UInt64.ofNat startNeedleId) (UInt32.ofNat chunkSize)
        (UInt32.ofNat chunkCount) volumeIds (UInt32.ofNat startVolumeIdx)
    else if tag = 3 then do
      let totalCount ← missing "Paginated missing total_count" (readAt 4 rest 0)
      let hasMore ← missing "Paginated missing has_more" rest[4]?
      let nextOffset ← missing "Paginated missing next_offset" (readAt 8 rest 5)
      let chunkCount ← missing "Paginated missing chunk_count" (readAt 4 rest 13)
      let chunks ← decodeChunkList rest 17 chunkCount
      return .paginated chunks (UInt32.ofNat totalCount) (hasMore != 0) (UInt64.ofNat nextOffset)
    else .error (.invalidEncoding s!"unknown encoding tag {tag}")

/-! ## Collecting fields -/

structure Collected where
  placementTag : Option Nat := none
  inlineMaxSize : Option UInt32 := none
  stripeSize : Option UInt64 := none
  stripeCount : Option UInt32 := none
  startVolumeIdx : Option UInt32 := none
  volumeIds : Option (List UInt64) := none
  volumeIdsRange : Option (UInt64 × UInt32) := none
  reliability : Option Reliability := none
  reliabilityState : ReliabilityState := .pendingReplicated
  compression : CompressionState := .none
  encoding : Option ChunkEncoding := none
  inlineData : Option Bytes := none

/-- How the value of a field is read. -/
def LayoutField.kind : LayoutField → Kind
  | .placement | .reliabilityState | .compression => .u8
  | .inlineMaxSize | .stripeCount | .startVolumeIdx => .u32
  | .stripeSize => .u64
  | .volumeIds | .volumeIdsRange | .reliability | .chunkLayout | .inlineData => .bytes

/-- What the loop does with a value it has read. -/
def Collected.accept (c : Collected) : LayoutField → Value → Except LayoutError Collected
  | .placement, .number n => .ok { c with placementTag := some n }
  | .inlineMaxSize, .number n => .ok { c with inlineMaxSize := some (UInt32.ofNat n) }
  | .stripeSize, .number n => .ok { c with stripeSize := some (UInt64.ofNat n) }
  | .stripeCount, .number n => .ok { c with stripeCount := some (UInt32.ofNat n) }
  | .startVolumeIdx, .number n => .ok { c with startVolumeIdx := some (UInt32.ofNat n) }
  | .volumeIds, .bytes v => (decodeVolumeIds v).map fun ids => { c with volumeIds := some ids }
  | .volumeIdsRange, .bytes v =>
    let len := v.length
    if len ≠ 12 then .error (.tlvDecode s!"VolumeIdsRange length {len} != 12")
    else
      let start := UInt64.ofNat (ofLE (slice v 0 8))
      let count := UInt32.ofNat (ofLE (slice v 8 12))
      .ok { c with volumeIdsRange := some (start, count) }
  | .reliability, .bytes v => (decodeReliability v).map fun r => { c with reliability := some r }
  | .reliabilityState, .number n =>
    (u8ToReliabilityState n).map fun s => { c with reliabilityState := s }
  | .compression, .number n => (u8ToCompressionState n).map fun s => { c with compression := s }
  | .chunkLayout, .bytes v => (decodeEncoding v).map fun e => { c with encoding := some e }
  | .inlineData, .bytes v => .ok { c with inlineData := some v }
  | _, _ => .ok c

/-- The bytes a chunk reference takes in memory. -/
def chunkRefBytes : Nat := 48

/-- The memory the vectors of an encoding take. -/
def ChunkEncoding.alloc : ChunkEncoding → Nat
  | .inlineData data => data.length
  | .perChunk chunks | .paginated chunks _ _ _ => chunkRefBytes * chunks.length
  | .stripeDescriptor _ _ _ ids _ => 8 * ids.length

/-- The memory the vectors made from a value take. -/
def allocOf : LayoutField → Bytes → Nat
  | .volumeIds, v => if v.length % 8 = 0 then v.length else 0
  | .inlineData, v => v.length
  | .chunkLayout, v =>
    match decodeEncoding v with
    | .ok e => ChunkEncoding.alloc e
    | .error _ => 0
  | _, _ => 0

/-- A call ends with an error or panics. -/
inductive Failure where
  | error (e : LayoutError)
  | panic

/-- What a decoding step leaves: the result, the rest of the body and the memory used. -/
structure Outcome (α : Type) where
  result : Except Failure α
  rest : Bytes
  allocated : Nat

/-- The loop of `decode_file_layout`. A field whose id was seen is assumed to be complete. -/
def decodeLoop : Nat → Collected → Nat → Bytes → Outcome Collected
  | 0, c, spent, bs => ⟨.ok c, bs, spent⟩
  | fuel + 1, c, spent, bs =>
    match (peekField bs).bind fun f => layoutField? f.asU8 with
    | none => ⟨.ok c, bs, spent⟩
    | some _ =>
      match nextField bs with
      | (none, rest) => ⟨.error .panic, rest, spent⟩
      | (some (f, length), rest) =>
        match layoutField? f.asU8 with
        | none => ⟨.ok c, rest, spent⟩
        | some field =>
          match field.kind.read (fun _ => true) length rest with
          | (.error e, rest') => ⟨.error (.error (.net e)), rest', spent⟩
          | (.ok value, rest') =>
            match c.accept field value with
            | .error e => ⟨.error (.error e), rest', spent⟩
            | .ok c' => decodeLoop fuel c' (spent + allocOf field (rest.take length)) rest'

/-- The ids of a range; the addition traps when it leaves 64 bits. -/
def expandRange (start : UInt64) (count : UInt32) : Except Failure (List UInt64) :=
  if count = 0 ∨ start.toNat + count.toNat ≤ 2 ^ 64 then
    .ok ((List.range count.toNat).map fun i => start + UInt64.ofNat i)
  else .error .panic

def assemblePlacement (c : Collected) (volumeIds : Option (List UInt64)) :
    Except LayoutError Placement :=
  match c.placementTag.getD 1 with
  | 0 =>
    match c.inlineMaxSize with
    | some maxSize => .ok (.inline maxSize)
    | none => .error (.tlvDecode "Inline placement missing InlineMaxSize")
  | 1 => .ok .flat
  | 2 =>
    match c.stripeCount with
    | some count => .ok (.stripe ⟨c.stripeSize.getD (64 * 1024 * 1024), count,
        c.startVolumeIdx.getD 0, volumeIds.getD []⟩)
    | none => .error (.tlvDecode "Stripe placement missing StripeCount")
  | 3 =>
    match c.stripeCount with
    | some count => .ok (.wideStripe ⟨c.stripeSize.getD (4 * 1024 * 1024), count,
        c.startVolumeIdx.getD 0, volumeIds.getD []⟩)
    | none => .error (.tlvDecode "WideStripe placement missing StripeCount")
  | tag => .error (.invalidPlacement s!"unknown placement tag {tag}")

/-- The volume ids, with the memory an expanded range takes. -/
def Collected.volumes (c : Collected) : Except Failure (Option (List UInt64)) × Nat :=
  match c.volumeIds, c.volumeIdsRange with
  | some ids, _ => (.ok (some ids), 0)
  | none, some (start, count) => ((expandRange start count).map some, 8 * count.toNat)
  | none, none => (.ok none, 0)

def Collected.assemble (c : Collected) (ids : Option (List UInt64)) : Except Failure FileLayout :=
  match assemblePlacement c ids with
  | .error e => .error (.error e)
  | .ok placement => .ok {
      placement
      reliability := c.reliability.getD .singleReplica
      reliabilityState := c.reliabilityState
      compression := c.compression
      encoding := c.encoding.getD (match c.inlineData with
        | some data => .inlineData data
        | none => .perChunk []) }

/-- The part of `decode_file_layout` behind the loop. -/
def finish (o : Outcome Collected) : Outcome FileLayout :=
  match o.result with
  | .error e => ⟨.error e, o.rest, o.allocated⟩
  | .ok c =>
    match c.volumes with
    | (.error e, n) => ⟨.error e, o.rest, o.allocated + n⟩
    | (.ok ids, n) => ⟨c.assemble ids, o.rest, o.allocated + n⟩

def decodeFileLayout (bs : Bytes) : Outcome FileLayout :=
  finish (decodeLoop bs.length {} 0 bs)

/-- The loop of `decode_file_layout_from_mixed` that skips known fields of other kinds. -/
def skipLeading : Nat → Bytes → Except LayoutError Unit × Bytes
  | 0, bs => (.ok (), bs)
  | fuel + 1, bs =>
    match peekField bs with
    | none => (.ok (), bs)
    | some f =>
      if (layoutField? f.asU8).isSome then (.ok (), bs)
      else
        match nextField bs with
        | (none, rest) => (.error (.tlvDecode "peeked field vanished during skip"), rest)
        | (some (_, length), rest) =>
          match skip length rest with
          | (.error e, rest') => (.error (.net e), rest')
          | (.ok _, rest') => skipLeading fuel rest'

def decodeFileLayoutFromMixed (bs : Bytes) : Outcome FileLayout :=
  match skipLeading bs.length bs with
  | (.error e, rest) => ⟨.error (.error e), rest, 0⟩
  | (.ok _, rest) => decodeFileLayout rest

end PowerFS.Layout.Codec
