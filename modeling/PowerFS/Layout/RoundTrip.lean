import PowerFS.Layout.Codec

/-! # Layouts survive the wire

What the encoder writes, the decoder reads back, whatever follows it: each value
round-trips, the loop takes the fields one by one and stops in front of anything
that is not a layout field. In front of the layout only fields with known ids are
skipped; at the first unknown id the decoder gives up and returns the default. -/
namespace PowerFS.Layout.RoundTrip
open List

open Lib.ByteString Net.Tlv Striping Codec

/-! ## Values -/

variable {w offset : Nat} {a rest bytes : Bytes} {c : Collected} {row : Row}

theorem readAt_here {n : Nat} (rest : Bytes) (h : n < 256 ^ w) :
    readAt w (toLE w n ++ rest) 0 = some n := by
  simp [readAt, take_left' (toLE_length w n), ofLE_toLE_of_lt h]

theorem readAt_skip (h : a.length ≤ offset) :
    readAt w (a ++ rest) offset = readAt w rest (offset - a.length) := by
  have hdrop : (a ++ rest).drop offset = rest.drop (offset - a.length) := by
    rw [drop_append, drop_eq_nil_of_le h, nil_append]
  have hiff : offset + w ≤ (a ++ rest).length ↔ offset - a.length + w ≤ rest.length := by
    rw [length_append]
    omega
  simp only [readAt, hdrop, hiff]

theorem readAt_cons (x : UInt8) (bs : Bytes) (n : Nat) :
    readAt w (x :: bs) (n + 1) = readAt w bs n := by
  rw [← singleton_append, readAt_skip (by simp)]
  simp

@[simp] theorem u32LE_length (n : UInt32) : (u32LE n).length = 4 := toLE_length 4 _

@[simp] theorem u64LE_length (n : UInt64) : (u64LE n).length = 8 := toLE_length 8 _

theorem readAt_u32 (n : UInt32) (rest : Bytes) : readAt 4 (u32LE n ++ rest) 0 = some n.toNat :=
  readAt_here rest (by have := n.toNat_lt; norm_num; omega)

theorem readAt_u64 (n : UInt64) (rest : Bytes) : readAt 8 (u64LE n ++ rest) 0 = some n.toNat :=
  readAt_here rest (by have := n.toNat_lt; norm_num; omega)

@[simp] theorem ofLE_u32LE (n : UInt32) : UInt32.ofNat (ofLE (u32LE n)) = n := by simp [u32LE]

@[simp] theorem ofLE_u64LE (n : UInt64) : UInt64.ofNat (ofLE (u64LE n)) = n := by simp [u64LE]

variable {α : Type} {f : α → Bytes} {chunks : List ChunkRef} {v bs : Bytes} {ids : List UInt64}
  {l : FileLayout} {lead : List WireField}

/-- Values of one width written one after another come apart again. -/
theorem pieces_flatMap (hf : ∀ x, (f x).length = w) (xs : List α) (rest : Bytes) :
    pieces w xs.length (xs.flatMap f ++ rest) = xs.map f := by
  induction xs with
  | nil => rfl
  | cons x xs ih =>
    simp only [flatMap_cons, append_assoc, length_cons, pieces, map_cons]
    rw [take_left' (hf x), drop_left' (hf x), ih]

theorem flatMap_length (hf : ∀ x, (f x).length = w) (xs : List α) :
    (xs.flatMap f).length = xs.length * w := by
  induction xs with
  | nil => simp
  | cons x xs ih => simp [hf, ih, Nat.succ_mul, Nat.add_comm]

theorem decodeVolumeIds_encode (ids : List UInt64) :
    decodeVolumeIds (ids.flatMap u64LE) = .ok ids := by
  have hlen := flatMap_length u64LE_length ids
  have hpieces := pieces_flatMap u64LE_length ids []
  rw [append_nil] at hpieces
  rw [decodeVolumeIds, if_neg (by omega), hlen, Nat.mul_div_cancel _ (by decide), hpieces]
  simp [Function.comp_def]

theorem decodeVolumeIdsFrom_encode (ha : a.length = offset) (ids : List UInt64) :
    decodeVolumeIdsFrom (a ++ ids.flatMap u64LE) offset ids.length = .ok ids := by
  have hpieces := pieces_flatMap u64LE_length ids []
  rw [append_nil] at hpieces
  rw [decodeVolumeIdsFrom, if_pos (by simp [flatMap_length u64LE_length, ha]),
    drop_left' ha, hpieces]
  simp [Function.comp_def]

theorem decodeReliability_encode (r : Reliability) :
    decodeReliability (encodeReliability r) = .ok r := by
  cases r with
  | singleReplica => rfl
  | replicated count =>
    have := readAt_u32 count []
    rw [append_nil] at this
    simp [decodeReliability, encodeReliability, readAt_cons, this]
  | ec data parity =>
    have h1 := readAt_u32 data (u32LE parity)
    have h2 := readAt_u32 parity []
    rw [append_nil] at h2
    have h5 : readAt 4 (u32LE data ++ u32LE parity) 4 = some parity.toNat := by
      rw [readAt_skip (by simp)]
      simpa using h2
    simp [decodeReliability, encodeReliability, readAt_cons, h1, h5]

@[simp] theorem encodeChunkRef_length (c : ChunkRef) : (encodeChunkRef c).length = 44 := by
  simp [encodeChunkRef]

theorem decodeChunkRef_encode (c : ChunkRef) :
    decodeChunkRef (encodeChunkRef c) = { c with compression := .none } := by
  have hskip : ∀ (n : UInt64) (rest : Bytes) (i j : Nat),
      slice (u64LE n ++ rest) (i + 8) (j + 8) = slice rest i j := by
    intro n rest i j
    rw [slice_skip (by simp), u64LE_length]
    simp
  have h64 : ∀ (n : UInt64) (rest : Bytes), slice (u64LE n ++ rest) 0 8 = u64LE n :=
    fun n rest => slice_head (by simp)
  have hbytes : encodeChunkRef c = u64LE c.offset ++ (u64LE c.size ++ (u64LE c.needleId ++
      (u64LE c.volumeId ++ (u32LE c.crc32 ++ (u64LE c.mtime ++ []))))) := by
    simp [encodeChunkRef]
  have hcrc : slice (encodeChunkRef c) 32 36 = u32LE c.crc32 := by
    rw [hbytes, hskip _ _ 24 28, hskip _ _ 16 20, hskip _ _ 8 12, hskip _ _ 0 4,
      slice_head (by simp)]
  have hmtime : slice (encodeChunkRef c) 36 44 = u64LE c.mtime := by
    rw [hbytes, hskip _ _ 28 36, hskip _ _ 20 28, hskip _ _ 12 20, hskip _ _ 4 12,
      slice_skip (by simp), u32LE_length, h64]
  rw [decodeChunkRef, hcrc, hmtime, hbytes, h64, hskip _ _ 0 8, h64, hskip _ _ 8 16,
    hskip _ _ 0 8, h64, hskip _ _ 16 24, hskip _ _ 8 16, hskip _ _ 0 8, h64]
  simp only [ofLE_u64LE, ofLE_u32LE]

/-- The chunks without their tags, and the tags, give the chunks. -/
theorem zipWith_tags (chunks : List ChunkRef) :
    ((chunks.map fun c => { c with compression := CompressionAlgo.none }).zipWith
      (fun c tag => { c with compression := CompressionAlgo.fromTag tag })
      (chunks.map fun c => CompressionAlgo.toTag c.compression)) = chunks := by
  induction chunks with
  | nil => rfl
  | cons c cs ih =>
    simp only [map_cons, zipWith_cons_cons, ih]
    congr
    cases h : c.compression <;> rfl

theorem decodeTrailer_encode (hcount : chunks.length < 2 ^ 32) :
    decodeTrailer (encodeCompressionTrailer chunks)
      (chunks.map fun c => { c with compression := CompressionAlgo.none }) = chunks := by
  unfold encodeCompressionTrailer decodeTrailer
  split
  · rename_i hall
    rw [all_eq_true] at hall
    rw [if_neg (by simp [readAt])]
    conv_rhs => rw [← map_id chunks]
    refine map_congr_left fun c hc => ?_
    have : c.compression = .none := by simpa using hall c hc
    cases c
    simp_all
  · have hread := readAt_here (w := 4) (n := chunks.length)
      (chunks.map fun c => CompressionAlgo.toTag c.compression) (by norm_num; omega)
    rw [if_pos ⟨by rw [hread, length_map], by simp⟩, drop_left' (by simp),
      take_of_length_le (by simp)]
    exact zipWith_tags chunks

theorem decodeChunkList_encode (ha : a.length = offset) (hcount : chunks.length < 2 ^ 32) :
    decodeChunkList (a ++ (chunks.flatMap encodeChunkRef ++ encodeCompressionTrailer chunks))
      offset chunks.length = .ok chunks := by
  have hlen := flatMap_length encodeChunkRef_length chunks
  have hdecode : (chunks.map encodeChunkRef).map decodeChunkRef =
      chunks.map fun c => { c with compression := CompressionAlgo.none } := by
    simp [Function.comp_def, decodeChunkRef_encode]
  unfold decodeChunkList
  rw [if_pos (by simp [hlen, ha]), drop_left' ha, pieces_flatMap encodeChunkRef_length,
    ← append_assoc, drop_left' (by simp [hlen, ha]), hdecode,
    decodeTrailer_encode hcount]

theorem decodeEncoding_encode {e : ChunkEncoding} (hfit : (encodeEncoding e).length < 2 ^ 32) :
    decodeEncoding (encodeEncoding e) = .ok e := by
  have hread : ∀ {n : Nat} (rest : Bytes), n < 2 ^ 32 → readAt 4 (toLE 4 n ++ rest) 0 = some n :=
    fun rest hn => readAt_here rest (by norm_num; omega)
  cases e with
  | inlineData data =>
    have hn : data.length < 2 ^ 32 := by simp [encodeEncoding] at hfit; omega
    simp [decodeEncoding, encodeEncoding, hread _ hn, missing, drop_left', pure, Except.pure,
      bind, Except.bind]
  | perChunk chunks =>
    have hn : chunks.length < 2 ^ 32 := by
      simp [encodeEncoding, encodeChunks, flatMap_length encodeChunkRef_length] at hfit
      omega
    have hlist := decodeChunkList_encode (toLE_length 4 chunks.length) hn
    simp [decodeEncoding, encodeEncoding, encodeChunks, hread _ hn, missing, hlist, pure,
      Except.pure, bind, Except.bind]
  | stripeDescriptor startNeedleId chunkSize chunkCount volumeIds startVolumeIdx =>
    have hn : volumeIds.length < 2 ^ 32 := by
      simp [encodeEncoding, flatMap_length u64LE_length] at hfit
      omega
    have hlen : (u64LE startNeedleId ++ (u32LE chunkSize ++ (u32LE chunkCount ++
        (u32LE startVolumeIdx ++ toLE 4 volumeIds.length)))).length = 24 := by simp
    have hlist := decodeVolumeIdsFrom_encode hlen volumeIds
    simp only [append_assoc] at hlist
    simp [decodeEncoding, encodeEncoding, readAt_u64, readAt_u32, readAt_skip, hread _ hn, missing,
      hlist, pure, Except.pure, bind, Except.bind]
  | paginated chunks totalCount hasMore nextOffset =>
    have hn : chunks.length < 2 ^ 32 := by
      simp [encodeEncoding, encodeChunks, flatMap_length encodeChunkRef_length] at hfit
      omega
    have hlen : (u32LE totalCount ++ ([if hasMore then 1 else 0] ++
        (u64LE nextOffset ++ toLE 4 chunks.length))).length = 17 := by simp
    have hlist := decodeChunkList_encode hlen hn
    cases hasMore <;>
    simp [decodeEncoding, encodeEncoding, encodeChunks, readAt_u64, readAt_u32, readAt_skip,
      readAt_cons, hread _ hn, missing, pure, Except.pure, bind, Except.bind] at hlist ⊢ <;>
    simp [hlist]

/-! ## Fields -/

/-- The fields of a row are taken one after another. -/
def Takes (c : Collected) : Row → Collected → Prop
  | [], c' => c' = c
  | (f, v) :: row, c' => f.kind.Readable (fun _ => true) v ∧
      ∃ d, c.accept f (f.kind.valueOf v) = .ok d ∧ Takes d row c'

/-- The memory the values of a row take. -/
def rowCost (row : Row) : Nat := (row.map fun fv => allocOf fv.1 fv.2).sum

/-- Nothing here starts a layout field. -/
def Stops (bs : Bytes) : Prop :=
  (peekField bs).bind (fun f => layoutField? f.asU8) = none

theorem takes_append {d e : Collected} {row' : Row} (h : Takes c row d) (h' : Takes d row' e) :
    Takes c (row ++ row') e := by
  induction row generalizing c with
  | nil =>
    obtain rfl : d = c := h
    exact h'
  | cons fv row ih =>
    obtain ⟨hread, x, hx, hrest⟩ := h
    exact ⟨hread, x, hx, ih hrest⟩

/-- A written row starts with a field of its own. -/
theorem writeRow_cons {f : LayoutField} (h : writeRow ((f, v) :: row) = .ok bytes) :
    ∃ (hv : v.length < 2 ^ 32) (rest : Bytes), writeRow row = .ok rest ∧
      bytes = (WireField.mk f.code v hv).encode ++ rest := by
  unfold writeRow at h
  dsimp only at h
  split at h
  · rename_i hv
    cases hrow : writeRow row with
    | error e => rw [hrow] at h; cases h
    | ok rest =>
      rw [hrow] at h
      cases h
      exact ⟨hv, rest, rfl, rfl⟩
  · cases h

theorem writeRow_fits (h : writeRow row = .ok bytes) : ∀ fv ∈ row, fv.2.length < 2 ^ 32 := by
  induction row generalizing bytes with
  | nil => simp
  | cons fv row ih =>
    obtain ⟨hv, rest, hrest, -⟩ := writeRow_cons h
    exact forall_mem_cons.mpr ⟨hv, ih hrest⟩

/-- A written row is at least as long as it has fields. -/
theorem writeRow_length (h : writeRow row = .ok bytes) : row.length ≤ bytes.length := by
  induction row generalizing bytes with
  | nil => simp
  | cons fv row ih =>
    obtain ⟨hv, rest, hrest, rfl⟩ := writeRow_cons h
    have := ih hrest
    rw [length_append, WireField.encode_length, length_cons]
    omega

/-- One round of the loop over a layout field. -/
theorem decodeLoop_field (fuel : Nat) (c : Collected) (spent : Nat) (f : LayoutField)
    (hv : v.length < 2 ^ 32) (rest : Bytes) :
    decodeLoop (fuel + 1) c spent ((WireField.mk f.code v hv).encode ++ rest) =
      match f.kind.read (fun _ => true) v.length (v ++ rest) with
      | (.error e, rest') => ⟨.error (.error (.net e)), rest', spent⟩
      | (.ok value, rest') =>
        match c.accept f value with
        | .error e => ⟨.error (.error e), rest', spent⟩
        | .ok c' => decodeLoop fuel c' (spent + allocOf f v) rest' := by
  obtain ⟨hfield, id, hid⟩ := layoutField?_code f
  have hcode := FieldId.asU8_of_fromU8 hid
  have hpeek : peekField ((WireField.mk f.code v hv).encode ++ rest) = some id := by
    simp [WireField.encode, peekField, hid]
  have hnext := nextField_field (WireField.mk f.code v hv) rest
  simp only [WireField.id?, hid] at hnext
  rcases hread : f.kind.read (fun _ => true) v.length (v ++ rest) with ⟨e | value, rest'⟩
  · simp only [decodeLoop, hpeek, hnext, Option.bind_some, hcode, hfield, hread]
  cases haccept : c.accept f value <;>
    simp only [decodeLoop, hpeek, hnext, Option.bind_some, hcode, hfield, take_left', hread,
      haccept]

/-- **The loop takes a written row and goes on behind it.** -/
theorem decodeLoop_row {c' : Collected} (hwrite : writeRow row = .ok bytes)
    (htakes : Takes c row c') (fuel spent : Nat) (tail : Bytes) :
    decodeLoop (fuel + row.length) c spent (bytes ++ tail) =
      decodeLoop fuel c' (spent + rowCost row) tail := by
  induction row generalizing c bytes spent with
  | nil =>
    obtain rfl : c' = c := htakes
    cases hwrite
    rfl
  | cons fv row ih =>
    obtain ⟨f, v⟩ := fv
    obtain ⟨hv, rest, hrest, rfl⟩ := writeRow_cons hwrite
    obtain ⟨hread, d, hd, htail⟩ := htakes
    rw [length_cons, ← Nat.add_assoc, append_assoc, decodeLoop_field]
    rcases f.kind.read_value (fun _ => true) v (rest ++ tail) with ⟨-, hok⟩ | ⟨hno, -⟩
    · simp only [hok, hd]
      rw [ih hrest htail]
      simp [rowCost, Nat.add_assoc]
    · exact absurd hread hno

theorem decodeLoop_stops (h : Stops bs) (fuel : Nat) (c : Collected) (spent : Nat) :
    decodeLoop fuel c spent bs = ⟨.ok c, bs, spent⟩ := by
  cases fuel with
  | zero => rfl
  | succ fuel =>
    unfold Stops at h
    simp only [decodeLoop, h]

/-- What the decoder makes of a written row that is taken whole. -/
theorem decodeFileLayout_row {tail : Bytes} (hwrite : writeRow row = .ok bytes)
    (htakes : Takes {} row c) (htail : Stops tail) :
    decodeFileLayout (bytes ++ tail) = finish ⟨.ok c, tail, rowCost row⟩ := by
  have hlen : (bytes ++ tail).length =
      (bytes.length - row.length + tail.length) + row.length := by
    have := writeRow_length hwrite
    rw [length_append]
    omega
  rw [decodeFileLayout, hlen, decodeLoop_row hwrite htakes, decodeLoop_stops htail, Nat.zero_add]

/-! ## Whole layouts -/

/-- Volume lists whose length fits 32 bits, with ids far from the largest number. -/
def VolumesFit (p : Placement) : Prop :=
  ∀ s, p.stripes? = some s → s.volumeIds.length < 2 ^ 32 ∧ ∀ v ∈ s.volumeIds, v.toNat < 2 ^ 63

/-- A contiguous list is its range expanded. -/
theorem expandRange_contiguous (hc : contiguous ids = true) (hlen : ids.length < 2 ^ 32)
    (hids : ∀ v ∈ ids, v.toNat < 2 ^ 63) :
    expandRange (ids.headD 0) (UInt32.ofNat ids.length) = .ok ids := by
  have hcount : (UInt32.ofNat ids.length).toNat = ids.length :=
    UInt32.toNat_ofNat_of_lt' (by have : UInt32.size = 2 ^ 32 := rfl; omega)
  have hfirst : (ids.headD 0).toNat < 2 ^ 63 := by
    cases ids with
    | nil => simp
    | cons v vs => exact hids v (by simp)
  unfold expandRange
  rw [hcount, if_pos (.inr (by omega))]
  refine congrArg Except.ok (ext_getElem (by simp) fun i hi hi' => ?_)
  simp only [getElem_map, getElem_range]
  unfold contiguous at hc
  rw [all_eq_true] at hc
  have := hc (ids[i], i) (mk_mem_zipIdx_iff_getElem?.mpr (getElem?_eq_getElem hi'))
  exact (beq_iff_eq.mp this).symm

open Collected

theorem takes_volumeIds (c : Collected) (hc : c.volumeIds = none) (hlen : ids.length < 2 ^ 32)
    (hids : ∀ v ∈ ids, v.toNat < 2 ^ 63) :
    ∃ vs range n, Takes c (encodeVolumeIds ids)
      { c with volumeIds := vs, volumeIdsRange := range } ∧
      volumes { c with volumeIds := vs, volumeIdsRange := range } =
        (.ok (some ids), n) := by
  unfold encodeVolumeIds
  split
  · rename_i h
    have h8 : slice (u64LE (ids.headD 0) ++ toLE 4 ids.length) 0 8 = u64LE (ids.headD 0) :=
      slice_head (by simp)
    have h12 : slice (u64LE (ids.headD 0) ++ toLE 4 ids.length) 8 12 = toLE 4 ids.length := by
      rw [slice_skip (by simp), u64LE_length]
      have := slice_self (toLE 4 ids.length)
      rwa [toLE_length] at this
    refine ⟨none, some (ids.headD 0, UInt32.ofNat ids.length),
      8 * (UInt32.ofNat ids.length).toNat, ⟨trivial, _, ?_, rfl⟩, ?_⟩
    · simp only [LayoutField.kind, Kind.valueOf, accept, h8, h12, ofLE_u64LE,
        ofLE_toLE_of_lt (show ids.length < 256 ^ 4 by norm_num; omega)]
      rw [if_neg (by simp), ← hc]
    · simp only [volumes, expandRange_contiguous h.2 hlen hids]
      rfl
  · refine ⟨some ids, c.volumeIdsRange, _, ⟨trivial, _, ?_, rfl⟩, rfl⟩
    simp only [LayoutField.kind, Kind.valueOf, accept, decodeVolumeIds_encode]
    rfl

/-- What the fields of a striped placement in front of its volumes leave. -/
def stripedSoFar (tag : UInt8) (s : Stripes) : Collected where
  placementTag := some tag.toNat
  stripeSize := some s.stripeSize
  stripeCount := some s.stripeCount
  startVolumeIdx := some s.startVolumeIdx

theorem takes_placement {p : Placement} (hp : VolumesFit p) :
    ∃ c ids n, Takes {} (encodePlacement p) c ∧ c.volumes = (.ok ids, n) ∧
      assemblePlacement c ids = .ok p := by
  have hstripes : ∀ (tag : UInt8) (s : Stripes), p.stripes? = some s → ∃ vs range n,
      Takes {} (encodeStripes tag s)
        { stripedSoFar tag s with volumeIds := vs, volumeIdsRange := range } ∧
      volumes { stripedSoFar tag s with volumeIds := vs, volumeIdsRange := range } =
        (.ok (some s.volumeIds), n) := by
    intro tag s hs
    obtain ⟨vs, range, n, htakes, hvol⟩ :=
      takes_volumeIds (stripedSoFar tag s) rfl (hp s hs).1 (hp s hs).2
    refine ⟨vs, range, n, takes_append ?_ htakes, hvol⟩
    refine ⟨rfl, _, rfl, u64LE_length _, _, rfl, u32LE_length _, _, rfl, u32LE_length _, _, rfl, ?_⟩
    simp [Takes, ofLE, stripedSoFar]
  cases p with
  | inline maxSize =>
    refine ⟨{ placementTag := some 0, inlineMaxSize := some maxSize }, none, 0,
      ⟨rfl, _, rfl, u32LE_length _, _, rfl, ?_⟩, rfl, rfl⟩
    simp [Takes, ofLE]
  | flat => exact ⟨{ placementTag := some 1 }, none, 0, ⟨rfl, _, rfl, rfl⟩, rfl, rfl⟩
  | stripe s =>
    obtain ⟨vs, range, n, htakes, hvol⟩ := hstripes 2 s rfl
    exact ⟨_, _, n, htakes, hvol, rfl⟩
  | wideStripe s =>
    obtain ⟨vs, range, n, htakes, hvol⟩ := hstripes 3 s rfl
    exact ⟨_, _, n, htakes, hvol, rfl⟩

/-- The fields behind the placement set the other dimensions. -/
def dimensioned (c : Collected) (l : FileLayout) : Collected :=
  { c with
    reliability := some l.reliability
    reliabilityState := l.reliabilityState
    compression := l.compression
    encoding := some l.encoding }

theorem takes_dimensions (c : Collected) (l : FileLayout)
    (hfit : (encodeEncoding l.encoding).length < 2 ^ 32) :
    Takes c [(.reliability, encodeReliability l.reliability),
      (.reliabilityState, [reliabilityStateToU8 l.reliabilityState]),
      (.compression, [compressionStateToU8 l.compression]),
      (.chunkLayout, encodeEncoding l.encoding)] (dimensioned c l) := by
  refine ⟨trivial, { c with reliability := some l.reliability }, ?_, rfl,
    { c with reliability := some l.reliability, reliabilityState := l.reliabilityState }, ?_, rfl,
    { c with
      reliability := some l.reliability
      reliabilityState := l.reliabilityState
      compression := l.compression }, ?_, trivial, _, ?_, rfl⟩
  · simp only [LayoutField.kind, Kind.valueOf, accept, decodeReliability_encode]
    rfl
  · cases l.reliabilityState <;> rfl
  · cases l.compression <;> rfl
  · simp only [LayoutField.kind, Kind.valueOf, accept, decodeEncoding_encode hfit]
    rfl

theorem decode_encode {suffix : Bytes} (henc : encodeFileLayout l = .ok bytes)
    (hfit : VolumesFit l.placement) (hsuffix : Stops suffix) :
    (decodeFileLayout (bytes ++ suffix)).result = .ok l ∧
      (decodeFileLayout (bytes ++ suffix)).rest = suffix := by
  obtain ⟨c, ids, n, htakes, hvol, hplace⟩ := takes_placement hfit
  have hsize : (encodeEncoding l.encoding).length < 2 ^ 32 :=
    writeRow_fits henc (.chunkLayout, encodeEncoding l.encoding) (by simp [layoutRow])
  rw [decodeFileLayout_row henc (takes_append htakes (takes_dimensions c l hsize)) hsuffix]
  have hvol' : (dimensioned c l).volumes = (.ok ids, n) := hvol
  have hplace' : assemblePlacement (dimensioned c l) ids = .ok l.placement := hplace
  simp only [finish, hvol', assemble, hplace', and_true]
  rfl

/-! ## Fields in front of a layout -/

/-- The layout that no field at all decodes to. -/
def defaultLayout : FileLayout where
  placement := .flat
  reliability := .singleReplica
  reliabilityState := .pendingReplicated
  compression := .none
  encoding := .perChunk []

theorem decodeFileLayout_stops (h : Stops bs) :
    (decodeFileLayout bs).result = .ok defaultLayout := by
  rw [decodeFileLayout, decodeLoop_stops h]
  rfl

/-- Known fields of other kinds in front of the decoder's position are skipped. -/
theorem skipLeading_known (hlead : ∀ f ∈ lead, layoutField? f.code = none ∧ f.id? ≠ none)
    (hrest : ∀ f, peekField rest = some f → layoutField? f.asU8 ≠ none) (fuel : Nat) :
    skipLeading (fuel + lead.length) (encode lead ++ rest) = (.ok (), rest) := by
  induction lead with
  | nil =>
    cases fuel with
    | zero => rfl
    | succ fuel =>
      cases hpeek : peekField rest with
      | none => simp [skipLeading, hpeek]
      | some f =>
        have := Option.isSome_iff_ne_none.mpr (hrest f hpeek)
        simp [skipLeading, hpeek, this]
  | cons f lead ih =>
    obtain ⟨hother, hknown⟩ := hlead f (by simp)
    obtain ⟨id, hid⟩ := Option.ne_none_iff_exists'.mp hknown
    have hcode : id.asU8 = f.code := FieldId.asU8_of_fromU8 hid
    have hpeek : peekField (f.encode ++ (encode lead ++ rest)) = some id := hid
    have hnext := nextField_field f (encode lead ++ rest)
    simp only [hid] at hnext
    rw [encode_cons, append_assoc, length_cons, ← Nat.add_assoc]
    simp only [skipLeading, hpeek, hcode, hother, hnext, skip_value]
    exact ih fun g hg => hlead g (by simp [hg])

theorem encode_length_le (fs : List WireField) : fs.length ≤ (encode fs).length := by
  induction fs with
  | nil => simp
  | cons f fs ih =>
    rw [encode_cons, length_append, f.encode_length, length_cons]
    omega

theorem fromMixed_known (hlead : ∀ f ∈ lead, layoutField? f.code = none ∧ f.id? ≠ none)
    (hrest : ∀ f, peekField rest = some f → layoutField? f.asU8 ≠ none) :
    decodeFileLayoutFromMixed (encode lead ++ rest) = decodeFileLayout rest := by
  have hlen : (encode lead ++ rest).length =
      ((encode lead).length - lead.length + rest.length) + lead.length := by
    have := encode_length_le lead
    rw [length_append]
    omega
  rw [decodeFileLayoutFromMixed, hlen, skipLeading_known hlead hrest]

/-- A layout is never written as nothing. -/
theorem exists_field_of_encode (henc : encodeFileLayout l = .ok bytes) (suffix : Bytes) :
    ∃ f, peekField (bytes ++ suffix) = some f ∧ layoutField? f.asU8 ≠ none := by
  have hfirst : ∃ f v row, layoutRow l = (f, v) :: row := by
    cases hp : l.placement <;> simp [layoutRow, encodePlacement, encodeStripes, hp]
  obtain ⟨f, v, row, hrow⟩ := hfirst
  rw [encodeFileLayout, hrow] at henc
  obtain ⟨hv, rest, -, rfl⟩ := writeRow_cons henc
  obtain ⟨hfield, id, hid⟩ := layoutField?_code f
  refine ⟨id, by simpa [WireField.encode, peekField] using hid, ?_⟩
  rw [FieldId.asU8_of_fromU8 hid, hfield]
  simp

/-- **An encoded layout decodes to itself in front of anything that is not a layout field.
Behind other fields it does so exactly when all their ids are known, or the layout is the
default one.** -/
theorem layout_roundTrip (l : FileLayout) (bytes : Bytes)
    (henc : encodeFileLayout l = .ok bytes) (hfit : VolumesFit l.placement) (lead : List WireField)
    (hlead : ∀ f ∈ lead, layoutField? f.code = none) (suffix : Bytes) (hsuffix : Stops suffix) :
    ((decodeFileLayout (bytes ++ suffix)).result = .ok l ∧
      (decodeFileLayout (bytes ++ suffix)).rest = suffix) ∧
    ((decodeFileLayoutFromMixed (encode lead ++ (bytes ++ suffix))).result = .ok l ↔
      (∀ f ∈ lead, f.id? ≠ none) ∨ l = defaultLayout) := by
  have hdecode := decode_encode henc hfit hsuffix
  refine ⟨hdecode, ?_⟩
  by_cases hknown : ∀ f ∈ lead, f.id? ≠ none
  · rw [fromMixed_known (fun f hf => ⟨hlead f hf, hknown f hf⟩)]
    · exact ⟨fun _ => .inl hknown, fun _ => hdecode.1⟩
    · intro f hpeek
      obtain ⟨g, hg, hne⟩ := exists_field_of_encode henc suffix
      rw [hpeek] at hg
      cases hg
      exact hne
  · -- split at the first unknown id: there both loops stop
    obtain ⟨pre, f, post, rfl, hpre, hf⟩ :
        ∃ pre f post, lead = pre ++ f :: post ∧ (∀ g ∈ pre, g.id? ≠ none) ∧ f.id? = none := by
      clear hdecode hlead
      induction lead with
      | nil => simp at hknown
      | cons g lead ih =>
        by_cases hg : g.id? = none
        · exact ⟨[], g, lead, rfl, by simp, hg⟩
        · obtain ⟨pre, f, post, rfl, hpre, hf⟩ := ih (by simpa [hg] using hknown)
          exact ⟨g :: pre, f, post, rfl, by simpa [hg] using hpre, hf⟩
    have hpeek : ∀ rest, peekField (f.encode ++ rest) = none := fun _ => hf
    have hsplit : encode (pre ++ f :: post) ++ (bytes ++ suffix) =
        encode pre ++ (f.encode ++ (encode post ++ (bytes ++ suffix))) := by
      simp [encode]
    rw [hsplit, fromMixed_known (fun g hg => ⟨hlead g (by simp [hg]), hpre g hg⟩)
      (fun g hg => by rw [hpeek] at hg; cases hg),
      decodeFileLayout_stops (by rw [Stops, hpeek]; rfl)]
    constructor
    · intro h
      cases h
      exact .inr rfl
    · rintro (h | rfl)
      · exact absurd h hknown
      · rfl

/-- A striped file with a compressed chunk and its volumes as a range. -/
def sampleLayout : FileLayout where
  placement := .stripe ⟨64, 2, 0, [7, 8]⟩
  reliability := .ec 4 2
  reliabilityState := .pendingEC
  compression := .compressed
  encoding := .perChunk [⟨0, 64, 1, 7, 9, 3, .zstd⟩]

theorem sampleLayout_encodes : ∃ bytes, encodeFileLayout sampleLayout = .ok bytes := ⟨_, rfl⟩

/-- The layout stands between a field of the message and another one. -/
theorem sampleLayout_roundTrips :
    let lead : WireField := ⟨0x01, [5], by decide⟩
    let suffix : Bytes := [0x02, 0, 0, 0, 1, 9]
    ∃ bytes, encodeFileLayout sampleLayout = .ok bytes ∧
      (decodeFileLayout (bytes ++ suffix)).result = .ok sampleLayout ∧
      (decodeFileLayout (bytes ++ suffix)).rest = suffix ∧
      (decodeFileLayoutFromMixed (encode [lead] ++ (bytes ++ suffix))).result =
        .ok sampleLayout := by
  intro lead suffix
  obtain ⟨bytes, henc⟩ := sampleLayout_encodes
  obtain ⟨⟨hresult, hrest⟩, hmixed⟩ := layout_roundTrip sampleLayout bytes henc
    (by rintro s ⟨⟩; exact ⟨by decide, by simp⟩) [lead] (by decide) suffix rfl
  exact ⟨bytes, henc, hresult, hrest, hmixed.mpr (.inl (by decide))⟩

/-- Behind a field with an unknown id the layout is lost: the decoder returns the default. -/
theorem unknown_field_hides_layout :
    let unknown : WireField := ⟨0xF0, [1], by decide⟩
    ∃ bytes, encodeFileLayout sampleLayout = .ok bytes ∧
      (decodeFileLayoutFromMixed (encode [unknown] ++ bytes)).result = .ok defaultLayout ∧
      sampleLayout ≠ defaultLayout := by
  intro unknown
  obtain ⟨bytes, henc⟩ := sampleLayout_encodes
  refine ⟨bytes, henc, ?_, by decide⟩
  have hpeek : peekField (encode [unknown] ++ bytes) = none := rfl
  have hmixed : decodeFileLayoutFromMixed (encode [] ++ (encode [unknown] ++ bytes)) =
      decodeFileLayout (encode [unknown] ++ bytes) :=
    fromMixed_known (by simp) (fun f hf => by rw [hpeek] at hf; cases hf)
  rw [encode_nil, nil_append] at hmixed
  rw [hmixed]
  exact decodeFileLayout_stops (by rw [Stops, hpeek]; rfl)

end PowerFS.Layout.RoundTrip
