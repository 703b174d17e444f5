import PowerFS.Layout.RoundTrip

/-! # Layouts from untrusted bytes

Every input is a row of layout fields that the loop takes, followed by something
it stops at. It stops at the wrong place when the last bytes are the id of a layout
field without a whole header: the id has been seen, so the field is assumed to be
there, and the decoder panics. Behind the loop a range of volume ids is expanded to
as many ids as its count says, which has nothing to do with the length of the input. -/
namespace PowerFS.Layout.Untrusted
open List

open Lib.ByteString Net.Tlv Striping Codec RoundTrip

/-! ## Memory -/

theorem bind_ok {ε α β : Type} {x : Except ε α} {f : α → Except ε β} {b : β} :
    (x >>= f) = .ok b ↔ ∃ a, x = .ok a ∧ f a = .ok b := by
  cases x <;> simp [bind, Except.bind]

theorem pieces_length (w n : Nat) (bs : Bytes) : (pieces w n bs).length = n := by
  induction n generalizing bs with
  | zero => rfl
  | succ n ih => simp [pieces, ih]

variable {bs : Bytes} {mixed : Bool}

theorem decodeChunkList_length {offset count : Nat} {chunks : List ChunkRef}
    (h : decodeChunkList bs offset count = .ok chunks) : 44 * chunks.length ≤ bs.length := by
  unfold decodeChunkList at h
  split at h
  · cases h
    have hlen : (decodeTrailer (bs.drop (offset + count * 44))
        ((pieces 44 count (bs.drop offset)).map decodeChunkRef)).length ≤ count := by
      unfold decodeTrailer
      split
      · rw [length_zipWith, length_map, pieces_length]
        omega
      · rw [length_map, pieces_length]
    omega
  · cases h

open ChunkEncoding

/-- The vectors of a decoded encoding are at most twice as long as its bytes. -/
theorem decodeEncoding_alloc {v : Bytes} {e : ChunkEncoding} (h : decodeEncoding v = .ok e) :
    alloc e ≤ 2 * v.length := by
  cases v with
  | nil => cases h
  | cons tag rest =>
    simp only [decodeEncoding] at h
    split at h
    · obtain ⟨len, -, h⟩ := bind_ok.mp h
      split at h
      · cases h
        simp [alloc]
        omega
      · cases h
    split at h
    · simp only [bind_ok] at h
      obtain ⟨count, -, chunks, hlist, ⟨⟩⟩ := h
      have := decodeChunkList_length hlist
      simp only [alloc, chunkRefBytes, length_cons]
      omega
    split at h
    · simp only [bind_ok] at h
      obtain ⟨_, -, _, -, _, -, _, -, count, -, ids, hids, ⟨⟩⟩ := h
      unfold decodeVolumeIdsFrom at hids
      split at hids
      · cases hids
        simp only [alloc, length_map, pieces_length, length_cons]
        omega
      · cases hids
    split at h
    · simp only [bind_ok] at h
      obtain ⟨_, -, _, -, _, -, count, -, chunks, hlist, ⟨⟩⟩ := h
      have := decodeChunkList_length hlist
      simp only [alloc, chunkRefBytes, length_cons]
      omega
    · cases h

theorem allocOf_le (f : LayoutField) (v : Bytes) : allocOf f v ≤ 2 * v.length := by
  cases f with
  | volumeIds =>
    simp only [allocOf]
    split <;> omega
  | inlineData =>
    simp only [allocOf]
    omega
  | chunkLayout =>
    simp only [allocOf]
    split
    · rename_i e he
      exact decodeEncoding_alloc he
    · omega
  | _ => exact Nat.zero_le _

variable {row : Row} {bytes rest : Bytes} {lead : List WireField}

theorem rowCost_le (h : writeRow row = .ok bytes) : rowCost row ≤ 2 * bytes.length := by
  induction row generalizing bytes with
  | nil => exact Nat.zero_le _
  | cons fv row ih =>
    obtain ⟨hv, rest, hrest, rfl⟩ := writeRow_cons h
    have hrow := ih hrest
    have hfield := allocOf_le fv.1 fv.2
    have hcons : rowCost (fv :: row) = allocOf fv.1 fv.2 + rowCost row := by simp [rowCost]
    rw [hcons, length_append, WireField.encode_length]
    dsimp only
    omega

/-! ## Where the loop stops -/

/-- The id of a layout field, without a whole header. -/
def Cut (bs : Bytes) : Prop :=
  ∃ c tail, bs = c :: tail ∧ layoutField? c ≠ none ∧ tail.length < 4

open FieldId

theorem decodeLoop_cut (h : Cut bs) (fuel : Nat) (c : Collected) (spent : Nat) :
    (decodeLoop (fuel + 1) c spent bs).result = .error .panic := by
  obtain ⟨b, tail, rfl, hfield, hlen⟩ := h
  obtain ⟨f, hf⟩ := Option.ne_none_iff_exists'.mp hfield
  obtain rfl := code_of_layoutField? hf
  obtain ⟨-, id, hid⟩ := layoutField?_code f
  have hpeek : peekField (f.code :: tail) = some id := hid
  have hnext : nextField (f.code :: tail) = (none, f.code :: tail) := by
    simp [nextField, nextFieldLoop, show ¬ 4 ≤ tail.length by omega]
  simp only [decodeLoop, hpeek, Option.bind_some, asU8_of_fromU8 hid, hf, hnext]

/-- **The loop takes a row of fields and then stops, panics at a cut header, or fails in the
next field.** -/
theorem decodeLoop_cases (fuel : Nat) (c : Collected) (spent : Nat) (hfuel : bs.length ≤ fuel) :
    ∃ row bytes c' tail, writeRow row = .ok bytes ∧ Takes c row c' ∧ bs = bytes ++ tail ∧
      (decodeLoop fuel c spent bs).allocated = spent + rowCost row ∧
      (Cut tail ∨ Stops tail ∧ decodeLoop fuel c spent bs = ⟨.ok c', tail, spent + rowCost row⟩ ∨
        ∃ e, (decodeLoop fuel c spent bs).result = .error (.error e)) := by
  induction fuel generalizing c spent bs with
  | zero =>
    obtain rfl := length_eq_zero_iff.mp (Nat.le_zero.mp hfuel)
    exact ⟨[], [], c, [], rfl, rfl, rfl, rfl, .inr (.inl ⟨rfl, rfl⟩)⟩
  | succ fuel ih =>
    by_cases hstop : Stops bs
    · exact ⟨[], [], c, bs, rfl, rfl, rfl, by rw [decodeLoop_stops hstop]; rfl,
        .inr (.inl ⟨hstop, decodeLoop_stops hstop _ _ _⟩)⟩
    cases bs with
    | nil => exact absurd rfl hstop
    | cons b tail =>
      obtain ⟨f, hf⟩ : ∃ f, layoutField? b = some f := by
        unfold Stops at hstop
        cases hid : fromU8 b with
        | none => simp [peekField, hid] at hstop
        | some fid =>
          have hcode := asU8_of_fromU8 hid
          simpa [peekField, hid, hcode, Option.ne_none_iff_exists'] using hstop
      obtain rfl := code_of_layoutField? hf
      obtain ⟨-, fid, hid⟩ := layoutField?_code f
      have hcode := asU8_of_fromU8 hid
      by_cases htail : 4 ≤ tail.length
      swap
      · refine ⟨[], [], c, f.code :: tail, rfl, rfl, rfl, ?_,
          .inl ⟨f.code, tail, rfl, by simp [hf], by omega⟩⟩
        simp [decodeLoop, peekField, hid, hcode, hf, nextField, nextFieldLoop, htail, rowCost]
      obtain ⟨hnext, hwhole⟩ := nextField_known hid htail
      by_cases hfit : ofBE (tail.take 4) ≤ (tail.drop 4).length
      · obtain ⟨g, hgcode, hglen, -, hsplit⟩ := hwhole hfit
        obtain ⟨gc, v, hv⟩ := g
        obtain rfl : gc = f.code := hgcode
        rw [hsplit]
        have hloop := decodeLoop_field fuel c spent f hv ((tail.drop 4).drop v.length)
        have hshort : ((tail.drop 4).drop v.length).length ≤ fuel := by
          simp only [length_cons, length_drop] at hfuel ⊢
          omega
        rcases f.kind.read_value (fun _ => true) v ((tail.drop 4).drop v.length) with
          ⟨hread, hok⟩ | ⟨-, err, herr⟩
        · cases haccept : c.accept f (f.kind.valueOf v) with
          | error e =>
            simp only [hok, haccept] at hloop
            exact ⟨[], [], c, _, rfl, rfl, rfl, by rw [hloop]; rfl, .inr (.inr ⟨e, by rw [hloop]⟩)⟩
          | ok d =>
            simp only [hok, haccept] at hloop
            obtain ⟨row, bytes, c', rest, hwrite, htakes, hbs, hcost, hcase⟩ :=
              ih d (spent + allocOf f v) hshort
            have hcost' : spent + allocOf f v + rowCost row = spent + rowCost ((f, v) :: row) := by
              simp [rowCost, Nat.add_assoc]
            refine ⟨(f, v) :: row, (WireField.mk f.code v hv).encode ++ bytes, c', rest, ?_,
              ⟨hread, d, haccept, htakes⟩, by rw [append_assoc, ← hbs], ?_, ?_⟩
            · rw [writeRow, if_pos hv, hwrite]
              rfl
            · rw [hloop, hcost, hcost']
            · rw [hloop, ← hcost']
              exact hcase
        · simp only [herr] at hloop
          exact ⟨[], [], c, _, rfl, rfl, rfl, by rw [hloop]; rfl, .inr (.inr ⟨_, by rw [hloop]⟩)⟩
      · have hread : ∃ err rest, f.kind.read (fun _ => true) (ofBE (tail.take 4)) (tail.drop 4) =
            (.error err, rest) := by
          have huint : ∀ w, ∃ err rest, (readUint w (ofBE (tail.take 4)) (tail.drop 4)).map
              (·.map Value.number) id = (.error err, rest) := by
            intro w
            unfold readUint
            by_cases hw : ofBE (tail.take 4) = w
            · rw [if_neg (by simpa using hw), if_pos (by omega)]
              exact ⟨_, _, rfl⟩
            · rw [if_pos hw]
              exact ⟨_, _, rfl⟩
          cases f <;> first
            | exact huint _
            | exact ⟨.unexpectedEnd, _, by
                simp only [LayoutField.kind, Kind.read, readBytes, if_neg hfit]; rfl⟩
        obtain ⟨err, rest, hread⟩ := hread
        have hloop : decodeLoop (fuel + 1) c spent (f.code :: tail) =
            ⟨.error (.error (.net err)), rest, spent⟩ := by
          simp only [decodeLoop, peekField, hid, Option.bind_some, hcode, hf, hnext, hread]
        exact ⟨[], [], c, _, rfl, rfl, rfl, by rw [hloop]; rfl, .inr (.inr ⟨_, by rw [hloop]⟩)⟩

/-! ## The leading fields -/

theorem skipLeading_cases (fuel : Nat) (hfuel : bs.length ≤ fuel) :
    (∃ e rest, skipLeading fuel bs = (.error e, rest)) ∨
      ∃ lead rest, (∀ f ∈ lead, layoutField? f.code = none ∧ f.id? ≠ none) ∧
        bs = encode lead ++ rest ∧ skipLeading fuel bs = (.ok (), rest) := by
  induction fuel generalizing bs with
  | zero =>
    obtain rfl := length_eq_zero_iff.mp (Nat.le_zero.mp hfuel)
    exact .inr ⟨[], [], by simp, rfl, rfl⟩
  | succ fuel ih =>
    cases hpeek : peekField bs with
    | none => exact .inr ⟨[], bs, by simp, rfl, by simp [skipLeading, hpeek]⟩
    | some id =>
      by_cases hlayout : (layoutField? id.asU8).isSome = true
      · exact .inr ⟨[], bs, by simp, rfl, by simp [skipLeading, hpeek, hlayout]⟩
      cases bs with
      | nil => cases hpeek
      | cons b tail =>
        have hid : fromU8 b = some id := hpeek
        by_cases htail : 4 ≤ tail.length
        swap
        · refine .inl ⟨.tlvDecode "peeked field vanished during skip", b :: tail, ?_⟩
          simp [skipLeading, hpeek, hlayout, nextField, nextFieldLoop, htail]
        obtain ⟨hnext, hwhole⟩ := nextField_known hid htail
        by_cases hfit : ofBE (tail.take 4) ≤ (tail.drop 4).length
        swap
        · refine .inl ⟨.net .unexpectedEnd, tail.drop 4, ?_⟩
          simp only [skipLeading, hpeek, hlayout, hnext, skip, if_neg hfit]
          rfl
        obtain ⟨g, rfl, hglen, -, hsplit⟩ := hwhole hfit
        have hstep : skipLeading (fuel + 1) (g.code :: tail) =
            skipLeading fuel ((tail.drop 4).drop g.value.length) := by
          simp only [skipLeading, hpeek, hlayout, hnext, skip, if_pos hfit, hglen]
          rfl
        have hother : layoutField? g.code = none := by
          rw [← asU8_of_fromU8 hid]
          simpa using hlayout
        have hshort : ((tail.drop 4).drop g.value.length).length ≤ fuel := by
          simp only [length_cons, length_drop] at hfuel ⊢
          omega
        rcases ih hshort with ⟨e, rest, he⟩ | ⟨lead, rest, hlead, hrest, hok⟩
        · exact .inl ⟨e, rest, hstep.trans he⟩
        refine .inr ⟨g :: lead, rest, ?_, ?_, hstep.trans hok⟩
        · exact forall_mem_cons.mpr ⟨⟨hother, by simp [WireField.id?, hid]⟩, hlead⟩
        · rw [hsplit, encode_cons, append_assoc, ← hrest]

/-! ## Both decoders -/

def decode (mixed : Bool) (bs : Bytes) : Outcome FileLayout :=
  if mixed then decodeFileLayoutFromMixed bs else decodeFileLayout bs

/-- The input is a row of layout fields, all of them taken, up to the tail; in the mixed form
known fields of other kinds stand in front. -/
structure Reads (mixed : Bool) (bs : Bytes) (c : Collected) (tail : Bytes) : Prop where
  split : ∃ lead row bytes, (mixed = false → lead = []) ∧
    (∀ f ∈ lead, layoutField? f.code = none ∧ f.id? ≠ none) ∧ writeRow row = .ok bytes ∧
    Takes {} row c ∧ bs = encode lead ++ (bytes ++ tail)

/-- The fields end in the id of a layout field without a whole header. -/
def CutHeader (mixed : Bool) (bs : Bytes) : Prop := ∃ c tail, Reads mixed bs c tail ∧ Cut tail

/-- The input gives the volume ids only as a range. -/
def RangeOf (mixed : Bool) (bs : Bytes) (start : UInt64) (count : UInt32) : Prop :=
  ∃ c tail, Reads mixed bs c tail ∧ Stops tail ∧ c.volumeIds = none ∧
    c.volumeIdsRange = some (start, count)

/-- No panic, and memory within `k` times the input plus `d`. -/
def Safe (mixed : Bool) (k d : Nat) (bs : Bytes) : Prop :=
  (decode mixed bs).result ≠ .error .panic ∧ (decode mixed bs).allocated ≤ k * bs.length + d

/-- No cut header, and every range fits 64 bits and the memory bound. -/
def Bounded (mixed : Bool) (k d : Nat) (bs : Bytes) : Prop :=
  ¬ CutHeader mixed bs ∧ ∀ start count, RangeOf mixed bs start count →
    (count = 0 ∨ start.toNat + count.toNat ≤ 2 ^ 64) ∧ 8 * count.toNat ≤ k * bs.length + d

theorem decode_lead (hmixed : mixed = false → lead = [])
    (hlead : ∀ f ∈ lead, layoutField? f.code = none ∧ f.id? ≠ none)
    (hrest : ∀ f, peekField rest = some f → layoutField? f.asU8 ≠ none) :
    decode mixed (encode lead ++ rest) = decodeFileLayout rest := by
  cases mixed with
  | false => rw [hmixed rfl]; rfl
  | true => exact fromMixed_known hlead hrest

/-- A row starts with a layout field. -/
theorem peekField_row {tail : Bytes} (hwrite : writeRow row = .ok bytes)
    (hnil : row = [] → ∃ b t, tail = b :: t ∧ layoutField? b ≠ none) (f : FieldId)
    (hf : peekField (bytes ++ tail) = some f) : layoutField? f.asU8 ≠ none := by
  cases row with
  | nil =>
    cases hwrite
    obtain ⟨b, t, rfl, hb⟩ := hnil rfl
    rwa [asU8_of_fromU8 (show fromU8 b = some f from hf)]
  | cons fv row =>
    obtain ⟨hv, rest, -, rfl⟩ := writeRow_cons hwrite
    rw [asU8_of_fromU8 (show fromU8 fv.1.code = some f from hf), (layoutField?_code fv.1).1]
    exact Option.some_ne_none _

theorem panics_of_cutHeader (h : CutHeader mixed bs) :
    (decode mixed bs).result = .error .panic := by
  obtain ⟨c, tail, ⟨lead, row, bytes, hmixed, hlead, hwrite, htakes, rfl⟩, hcut⟩ := h
  have hfirst := peekField_row hwrite fun _ => hcut.imp fun b => .imp fun t ht => ⟨ht.1, ht.2.1⟩
  have hlen : (bytes ++ tail).length =
      (bytes.length - row.length + (tail.length - 1) + 1) + row.length := by
    have hle := writeRow_length hwrite
    obtain ⟨b, t, rfl, -⟩ := hcut
    simp only [length_append, length_cons]
    omega
  rw [decode_lead hmixed hlead hfirst, decodeFileLayout, hlen, decodeLoop_row hwrite htakes,
    finish, decodeLoop_cut hcut]

theorem decode_of_rangeOf {start : UInt64} {count : UInt32} (h : RangeOf mixed bs start count) :
    (¬ (count = 0 ∨ start.toNat + count.toNat ≤ 2 ^ 64) →
      (decode mixed bs).result = .error .panic) ∧
    8 * count.toNat ≤ (decode mixed bs).allocated := by
  obtain ⟨c, tail, ⟨lead, row, bytes, hmixed, hlead, hwrite, htakes, rfl⟩, hstop, hids, hrange⟩ := h
  have hsome : row ≠ [] := by
    rintro rfl
    obtain rfl : c = {} := htakes
    cases hrange
  have hvol : c.volumes = ((expandRange start count).map some, 8 * count.toNat) := by
    simp only [Collected.volumes, hids, hrange]
  rw [decode_lead hmixed hlead (peekField_row hwrite fun hnil => absurd hnil hsome),
    decodeFileLayout_row hwrite htakes hstop]
  by_cases hsmall : count = 0 ∨ start.toNat + count.toNat ≤ 2 ^ 64
  · refine ⟨fun hbig => absurd hsmall hbig, ?_⟩
    simp only [finish, hvol, expandRange, if_pos hsmall, Except.map]
    omega
  refine ⟨fun _ => ?_, ?_⟩
  · simp only [finish, hvol, expandRange, if_neg hsmall, Except.map]
  · simp only [finish, hvol, expandRange, if_neg hsmall, Except.map]
    omega

theorem assemble_ne_panic (c : Collected) (ids : Option (List UInt64)) :
    c.assemble ids ≠ .error .panic := by
  unfold Collected.assemble
  split <;> simp

/-- What the plain decoder does with an input that has neither a cut header nor a range that
is too long. -/
theorem decodeFileLayout_safe {k d : Nat} (hmixed : mixed = false → lead = [])
    (hlead : ∀ f ∈ lead, layoutField? f.code = none ∧ f.id? ≠ none)
    (h : Bounded mixed k d (encode lead ++ rest)) :
    (decodeFileLayout rest).result ≠ .error .panic ∧
      (decodeFileLayout rest).allocated ≤ (k + 2) * (encode lead ++ rest).length + d := by
  obtain ⟨hcut, hrange⟩ := h
  obtain ⟨row, bytes, c, tail, hwrite, htakes, rfl, hcost, hcase⟩ :=
    decodeLoop_cases rest.length {} 0 le_rfl
  have hreads : Reads mixed (encode lead ++ (bytes ++ tail)) c tail :=
    ⟨lead, row, bytes, hmixed, hlead, hwrite, htakes, rfl⟩
  have hrow := rowCost_le hwrite
  have hlen : (encode lead ++ (bytes ++ tail)).length =
      (encode lead).length + (bytes.length + tail.length) := by simp
  generalize hn : (encode lead ++ (bytes ++ tail)).length = n at hrange hlen ⊢
  have hmul : (k + 2) * n = k * n + 2 * n := by ring
  rw [Nat.zero_add] at hcost
  rcases hcase with hc | ⟨hstop, hloop⟩ | ⟨e, he⟩
  · exact absurd ⟨c, tail, hreads, hc⟩ hcut
  · rw [Nat.zero_add] at hloop
    rw [decodeFileLayout, hloop]
    simp only [finish]
    have hvol : (∃ ids, c.volumes.1 = .ok ids) ∧ c.volumes.2 ≤ k * n + d := by
      unfold Collected.volumes
      split
      · exact ⟨⟨_, rfl⟩, Nat.zero_le _⟩
      · rename_i start count hids hr
        obtain ⟨hsmall, hbound⟩ := hrange start count ⟨c, tail, hreads, hstop, hids, hr⟩
        refine ⟨⟨some ((range count.toNat).map fun i => start + UInt64.ofNat i), ?_⟩, hbound⟩
        simp only [expandRange, if_pos hsmall]
        rfl
      · exact ⟨⟨_, rfl⟩, Nat.zero_le _⟩
    obtain ⟨⟨ids, hids⟩, hmem⟩ := hvol
    rcases hv : c.volumes with ⟨r, m⟩
    rw [hv] at hids hmem
    subst hids
    refine ⟨assemble_ne_panic c ids, ?_⟩
    dsimp only at hmem ⊢
    omega
  · simp only [decodeFileLayout, finish, he, hcost]
    exact ⟨by simp, by omega⟩

/-- **A class of inputs is decoded without a panic and with memory linear in the input exactly
when no input of it ends in a cut header and its volume-id ranges are linear in the input and
fit 64 bits.** -/
theorem safe_iff (mixed : Bool) (inputs : Set Bytes) :
    (∃ k d, ∀ bs ∈ inputs, Safe mixed k d bs) ↔ ∃ k d, ∀ bs ∈ inputs, Bounded mixed k d bs := by
  constructor
  · rintro ⟨k, d, hsafe⟩
    refine ⟨k, d, fun bs hbs => ?_⟩
    obtain ⟨hpanic, hmem⟩ := hsafe bs hbs
    refine ⟨fun hcut => hpanic (panics_of_cutHeader hcut), fun start count hrange => ?_⟩
    obtain ⟨hbig, halloc⟩ := decode_of_rangeOf hrange
    exact ⟨by_contra fun hno => hpanic (hbig hno), halloc.trans hmem⟩
  · rintro ⟨k, d, hbounded⟩
    refine ⟨k + 2, d, fun bs hbs => ?_⟩
    cases mixed with
    | false =>
      have hnil : Bounded false k d (encode [] ++ bs) := by simpa using hbounded bs hbs
      have hsafe := decodeFileLayout_safe (fun _ => rfl) (by simp) hnil
      simpa [Safe, decode] using hsafe
    | true =>
      rcases skipLeading_cases bs.length le_rfl with
        ⟨e, rest, he⟩ | ⟨lead, rest, hlead, hsplit, hok⟩
      · have : decode true bs = ⟨.error (.error e), rest, 0⟩ := by
          simp [decode, decodeFileLayoutFromMixed, he]
        rw [Safe, this]
        exact ⟨by simp, Nat.zero_le _⟩
      · have hdecode : decode true bs = decodeFileLayout rest := by
          simp [decode, decodeFileLayoutFromMixed, hok]
        rw [Safe, hdecode, hsplit]
        exact decodeFileLayout_safe (by simp) hlead (hsplit ▸ hbounded bs hbs)

/-- One byte makes the decoder panic, and seventeen bytes make it ask for 32 GiB. -/
theorem untrusted_input_unsafe :
    (decode false [0xA0]).result = .error .panic ∧
      (decode true [0xA0]).result = .error .panic ∧
      (let range : WireField := ⟨0xB6, toLE 8 0 ++ toLE 4 (2 ^ 32 - 1), by simp⟩;
        (encode [range]).length = 17 ∧
          8 * (2 ^ 32 - 1) ≤ (decode false (encode [range])).allocated) := by
  refine ⟨rfl, rfl, by simp [encode, WireField.encode], ?_⟩
  have hrow : writeRow [(LayoutField.volumeIdsRange, toLE 8 0 ++ toLE 4 (2 ^ 32 - 1))] =
      .ok (encode [⟨0xB6, toLE 8 0 ++ toLE 4 (2 ^ 32 - 1), by simp⟩]) := rfl
  have hrange : RangeOf false (encode [⟨0xB6, toLE 8 0 ++ toLE 4 (2 ^ 32 - 1), by simp⟩]) 0
      (UInt32.ofNat (2 ^ 32 - 1)) :=
    ⟨{ volumeIdsRange := some (0, UInt32.ofNat (2 ^ 32 - 1)) }, [], ⟨[], _, _, fun _ => rfl,
      by simp, hrow, ⟨trivial, _, rfl, rfl⟩, by simp⟩, rfl, rfl, rfl⟩
  exact (decode_of_rangeOf hrange).2

end PowerFS.Layout.Untrusted
