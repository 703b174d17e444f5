import PowerFS.Lib.ByteString

/-! # The field decoder

A message body is a row of fields: one byte for the id, four for the length, most
significant first, then the value. The decoder walks over it; its state is what is
left of the body. The typed readers take the next known field and leave the body at
the start of another field, unless the field is the expected one and its value is
not of the expected type: then they stop in front of the value. -/
namespace PowerFS.Net.Tlv
open List

open Lib.ByteString

/-! ## Field ids -/

/-- The codes the enumeration of field ids declares. -/
def declared (c : UInt8) : Bool :=
  (0x01 ≤ c && c ≤ 0x1C) || (0x20 ≤ c && c ≤ 0x26) || (0x30 ≤ c && c ≤ 0x33) ||
  (0x40 ≤ c && c ≤ 0x42) || (0x50 ≤ c && c ≤ 0x51) || (0x60 ≤ c && c ≤ 0x63) ||
  (0x70 ≤ c && c ≤ 0x73) || (0x80 ≤ c && c ≤ 0x83) || (0x90 ≤ c && c ≤ 0xE4)

structure FieldId where
  asU8 : UInt8
  isDeclared : declared asU8 = true
  deriving DecidableEq

/-- `from_u8` knows every declared id but `LeaseBatchSpecs`. -/
def FieldId.fromU8 (c : UInt8) : Option FieldId :=
  if h : declared c = true ∧ c ≠ 0x83 then some ⟨c, h.1⟩ else none

variable {c : UInt8} {f : FieldId} {w : Nat} {v : Bytes} {utf8 : Bytes → Bool}

theorem FieldId.asU8_of_fromU8 (h : fromU8 c = some f) : f.asU8 = c := by
  unfold fromU8 at h
  split at h
  · cases h
    rfl
  · cases h

/-! ## The decoder -/

inductive NetError where
  | unexpectedEnd
  | expectedBytes (expected got : Nat)
  | invalidUtf8
  | expectedField (expected got : FieldId)
  | noMoreFields (expected : FieldId)
  deriving DecidableEq

/-- The number four bytes denote, most significant first. -/
def ofBE (bs : Bytes) : Nat := ofLE bs.reverse

def toBE (w n : Nat) : Bytes := (toLE w n).reverse

def peekField : Bytes → Option FieldId
  | [] => none
  | c :: _ => FieldId.fromU8 c

/-- The loop of `next_field`; the fuel bounds the fields that are skipped. -/
def nextFieldLoop : Nat → Bytes → Option (FieldId × Nat) × Bytes
  | 0, bs => (none, bs)
  | _ + 1, [] => (none, [])
  | fuel + 1, c :: tail =>
    if 4 ≤ tail.length then
      let length := ofBE (tail.take 4)
      let rest := tail.drop 4
      match FieldId.fromU8 c with
      | some f => (some (f, length), rest)
      | none => if length ≤ rest.length then nextFieldLoop fuel (rest.drop length) else (none, rest)
    else (none, c :: tail)

def nextField (bs : Bytes) : Option (FieldId × Nat) × Bytes := nextFieldLoop bs.length bs

def skip (length : Nat) (bs : Bytes) : Except NetError Unit × Bytes :=
  if length ≤ bs.length then (.ok (), bs.drop length) else (.error .unexpectedEnd, bs)

/-- `read_u8`, `read_u16`, `read_u32` and `read_u64` for widths 1, 2, 4 and 8. -/
def readUint (w length : Nat) (bs : Bytes) : Except NetError Nat × Bytes :=
  if length ≠ w then (.error (.expectedBytes w length), bs)
  else if bs.length < w then (.error .unexpectedEnd, bs)
  else (.ok (ofLE (bs.take w)), bs.drop w)

def readBytes (length : Nat) (bs : Bytes) : Except NetError Bytes × Bytes :=
  if length ≤ bs.length then (.ok (bs.take length), bs.drop length)
  else (.error .unexpectedEnd, bs)

/-- `utf8` is the check `from_utf8` makes. -/
def readString (utf8 : Bytes → Bool) (length : Nat) (bs : Bytes) : Except NetError Bytes × Bytes :=
  if bs.length < length then (.error .unexpectedEnd, bs)
  else if utf8 (bs.take length) then (.ok (bs.take length), bs.drop length)
  else (.error .invalidUtf8, bs)

inductive Value where
  | number (n : Nat)
  | text (bs : Bytes)
  | bytes (bs : Bytes)
  deriving DecidableEq

/-- What a typed reader expects of a value. -/
inductive Kind where
  | u8 | u16 | u32 | u64 | string | bytes
  deriving DecidableEq

def Kind.read (utf8 : Bytes → Bool) (length : Nat) (bs : Bytes) :
    Kind → Except NetError Value × Bytes
  | .u8 => (readUint 1 length bs).map (·.map .number) id
  | .u16 => (readUint 2 length bs).map (·.map .number) id
  | .u32 => (readUint 4 length bs).map (·.map .number) id
  | .u64 => (readUint 8 length bs).map (·.map .number) id
  | .string => (readString utf8 length bs).map (·.map .text) id
  | .bytes => (readBytes length bs).map (·.map .bytes) id

/-- `next_u8`, …, `next_string` and `next_bytes`: the next known field, which has to be
the expected one; the value of another field is skipped. -/
def next (utf8 : Bytes → Bool) (k : Kind) (field : FieldId) (bs : Bytes) :
    Except NetError Value × Bytes :=
  match nextField bs with
  | (some (f, length), rest) =>
    if f ≠ field then (.error (.expectedField field f), (skip length rest).2)
    else k.read utf8 length rest
  | (none, rest) => (.error (.noMoreFields field), rest)

/-! ## Well-formed bodies -/

/-- A field whose length fits its four bytes. -/
structure WireField where
  code : UInt8
  value : Bytes
  fits : value.length < 2 ^ 32

def WireField.encode (f : WireField) : Bytes := f.code :: (toBE 4 f.value.length ++ f.value)

def encode (fs : List WireField) : Bytes := fs.flatMap WireField.encode

def WireField.id? (f : WireField) : Option FieldId := FieldId.fromU8 f.code

/-- The known fields of a body, with their ids. -/
def known (fs : List WireField) : List (FieldId × Bytes) :=
  fs.filterMap fun f => f.id?.map (·, f.value)

@[simp] theorem toBE_length (w n : Nat) : (toBE w n).length = w := by simp [toBE]

theorem ofBE_toBE {n : Nat} (h : n < 256 ^ w) : ofBE (toBE w n) = n := by
  rw [ofBE, toBE, reverse_reverse, ofLE_toLE_of_lt h]

@[simp] theorem encode_nil : encode [] = [] := rfl

@[simp] theorem encode_cons (f : WireField) (fs : List WireField) :
    encode (f :: fs) = f.encode ++ encode fs := by simp [encode]

theorem WireField.encode_length (f : WireField) : f.encode.length = f.value.length + 5 := by
  simp [WireField.encode]
  omega

/-- One round of the loop over a field, whatever follows it. -/
theorem nextFieldLoop_field (n : Nat) (f : WireField) (rest : Bytes) :
    nextFieldLoop (n + 1) (f.encode ++ rest) =
      match f.id? with
      | some id => (some (id, f.value.length), f.value ++ rest)
      | none => nextFieldLoop n rest := by
  have hlen : ofBE ((toBE 4 f.value.length ++ f.value ++ rest).take 4) = f.value.length := by
    rw [append_assoc, take_left' (by simp), ofBE_toBE]
    have := f.fits
    norm_num
    omega
  have hrest : (toBE 4 f.value.length ++ f.value ++ rest).drop 4 = f.value ++ rest := by
    rw [append_assoc, drop_left' (by simp)]
  rw [WireField.encode, cons_append, nextFieldLoop, if_pos (by simp)]
  simp only [hlen, hrest]
  rw [WireField.id?]
  cases FieldId.fromU8 f.code with
  | some id => rfl
  | none => simp

/-- More fuel than bytes changes nothing. -/
theorem nextFieldLoop_fuel (n : Nat) {bs : Bytes} (h : bs.length ≤ n) :
    nextFieldLoop n bs = nextField bs := by
  suffices ∀ m n (bs : Bytes), bs.length ≤ m → bs.length ≤ n →
      nextFieldLoop m bs = nextFieldLoop n bs from this _ _ _ h le_rfl
  intro m
  induction m with
  | zero =>
    intro n bs hm hn
    obtain rfl := length_eq_zero_iff.mp (Nat.le_zero.mp hm)
    cases n <;> rfl
  | succ m ih =>
    intro n bs hm hn
    cases bs with
    | nil => cases n <;> rfl
    | cons c tail =>
      cases n with
      | zero => simp at hn
      | succ n =>
        simp only [nextFieldLoop]
        split
        · cases FieldId.fromU8 c with
          | some f => rfl
          | none =>
            dsimp only
            split
            · apply ih <;> simp only [length_drop, length_cons] at * <;> omega
            · rfl
        · rfl

/-- **What `next_field` finds in front of any bytes: the field itself when its id is
known, otherwise whatever it finds behind it.** -/
theorem nextField_field (f : WireField) (rest : Bytes) :
    nextField (f.encode ++ rest) =
      match f.id? with
      | some id => (some (id, f.value.length), f.value ++ rest)
      | none => nextField rest := by
  have hlen : (f.encode ++ rest).length = (f.value.length + 4 + rest.length) + 1 := by
    rw [length_append, f.encode_length]
    omega
  rw [nextField, hlen, nextFieldLoop_field]
  cases f.id? with
  | some id => rfl
  | none => exact nextFieldLoop_fuel _ (by omega)

theorem toLE_ofLE (bs : Bytes) : toLE bs.length (ofLE bs) = bs := by
  induction bs with
  | nil => rfl
  | cons b bs ih =>
    have hb := b.toNat_lt
    simp only [length_cons, toLE, ofLE]
    rw [show (b.toNat + 256 * ofLE bs) / 256 = ofLE bs by omega, ih]
    congr
    exact UInt8.toNat_inj.mp (by simp)

/-- In front of a known id with its length `next_field` finds that field, and the bytes are
those of the field when its value is complete. -/
theorem nextField_known {tail : Bytes} (hid : FieldId.fromU8 c = some f) (htail : 4 ≤ tail.length) :
    nextField (c :: tail) = (some (f, ofBE (tail.take 4)), tail.drop 4) ∧
      (ofBE (tail.take 4) ≤ (tail.drop 4).length → ∃ g : WireField, g.code = c ∧
        g.value.length = ofBE (tail.take 4) ∧ g.value = (tail.drop 4).take g.value.length ∧
        c :: tail = g.encode ++ (tail.drop 4).drop g.value.length) := by
  have hlen : (tail.take 4).length = 4 := by simp [htail]
  refine ⟨by simp [nextField, nextFieldLoop, htail, hid], fun hfit => ?_⟩
  have hlt : ofBE (tail.take 4) < 2 ^ 32 := by
    have := ofLE_lt (tail.take 4).reverse
    rw [length_reverse, hlen] at this
    exact this
  have hvalue : ((tail.drop 4).take (ofBE (tail.take 4))).length = ofBE (tail.take 4) := by
    rw [length_take]
    omega
  have hbytes : toBE 4 (ofBE (tail.take 4)) = tail.take 4 := by
    have := toLE_ofLE (tail.take 4).reverse
    rw [length_reverse, hlen] at this
    rw [toBE, ofBE, this, reverse_reverse]
  refine ⟨⟨c, (tail.drop 4).take (ofBE (tail.take 4)), by omega⟩, rfl, hvalue, ?_, ?_⟩
  · dsimp only
    rw [hvalue]
  · simp only [WireField.encode, hvalue, hbytes, cons_append, append_assoc, take_append_drop]

/-- In a well-formed body `next_field` finds the first known field. -/
theorem nextField_encode (fs : List WireField) :
    (known fs = [] ∧ nextField (encode fs) = (none, [])) ∨
      ∃ pre f rest id, fs = pre ++ f :: rest ∧ known pre = [] ∧ f.id? = some id ∧
        known fs = (id, f.value) :: known rest ∧
        nextField (encode fs) = (some (id, f.value.length), f.value ++ encode rest) := by
  induction fs with
  | nil => exact .inl ⟨rfl, rfl⟩
  | cons f fs ih =>
    rw [encode_cons, nextField_field]
    cases hid : f.id? with
    | some id => exact .inr ⟨[], f, fs, id, rfl, rfl, hid, by simp [known, hid], rfl⟩
    | none =>
      have hknown : known (f :: fs) = known fs := by simp [known, hid]
      rcases ih with ⟨hnone, hnext⟩ | ⟨pre, g, rest, id, rfl, hpre, hg, hk, hnext⟩
      · exact .inl ⟨by rw [hknown, hnone], hnext⟩
      · exact .inr ⟨f :: pre, g, rest, id, rfl, by simpa [known, hid] using hpre, hg,
          by rw [hknown, hk], hnext⟩

/-! ## Reading values -/

/-- The values a typed reader takes. -/
def Kind.Readable (utf8 : Bytes → Bool) (v : Bytes) : Kind → Prop
  | .u8 => v.length = 1
  | .u16 => v.length = 2
  | .u32 => v.length = 4
  | .u64 => v.length = 8
  | .string => utf8 v = true
  | .bytes => True

/-- The value a typed reader makes of the bytes. -/
def Kind.valueOf (v : Bytes) : Kind → Value
  | .u8 | .u16 | .u32 | .u64 => .number (ofLE v)
  | .string => .text v
  | .bytes => .bytes v

theorem skip_value (v rest : Bytes) : skip v.length (v ++ rest) = (.ok (), rest) := by
  simp [skip]

theorem readBytes_value (v rest : Bytes) : readBytes v.length (v ++ rest) = (.ok v, rest) := by
  simp [readBytes]

theorem readUint_value (rest : Bytes) (h : v.length = w) :
    readUint w v.length (v ++ rest) = (.ok (ofLE v), rest) := by
  subst h
  simp [readUint]

theorem readUint_wrong (rest : Bytes) (h : v.length ≠ w) :
    readUint w v.length (v ++ rest) = (.error (.expectedBytes w v.length), v ++ rest) := by
  simp [readUint, h]

/-- A typed reader takes a readable value whole and leaves any other one unread. -/
theorem Kind.read_value (utf8 : Bytes → Bool) (k : Kind) (v rest : Bytes) :
    (k.Readable utf8 v ∧ k.read utf8 v.length (v ++ rest) = (.ok (k.valueOf v), rest)) ∨
      ¬ k.Readable utf8 v ∧ ∃ err, k.read utf8 v.length (v ++ rest) = (.error err, v ++ rest) := by
  have huint : ∀ w, (v.length = w ∧
      (readUint w v.length (v ++ rest)).map (·.map Value.number) id =
        (.ok (Value.number (ofLE v)), rest)) ∨
      v.length ≠ w ∧ ∃ err, (readUint w v.length (v ++ rest)).map (·.map Value.number) id =
        (.error err, v ++ rest) := by
    intro w
    by_cases h : v.length = w
    · exact .inl ⟨h, by rw [readUint_value rest h]; rfl⟩
    · exact .inr ⟨h, _, by rw [readUint_wrong rest h]; rfl⟩
  cases k with
  | u8 => exact huint 1
  | u16 => exact huint 2
  | u32 => exact huint 4
  | u64 => exact huint 8
  | string =>
    by_cases h : utf8 v = true
    · exact .inl ⟨h, by simp [Kind.read, readString, h, Kind.valueOf, Except.map]⟩
    · exact .inr ⟨h, .invalidUtf8, by simp [Kind.read, readString, h, Except.map]⟩
  | bytes => exact .inl ⟨trivial, by simp [Kind.read, readBytes_value, Kind.valueOf, Except.map]⟩

/-! ## Walking over a body -/

/-- What a caller does with a field it has found. -/
inductive Use where
  | skip
  | read (k : Kind)

def Use.run (utf8 : Bytes → Bool) (length : Nat) (bs : Bytes) :
    Use → Except NetError (Option Value) × Bytes
  | .skip => (Tlv.skip length bs).map (·.map fun _ => none) id
  | .read k => (k.read utf8 length bs).map (·.map some) id

/-- The use matches the value. -/
def Use.Matches (utf8 : Bytes → Bool) (v : Bytes) : Use → Prop
  | .skip => True
  | .read k => k.Readable utf8 v

def Use.valueOf (v : Bytes) : Use → Option Value
  | .skip => none
  | .read k => some (k.valueOf v)

/-- Repeated `next_field`, each followed by a read or a skip. -/
def walk (utf8 : Bytes → Bool) (use : FieldId → Nat → Use) :
    Nat → Bytes → List (FieldId × Except NetError (Option Value))
  | 0, _ => []
  | fuel + 1, bs =>
    match nextField bs with
    | (none, _) => []
    | (some (f, length), rest) =>
      let (result, rest') := (use f length).run utf8 length rest
      (f, result) :: walk utf8 use fuel rest'

theorem Use.run_value {u : Use} (rest : Bytes) (h : u.Matches utf8 v) :
    u.run utf8 v.length (v ++ rest) = (.ok (u.valueOf v), rest) := by
  cases u with
  | skip => rw [Use.run, skip_value]; rfl
  | read k =>
    rcases k.read_value utf8 v rest with ⟨-, hread⟩ | ⟨hno, -⟩
    · rw [Use.run, hread]; rfl
    · exact absurd h hno

theorem walk_encode {use : FieldId → Nat → Use} {fs : List WireField}
    (hmatch : ∀ fv ∈ known fs, (use fv.1 fv.2.length).Matches utf8 fv.2) {fuel : Nat}
    (hfuel : fs.length < fuel) :
    walk utf8 use fuel (encode fs) =
      (known fs).map fun fv => (fv.1, .ok ((use fv.1 fv.2.length).valueOf fv.2)) := by
  induction fuel generalizing fs with
  | zero => omega
  | succ fuel ih =>
    rcases nextField_encode fs with ⟨hknown, hnext⟩ | ⟨pre, f, rest, fid, rfl, -, -, hknown, hnext⟩
    · simp [walk, hnext, hknown]
    rw [hknown] at hmatch ⊢
    have hrun := Use.run_value (encode rest) (hmatch _ mem_cons_self)
    simp only [walk, hnext, hrun, map_cons]
    rw [ih (fun fv hfv => hmatch fv (mem_cons_of_mem _ hfv))]
    simp only [length_append, length_cons] at hfuel
    omega

/-! ## Alignment -/

/-- What is left of the body starts at a field of it, or is empty. -/
def AtBoundary (fs : List WireField) (left : Bytes) : Prop :=
  ∃ pre post, fs = pre ++ post ∧ left = encode post

/-- Inside the value of a field there is no boundary. -/
theorem not_atBoundary_inside {pre rest : List WireField} {f : WireField} {left : Bytes}
    (hlo : (encode rest).length < left.length) (hhi : left.length < (encode (f :: rest)).length) :
    ¬ AtBoundary (pre ++ f :: rest) left := by
  rintro ⟨pre', post, hsplit, rfl⟩
  rcases append_eq_append_iff.mp hsplit with ⟨mid, -, hmid⟩ | ⟨mid, -, hmid⟩
  · cases mid with
    | nil =>
      rw [nil_append] at hmid
      rw [← hmid] at hhi
      exact lt_irrefl _ hhi
    | cons g mid =>
      simp only [cons_append, cons.injEq] at hmid
      rw [hmid.2] at hlo
      simp only [encode, flatMap_append, length_append] at hlo
      omega
  · rw [hmid] at hhi
    simp only [encode, flatMap_append, length_append] at hhi
    omega

/-- The typed readers keep the decoder aligned unless the next known field is the expected
one and has a non-empty value that is not of the expected type. -/
theorem next_aligned_iff (utf8 : Bytes → Bool) (fs : List WireField) (k : Kind) (field : FieldId) :
    AtBoundary fs (next utf8 k field (encode fs)).2 ↔
      ∀ v, (known fs).head? = some (field, v) → v = [] ∨ k.Readable utf8 v := by
  rcases nextField_encode fs with ⟨hknown, hnext⟩ | ⟨pre, f, rest, fid, rfl, -, -, hknown, hnext⟩
  · have : (next utf8 k field (encode fs)).2 = [] := by simp [next, hnext]
    rw [this, hknown]
    exact ⟨fun _ v hv => by simp at hv, fun _ => ⟨fs, [], by simp, rfl⟩⟩
  have hbound : AtBoundary (pre ++ f :: rest) (encode rest) := ⟨pre ++ [f], rest, by simp, rfl⟩
  by_cases hfid : fid = field
  · subst hfid
    have hread : (next utf8 k fid (encode (pre ++ f :: rest))).2 =
        (k.read utf8 f.value.length (f.value ++ encode rest)).2 := by simp [next, hnext]
    rw [hread, hknown]
    rcases k.read_value utf8 f.value (encode rest) with ⟨hyes, hok⟩ | ⟨hno, err, herr⟩
    · rw [hok]
      refine ⟨fun _ v hv => ?_, fun _ => hbound⟩
      obtain rfl : f.value = v := by simpa using hv
      exact .inr hyes
    · rw [herr]
      constructor
      · intro hb v hv
        obtain rfl : f.value = v := by simpa using hv
        refine .inl ?_
        by_contra hne
        have hpos := length_pos_iff.mpr hne
        refine not_atBoundary_inside ?_ ?_ hb
        · simpa using hpos
        · rw [encode_cons, length_append, length_append, f.encode_length]
          omega
      · intro h
        rcases h f.value (by simp) with hnil | hyes
        · rw [hnil]
          exact hbound
        · exact absurd hyes hno
  · have hskip : (next utf8 k field (encode (pre ++ f :: rest))).2 = encode rest := by
      simp [next, hnext, hfid, skip_value]
    rw [hskip, hknown]
    refine ⟨fun _ v hv => ?_, fun _ => hbound⟩
    simp [hfid] at hv

/-- **Every walk over a well-formed body yields exactly its known fields with their values;
and a typed reader leaves the decoder at a field boundary exactly when the next known field
is not the expected one, has no value bytes or has a value of the expected type.** -/
theorem decoder_aligned (utf8 : Bytes → Bool) (fs : List WireField) :
    (∀ use : FieldId → Nat → Use, (∀ fv ∈ known fs, (use fv.1 fv.2.length).Matches utf8 fv.2) →
        ∀ fuel > fs.length, walk utf8 use fuel (encode fs) =
          (known fs).map fun fv => (fv.1, .ok ((use fv.1 fv.2.length).valueOf fv.2))) ∧
      ∀ (k : Kind) (field : FieldId), AtBoundary fs (next utf8 k field (encode fs)).2 ↔
        ∀ v, (known fs).head? = some (field, v) → v = [] ∨ k.Readable utf8 v :=
  ⟨fun _ hmatch _ hfuel => walk_encode hmatch hfuel, next_aligned_iff utf8 fs⟩

/-- The field `Size` read as a `u32` although it holds eight bytes: the reader stops in front
of the value, and the bytes of the value are then taken for a field. -/
theorem wrong_length_misaligned :
    let size : WireField := ⟨0x06, [0x07, 0, 0, 0, 3, 1, 1, 1], by decide⟩
    let mode : WireField := ⟨0x03, [5, 0, 0, 0], by decide⟩
    let left := (next (fun _ => true) .u32 ⟨0x06, rfl⟩ (encode [size, mode])).2
    left = size.value ++ encode [mode] ∧ ¬ AtBoundary [size, mode] left ∧
      (nextField left).1 = some (⟨0x07, rfl⟩, 3) := by
  intro size mode left
  refine ⟨by decide, ?_, by decide⟩
  have hleft : left = size.value ++ encode [mode] := by decide
  rw [hleft]
  have hinside : ¬ AtBoundary ([] ++ size :: [mode]) (size.value ++ encode [mode]) :=
    not_atBoundary_inside (by decide) (by decide)
  exact hinside

end PowerFS.Net.Tlv
