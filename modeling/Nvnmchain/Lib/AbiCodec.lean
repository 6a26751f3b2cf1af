import Nvnmchain.Lib.Word

/-!
# Codecs of ABI tuples

The code a generator emits for a tuple of the contract ABI, and the format it is for.

A tuple is a row of words, the heads, and after them the tails. A static field is a word. The word of
a dynamic field is the offset of its tail, and the tails follow one another in the order of the fields.
The encoder writes into a buffer of zeros: the offset, then the tail behind the tails written so far.
The decoder walks the same way, and refuses an offset that is not the end of the tails read so far.

`Code` is what is emitted for a type: a size, a writer and a reader. A `Codec` is code together with
the bytes of the format and the proof that the code is about them:

- the size is the length of the bytes, and the writer fills a buffer of zeros with them, in place;
- the reader answers a value exactly when the data starts with its bytes. So every value is read back
  as it was written, and no other bytes are read as that value;
- no slice expression of the reader is out of range, whatever the data.

`Fields.tuple` and `slice` make codecs from codecs. Words, strings and the reader of an offset are
given.

**What it does not establish.** Data after the bytes of a value is ignored by the reader, and it is up
to the caller to ask where the value ended.
-/

set_option autoImplicit false

namespace AbiCodec

open Go (Bytes)
open Eth (putUint64)

/-- Why an encoder or a decoder stops. `outOfRange` is the panic of a slice expression, and `other` an
error of a codec that is given. -/
inductive Fault (ε : Type) where
  | unexpectedEOF
  | invalidOffsetForDynamicField
  | invalidOffsetForSliceElement
  | outOfRange
  | other (e : ε)
deriving DecidableEq

/-! ## Bytes -/

/-- A buffer as `make` gives it. -/
def zeros (n : Nat) : Bytes := List.replicate n 0

@[simp]
theorem length_zeros (n : Nat) : (zeros n).length = n := List.length_replicate

theorem zeros_add (m n : Nat) : zeros (m + n) = zeros m ++ zeros n :=
  List.replicate_append_replicate.symm

/-- The word of an offset or of a length. -/
def word (n : Nat) : Bytes := zeros 24 ++ putUint64 (UInt64.ofNat n)

@[simp]
theorem length_word (n : Nat) : (word n).length = 32 := by
  simp [word]

/-- Data starts with some bytes. -/
def StartsWith (first data : Bytes) : Prop := ∃ rest, data = first ++ rest

theorem StartsWith.length_le {first data : Bytes} (h : StartsWith first data) :
    first.length ≤ data.length := by
  obtain ⟨rest, rfl⟩ := h
  simp

theorem startsWith_nil (data : Bytes) : StartsWith [] data := ⟨data, rfl⟩

/-- Two parts in a row. -/
theorem startsWith_append {first second data : Bytes} :
    StartsWith (first ++ second) data ↔
      StartsWith first data ∧ StartsWith second (data.drop first.length) := by
  constructor
  · rintro ⟨rest, rfl⟩
    refine ⟨⟨second ++ rest, List.append_assoc _ _ _⟩, rest, ?_⟩
    rw [List.append_assoc, List.drop_left]
  · rintro ⟨⟨rest, rfl⟩, rest', h⟩
    rw [List.drop_left] at h
    exact ⟨rest', by rw [h, List.append_assoc]⟩

/-- Two parts in a row, each read where it stands. -/
theorem startsWith_drop {first second data : Bytes} {k n : Nat} (hlength : first.length = n) :
    StartsWith (first ++ second) (data.drop k) ↔
      StartsWith first (data.drop k) ∧ StartsWith second (data.drop (k + n)) := by
  rw [startsWith_append, hlength, List.drop_drop]

/-! ## Slice expressions -/

section Slices

variable {ε : Type}

/-- The expression `data[k:]`. -/
def sliceFrom (k : Nat) (data : Bytes) : Except (Fault ε) Bytes :=
  if k ≤ data.length then .ok (data.drop k) else .error .outOfRange

/-- A writer called on `buf[k:]`. -/
def writeFrom (k : Nat) (write : Bytes → Except (Fault ε) (Bytes × Nat)) (buf : Bytes) :
    Except (Fault ε) (Bytes × Nat) := do
  let rest ← sliceFrom k buf
  let (rest, n) ← write rest
  pure (buf.take k ++ rest, n)

/-- `binary.BigEndian.PutUint64(buf[k+24:k+32], uint64(n))`. The other bytes of the word are left as
they are. -/
def putSize (k n : Nat) (buf : Bytes) : Except (Fault ε) Bytes :=
  if k + 32 ≤ buf.length then
    .ok (buf.take (k + 24) ++ putUint64 (UInt64.ofNat n) ++ buf.drop (k + 32))
  else .error .outOfRange

/-- A slice that starts inside the data is what follows. -/
theorem sliceFrom_eq {k : Nat} {data : Bytes} (h : k ≤ data.length) :
    (sliceFrom k data : Except (Fault ε) Bytes) = .ok (data.drop k) := if_pos h

/-- Writing behind some bytes leaves them. -/
theorem writeFrom_eq (first : Bytes) {rest rest' : Bytes} {n : Nat}
    {write : Bytes → Except (Fault ε) (Bytes × Nat)} (h : write rest = .ok (rest', n)) :
    writeFrom first.length write (first ++ rest) = .ok (first ++ rest', n) := by
  have hslice : (sliceFrom first.length (first ++ rest) : Except (Fault ε) Bytes) = .ok rest := by
    rw [sliceFrom_eq (by simp), List.drop_left]
  simp only [writeFrom, hslice, bind, Except.bind, h, List.take_left]
  rfl

/-- Writing keeps the length of a buffer. -/
theorem length_writeFrom {k n : Nat} {buf buf' : Bytes} {write : Bytes → Except (Fault ε) (Bytes × Nat)}
    (hwrite : ∀ {rest rest' n}, write rest = .ok (rest', n) → rest'.length = rest.length)
    (h : writeFrom k write buf = .ok (buf', n)) : buf'.length = buf.length := by
  simp only [writeFrom, sliceFrom, bind, Except.bind] at h
  split at h
  · cases h
  · rename_i hslice
    split at hslice
    · cases hslice
      split at h
      · cases h
      · rename_i hrest
        cases h
        rw [List.length_append, hwrite hrest, List.length_take, List.length_drop]
        omega
    · cases hslice

/-- Writing an offset keeps the buffer's length. -/
theorem length_putSize {k n : Nat} {buf buf' : Bytes}
    (h : (putSize k n buf : Except (Fault ε) Bytes) = .ok buf') : buf'.length = buf.length := by
  unfold putSize at h
  split at h
  · cases h
    simp only [List.length_append, List.length_take, List.length_drop, Eth.length_putUint64]
    omega
  · cases h

/-- A word of zeros becomes the word of the number. -/
theorem putSize_eq (first rest : Bytes) (n : Nat) :
    (putSize first.length n (first ++ (zeros 32 ++ rest)) : Except (Fault ε) Bytes) =
      .ok (first ++ (word n ++ rest)) := by
  have hle : first.length + 32 ≤ (first ++ (zeros 32 ++ rest)).length := by simp
  have htake : (first ++ (zeros 32 ++ rest)).take (first.length + 24) = first ++ zeros 24 := by
    rw [List.take_append, List.take_of_length_le (by omega), Nat.add_sub_cancel_left,
      show zeros 32 = zeros 24 ++ zeros 8 from rfl, List.append_assoc]
    exact congrArg _ (List.take_left' (length_zeros 24))
  have hdrop : (first ++ (zeros 32 ++ rest)).drop (first.length + 32) = rest := by
    rw [← List.append_assoc]
    exact List.drop_left' (by simp)
  rw [putSize, if_pos hle, htake, hdrop, word]
  simp only [List.append_assoc]

end Slices

/-! ## Codecs -/

/-- The reader of an offset or of a length, below a limit. -/
structure Sizes (ε : Type) where
  limit : Nat
  word_lt : 32 < limit
  decode : Bytes → Except (Fault ε) Nat
  decode_eq_ok : ∀ {data n}, decode data = .ok n ↔ n < limit ∧ StartsWith (word n) data
  decode_inRange : ∀ data, decode data ≠ .error .outOfRange

/-- What is emitted for a type: `EncodedSize`, `EncodeTo` and `Decode`. -/
structure Code (ε α : Type) where
  size : α → Nat
  encodeTo : α → Bytes → Except (Fault ε) (Bytes × Nat)
  decode : Bytes → Except (Fault ε) (α × Nat)

/-- Code, and the bytes it is about. -/
structure Codec {ε : Type} (z : Sizes ε) (α : Type) extends Code ε α where
  bytes : α → Bytes
  length_bytes : ∀ a, (bytes a).length = size a
  encodeTo_length : ∀ {a buf buf' n}, encodeTo a buf = .ok (buf', n) → buf'.length = buf.length
  encodeTo_zeros : ∀ a rest, size a < z.limit →
    encodeTo a (zeros (size a) ++ rest) = .ok (bytes a ++ rest, size a)
  decode_eq_ok : ∀ {data a n}, data.length < z.limit →
    (decode data = .ok (a, n) ↔ n = size a ∧ StartsWith (bytes a) data)
  decode_inRange : ∀ {data}, data.length < z.limit → decode data ≠ .error .outOfRange

/-- The codec of a type whose values are one word each. -/
structure Word {ε : Type} (z : Sizes ε) (α : Type) extends Codec z α where
  isWord : ∀ a, size a = 32

namespace Code

variable {ε α : Type}

/-- `Encode`. -/
def encode (c : Code ε α) (a : α) : Except (Fault ε) Bytes := do
  let (buf, _) ← c.encodeTo a (zeros (c.size a))
  pure buf

/-- `EncodeWithSelector`. -/
def encodeWithSelector (c : Code ε α) (selector : Bytes) (a : α) : Except (Fault ε) Bytes := do
  let (buf, _) ← writeFrom selector.length (c.encodeTo a) (selector ++ zeros (c.size a))
  pure buf

end Code

section Codecs

variable {ε : Type} {z : Sizes ε} {α β : Type}

/-- A value that is small enough is encoded as its bytes. -/
theorem Codec.encode_eq (c : Codec z α) {a : α} (h : c.size a < z.limit) :
    c.encode a = .ok (c.bytes a) := by
  have hwrite := c.encodeTo_zeros a [] h
  rw [List.append_nil, List.append_nil] at hwrite
  rw [Code.encode, hwrite]
  rfl

/-- An encoding has the size that was computed for it. -/
theorem Codec.length_encode (c : Codec z α) {a : α} {encoded : Bytes} (h : c.encode a = .ok encoded) :
    encoded.length = c.size a := by
  unfold Code.encode at h
  cases hwrite : c.encodeTo a (zeros (c.size a)) with
  | error e =>
    rw [hwrite] at h
    cases h
  | ok r =>
    rw [hwrite] at h
    cases h
    exact (c.encodeTo_length hwrite).trans (length_zeros _)

/-- What an encoding of a value is. -/
theorem Codec.encode_eq_ok (c : Codec z α) {a : α} {encoded : Bytes}
    (hlimit : encoded.length < z.limit) : c.encode a = .ok encoded ↔ encoded = c.bytes a := by
  constructor
  · intro h
    rw [c.encode_eq (c.length_encode h ▸ hlimit)] at h
    exact (Except.ok.inj h).symm
  · rintro rfl
    exact c.encode_eq (c.length_bytes a ▸ hlimit)

/-- What an encoding after a selector is. -/
theorem Codec.encodeWithSelector_eq_ok (c : Codec z α) (selector : Bytes) {a : α} {encoded : Bytes}
    (hlimit : encoded.length < z.limit) (h : c.encodeWithSelector selector a = .ok encoded) :
    encoded = selector ++ c.bytes a := by
  unfold Code.encodeWithSelector at h
  cases hwrite : writeFrom selector.length (c.encodeTo a) (selector ++ zeros (c.size a)) with
  | error e =>
    rw [hwrite] at h
    cases h
  | ok r =>
    rw [hwrite] at h
    cases h
    have hlength := length_writeFrom c.encodeTo_length hwrite
    rw [List.length_append, length_zeros] at hlength
    have hzeros := c.encodeTo_zeros a [] (by omega)
    rw [List.append_nil, List.append_nil] at hzeros
    rw [writeFrom_eq _ hzeros] at hwrite
    cases hwrite
    rfl

/-- A value is read back from its bytes, whatever follows them. -/
theorem Codec.decode_bytes (c : Codec z α) (a : α) (rest : Bytes)
    (h : (c.bytes a ++ rest).length < z.limit) : c.decode (c.bytes a ++ rest) = .ok (a, c.size a) :=
  (c.decode_eq_ok h).mpr ⟨rfl, rest, rfl⟩

/-- The bytes of a value end inside the data. -/
theorem Codec.end_le (c : Codec z α) {a : α} {data : Bytes} {k : Nat} (hk : k ≤ data.length)
    (h : StartsWith (c.bytes a) (data.drop k)) : k + c.size a ≤ data.length := by
  have hle := h.length_le
  rw [c.length_bytes, List.length_drop] at hle
  omega

/-- A codec for a type with the same values. -/
def Codec.via (c : Codec z α) (row : β → α) (unrow : α → β) (unrow_row : ∀ b, unrow (row b) = b)
    (row_unrow : ∀ a, row (unrow a) = a) : Codec z β where
  size b := c.size (row b)
  encodeTo b := c.encodeTo (row b)
  decode data := (c.decode data).map fun r => (unrow r.1, r.2)
  bytes b := c.bytes (row b)
  length_bytes b := c.length_bytes (row b)
  encodeTo_length h := c.encodeTo_length h
  encodeTo_zeros b := c.encodeTo_zeros (row b)
  decode_eq_ok {data b n} h := by
    rw [← c.decode_eq_ok h]
    cases c.decode data with
    | error e => simp [Except.map]
    | ok r =>
      obtain ⟨a, m⟩ := r
      simp only [Except.map, Except.ok.injEq, Prod.mk.injEq]
      constructor
      · rintro ⟨rfl, rfl⟩
        exact ⟨(row_unrow a).symm, rfl⟩
      · rintro ⟨rfl, rfl⟩
        exact ⟨unrow_row b, rfl⟩
  decode_inRange {data} h := by
    cases hdecode : c.decode data with
    | error f =>
      intro e
      cases e
      exact c.decode_inRange h hdecode
    | ok r =>
      intro e
      cases e

/-! ## A dynamic field -/

/-- An offset, and the tail it points to; the end of the tails afterwards. -/
def encodeDynamic (c : Code ε α) (offset dynamicOffset : Nat) (a : α) (buf : Bytes) :
    Except (Fault ε) (Bytes × Nat) := do
  let buf ← putSize offset dynamicOffset buf
  let (buf, n) ← writeFrom dynamicOffset (c.encodeTo a) buf
  pure (buf, dynamicOffset + n)

/-- The offset has to be the end of the tails read so far. -/
def decodeDynamic (decodeSize : Bytes → Except (Fault ε) Nat) (wrongOffset : Fault ε) (c : Code ε α)
    (offset dynamicOffset : Nat) (data : Bytes) : Except (Fault ε) (α × Nat) := do
  let head ← sliceFrom offset data
  let size ← decodeSize head
  if size ≠ dynamicOffset then .error wrongOffset
  else do
    let tail ← sliceFrom dynamicOffset data
    let (a, n) ← c.decode tail
    pure (a, dynamicOffset + n)

/-- Encoding a dynamic part keeps the buffer's length. -/
theorem length_encodeDynamic (c : Codec z α) {offset dynamicOffset n : Nat} {a : α} {buf buf' : Bytes}
    (h : encodeDynamic c.toCode offset dynamicOffset a buf = .ok (buf', n)) :
    buf'.length = buf.length := by
  simp only [encodeDynamic, bind, Except.bind] at h
  split at h
  · cases h
  · rename_i hput
    split at h
    · cases h
    · rename_i hwrite
      cases h
      exact (length_writeFrom c.encodeTo_length hwrite).trans (length_putSize hput)

/-- The buffer of a dynamic field: its word, what stands between, and its tail. -/
theorem encodeDynamic_eq (c : Codec z α) {a : α} (h : c.size a < z.limit) (first mid rest : Bytes)
    {offset dynamicOffset : Nat} (hoffset : offset = first.length)
    (hdynamic : dynamicOffset = (first ++ (zeros 32 ++ mid)).length) :
    encodeDynamic c.toCode offset dynamicOffset a
        (first ++ (zeros 32 ++ (mid ++ (zeros (c.size a) ++ rest)))) =
      .ok (first ++ (word dynamicOffset ++ (mid ++ (c.bytes a ++ rest))),
        dynamicOffset + c.size a) := by
  have hlength : dynamicOffset = (first ++ (word dynamicOffset ++ mid)).length := by
    rw [hdynamic]
    simp
  have hwrite := writeFrom_eq (first ++ (word dynamicOffset ++ mid)) (c.encodeTo_zeros a rest h)
  rw [← hlength] at hwrite
  simp only [List.append_assoc] at hwrite
  rw [encodeDynamic, hoffset, putSize_eq]
  simp only [bind, Except.bind, hwrite]
  rfl

/-- What a dynamic field is read from: its word, and its bytes at the end of the tails so far. -/
theorem decodeDynamic_eq_ok (c : Codec z α) {wrongOffset : Fault ε} {data : Bytes}
    {offset dynamicOffset : Nat} (hlimit : data.length < z.limit) (hoffset : offset ≤ data.length)
    (hdynamic : dynamicOffset ≤ data.length) {a : α} {n : Nat} :
    decodeDynamic z.decode wrongOffset c.toCode offset dynamicOffset data = .ok (a, n) ↔
      n = dynamicOffset + c.size a ∧ StartsWith (word dynamicOffset) (data.drop offset) ∧
        StartsWith (c.bytes a) (data.drop dynamicOffset) := by
  have htail : (data.drop dynamicOffset).length < z.limit := by
    rw [List.length_drop]
    omega
  have hread : ∀ m, c.decode (data.drop dynamicOffset) = .ok (a, m) ↔
      m = c.size a ∧ StartsWith (c.bytes a) (data.drop dynamicOffset) := fun m => c.decode_eq_ok htail
  simp only [decodeDynamic, sliceFrom_eq hoffset, sliceFrom_eq hdynamic, bind, Except.bind]
  cases hsize : z.decode (data.drop offset) with
  | error e =>
    simp only [reduceCtorEq, false_iff, not_and]
    intro _ hword
    rw [z.decode_eq_ok.mpr ⟨Nat.lt_of_le_of_lt hdynamic hlimit, hword⟩] at hsize
    cases hsize
  | ok size =>
    by_cases hsame : size = dynamicOffset
    · have hword : StartsWith (word dynamicOffset) (data.drop offset) :=
        hsame ▸ (z.decode_eq_ok.mp hsize).2
      simp only [hsame, ne_eq, not_true_eq_false, if_false, hword, true_and]
      cases htailRead : c.decode (data.drop dynamicOffset) with
      | error e =>
        simp only [reduceCtorEq, false_iff, not_and]
        intro _ hbytes
        rw [(hread _).mpr ⟨rfl, hbytes⟩] at htailRead
        cases htailRead
      | ok r =>
        obtain ⟨b, m⟩ := r
        simp only [pure, Except.pure, Except.ok.injEq, Prod.mk.injEq]
        constructor
        · rintro ⟨rfl, rfl⟩
          obtain ⟨rfl, hbytes⟩ := (hread m).mp htailRead
          exact ⟨rfl, hbytes⟩
        · rintro ⟨rfl, hbytes⟩
          rw [(hread _).mpr ⟨rfl, hbytes⟩] at htailRead
          cases htailRead
          exact ⟨rfl, rfl⟩
    · simp only [ne_eq, hsame, not_false_eq_true, if_true, reduceCtorEq, false_iff, not_and]
      intro _ hword
      rw [z.decode_eq_ok.mpr ⟨Nat.lt_of_le_of_lt hdynamic hlimit, hword⟩] at hsize
      exact absurd (Except.ok.inj hsize).symm hsame

/-- Decoding a dynamic part never slices out of range. -/
theorem decodeDynamic_inRange (c : Codec z α) {wrongOffset : Fault ε} (hwrong : wrongOffset ≠ .outOfRange)
    {data : Bytes} {offset dynamicOffset : Nat} (hlimit : data.length < z.limit)
    (hoffset : offset ≤ data.length) (hdynamic : dynamicOffset ≤ data.length) :
    decodeDynamic z.decode wrongOffset c.toCode offset dynamicOffset data ≠ .error .outOfRange := by
  have htail : (data.drop dynamicOffset).length < z.limit := by
    rw [List.length_drop]
    omega
  simp only [decodeDynamic, sliceFrom_eq hoffset, sliceFrom_eq hdynamic, bind, Except.bind]
  cases hsize : z.decode (data.drop offset) with
  | error e =>
    intro h
    cases h
    exact z.decode_inRange _ hsize
  | ok size =>
    by_cases hsame : size = dynamicOffset
    · simp only [hsame, ne_eq, not_true_eq_false, if_false]
      cases hread : c.decode (data.drop dynamicOffset) with
      | error e =>
        intro h
        cases h
        exact c.decode_inRange htail hread
      | ok r =>
        intro h
        cases h
    · simp only [ne_eq, hsame, not_false_eq_true, if_true]
      exact fun h => hwrong (Except.error.inj h)

end Codecs

/-! ## Tuples -/

/-- The fields of a tuple, in a row. A static field is one word. -/
inductive Fields {ε : Type} (z : Sizes ε) : Type → Type 1
  | nil : Fields z Unit
  | static {α β : Type} (c : Word z α) (rest : Fields z β) : Fields z (α × β)
  | dynamic {α β : Type} (c : Codec z α) (rest : Fields z β) : Fields z (α × β)

namespace Fields

variable {ε : Type} {z : Sizes ε}

/-- The size of the heads. -/
def staticSize {α : Type} : Fields z α → Nat
  | nil => 0
  | static _ rest => 32 + rest.staticSize
  | dynamic _ rest => 32 + rest.staticSize

/-- The size of the tails. -/
def dynamicSize : {α : Type} → Fields z α → α → Nat
  | _, nil, _ => 0
  | _, static _ rest, (_, b) => rest.dynamicSize b
  | _, dynamic c rest, (a, b) => c.size a + rest.dynamicSize b

/-- `EncodeTo`, from a field on: where its word is, and where the tails end so far. -/
def encodeFrom : {α : Type} → Fields z α → Nat → Nat → α → Bytes → Except (Fault ε) (Bytes × Nat)
  | _, nil, _, dynamicOffset, _, buf => .ok (buf, dynamicOffset)
  | _, static c rest, offset, dynamicOffset, (a, b), buf => do
    let (buf, _) ← writeFrom offset (c.encodeTo a) buf
    rest.encodeFrom (offset + 32) dynamicOffset b buf
  | _, dynamic c rest, offset, dynamicOffset, (a, b), buf => do
    let (buf, dynamicOffset) ← encodeDynamic c.toCode offset dynamicOffset a buf
    rest.encodeFrom (offset + 32) dynamicOffset b buf

/-- `Decode`, from a field on. -/
def decodeFrom : {α : Type} → Fields z α → Nat → Nat → Bytes → Except (Fault ε) (α × Nat)
  | _, nil, _, dynamicOffset, _ => .ok ((), dynamicOffset)
  | _, static c rest, offset, dynamicOffset, data => do
    let head ← sliceFrom offset data
    let (a, _) ← c.decode head
    let (b, dynamicOffset) ← rest.decodeFrom (offset + 32) dynamicOffset data
    pure ((a, b), dynamicOffset)
  | _, dynamic c rest, offset, dynamicOffset, data => do
    let (a, dynamicOffset) ←
      decodeDynamic z.decode .invalidOffsetForDynamicField c.toCode offset dynamicOffset data
    let (b, dynamicOffset) ← rest.decodeFrom (offset + 32) dynamicOffset data
    pure ((a, b), dynamicOffset)

/-- The code of a tuple. -/
def code {α : Type} (fs : Fields z α) : Code ε α where
  size v := fs.staticSize + fs.dynamicSize v
  encodeTo v buf := fs.encodeFrom 0 fs.staticSize v buf
  decode data :=
    if data.length < fs.staticSize then .error .unexpectedEOF
    else fs.decodeFrom 0 fs.staticSize data

/-- The words of the fields, when their tails start at an offset. -/
def heads : {α : Type} → Fields z α → Nat → α → Bytes
  | _, nil, _, _ => []
  | _, static c rest, dynamicOffset, (a, b) => c.bytes a ++ rest.heads dynamicOffset b
  | _, dynamic c rest, dynamicOffset, (a, b) =>
    word dynamicOffset ++ rest.heads (dynamicOffset + c.size a) b

/-- The tails of the fields. -/
def tails : {α : Type} → Fields z α → α → Bytes
  | _, nil, _ => []
  | _, static _ rest, (_, b) => rest.tails b
  | _, dynamic c rest, (a, b) => c.bytes a ++ rest.tails b

/-- The heads take the static size. -/
theorem length_heads {α : Type} (fs : Fields z α) (dynamicOffset : Nat) (v : α) :
    (fs.heads dynamicOffset v).length = fs.staticSize := by
  induction fs generalizing dynamicOffset with
  | nil => rfl
  | static c rest ih =>
    rw [heads, List.length_append, c.length_bytes, c.isWord, ih, staticSize]
  | dynamic c rest ih => rw [heads, List.length_append, length_word, ih, staticSize]

/-- The tails take the dynamic size. -/
theorem length_tails {α : Type} (fs : Fields z α) (v : α) : (fs.tails v).length = fs.dynamicSize v := by
  induction fs with
  | nil => rfl
  | static c rest ih => exact ih v.2
  | dynamic c rest ih => rw [tails, List.length_append, c.length_bytes, ih, dynamicSize]

/-- Encoding fields keeps the buffer's length. -/
theorem length_encodeFrom {α : Type} (fs : Fields z α) {offset dynamicOffset n : Nat} {v : α}
    {buf buf' : Bytes} (h : fs.encodeFrom offset dynamicOffset v buf = .ok (buf', n)) :
    buf'.length = buf.length := by
  induction fs generalizing offset dynamicOffset buf with
  | nil =>
    cases h
    rfl
  | static c rest ih =>
    simp only [encodeFrom, bind, Except.bind] at h
    split at h
    · cases h
    · rename_i hfield
      exact (ih h).trans (length_writeFrom c.encodeTo_length hfield)
  | dynamic c rest ih =>
    simp only [encodeFrom, bind, Except.bind] at h
    split at h
    · cases h
    · rename_i hfield
      exact (ih h).trans (length_encodeDynamic c hfield)

/-- **The encoder writes the heads and the tails.** The induction carries what is written: the heads
before the field, and the tails before its own, with the heads still to come between them. -/
theorem encodeFrom_eq {α : Type} (fs : Fields z α) (v : α) (first mid rest : Bytes)
    {offset dynamicOffset : Nat} (hoffset : offset = first.length)
    (hdynamic : dynamicOffset = offset + fs.staticSize + mid.length)
    (hlimit : fs.dynamicSize v < z.limit) :
    fs.encodeFrom offset dynamicOffset v
        (first ++ (zeros fs.staticSize ++ (mid ++ (zeros (fs.dynamicSize v) ++ rest)))) =
      .ok (first ++ (fs.heads dynamicOffset v ++ (mid ++ (fs.tails v ++ rest))),
        dynamicOffset + fs.dynamicSize v) := by
  induction fs generalizing first mid offset dynamicOffset with
  | nil => rfl
  | static c fields ih =>
    obtain ⟨a, b⟩ := v
    have hsize : c.size a < z.limit := c.isWord a ▸ z.word_lt
    have hwrite := writeFrom_eq first (c.encodeTo_zeros a
      (zeros fields.staticSize ++ (mid ++ (zeros (fields.dynamicSize b) ++ rest))) hsize)
    rw [c.isWord] at hwrite
    have hnext : offset + 32 = (first ++ c.bytes a).length := by
      rw [List.length_append, c.length_bytes, c.isWord, hoffset]
    have htails : dynamicOffset = offset + 32 + fields.staticSize + mid.length := by
      rw [hdynamic, staticSize]
      omega
    have hrest := ih b (first ++ c.bytes a) mid hnext htails hlimit
    simp only [List.append_assoc] at hrest
    simp only [encodeFrom, staticSize, dynamicSize, heads, tails, zeros_add, List.append_assoc]
    rw [hoffset, hwrite, ← hoffset]
    exact hrest
  | dynamic c fields ih =>
    obtain ⟨a, b⟩ := v
    have hsize : c.size a + fields.dynamicSize b < z.limit := hlimit
    have htail : dynamicOffset = (first ++ (zeros 32 ++ (zeros fields.staticSize ++ mid))).length := by
      rw [hdynamic, hoffset, staticSize]
      simp only [List.length_append, length_zeros]
      omega
    have hfield := encodeDynamic_eq c (Nat.lt_of_le_of_lt (Nat.le_add_right _ _) hsize) first
      (zeros fields.staticSize ++ mid) (zeros (fields.dynamicSize b) ++ rest) hoffset htail
    have hnext : offset + 32 = (first ++ word dynamicOffset).length := by
      rw [List.length_append, length_word, hoffset]
    have htails : dynamicOffset + c.size a =
        offset + 32 + fields.staticSize + (mid ++ c.bytes a).length := by
      rw [hdynamic, staticSize, List.length_append, c.length_bytes]
      omega
    have hrest := ih b (first ++ word dynamicOffset) (mid ++ c.bytes a) hnext htails (by omega)
    simp only [List.append_assoc] at hfield hrest
    simp only [encodeFrom, staticSize, dynamicSize, heads, tails, zeros_add, List.append_assoc]
    rw [hfield, ← Nat.add_assoc]
    exact hrest

/-- **The decoder answers the values whose heads and tails are there.** -/
theorem decodeFrom_eq_ok {α : Type} (fs : Fields z α) {data : Bytes} (hlimit : data.length < z.limit)
    {offset dynamicOffset : Nat} (hoffset : offset + fs.staticSize ≤ data.length)
    (hdynamic : dynamicOffset ≤ data.length) {v : α} {n : Nat} :
    fs.decodeFrom offset dynamicOffset data = .ok (v, n) ↔
      n = dynamicOffset + fs.dynamicSize v ∧
        StartsWith (fs.heads dynamicOffset v) (data.drop offset) ∧
        StartsWith (fs.tails v) (data.drop dynamicOffset) := by
  induction fs generalizing offset dynamicOffset n with
  | nil =>
    simp only [decodeFrom, dynamicSize, heads, tails, startsWith_nil, and_true, Nat.add_zero,
      Except.ok.injEq, Prod.mk.injEq, true_and]
    exact eq_comm
  | static c fields ih =>
    obtain ⟨a, b⟩ := v
    rw [staticSize] at hoffset
    have hhead : (data.drop offset).length < z.limit := by
      rw [List.length_drop]
      omega
    have hrest := @ih (offset + 32) dynamicOffset (by omega) hdynamic b n
    simp only [heads, tails, dynamicSize, startsWith_drop ((c.length_bytes a).trans (c.isWord a))]
    simp only [decodeFrom, sliceFrom_eq (show offset ≤ data.length by omega), bind, Except.bind]
    constructor
    · intro h
      split at h
      · cases h
      · rename_i r hread
        split at h
        · cases h
        · rename_i r' hfields
          cases h
          obtain ⟨-, hbytes⟩ := (c.decode_eq_ok hhead).mp hread
          obtain ⟨hn, hheads, htails⟩ := hrest.mp hfields
          exact ⟨hn, ⟨hbytes, hheads⟩, htails⟩
    · rintro ⟨hn, ⟨hbytes, hheads⟩, htails⟩
      rw [(c.decode_eq_ok hhead).mpr ⟨rfl, hbytes⟩]
      simp only [hrest.mpr ⟨hn, hheads, htails⟩]
      rfl
  | dynamic c fields ih =>
    obtain ⟨a, b⟩ := v
    rw [staticSize] at hoffset
    have hfield : ∀ {a' m}, decodeDynamic z.decode .invalidOffsetForDynamicField c.toCode offset
        dynamicOffset data = .ok (a', m) ↔ _ := fun {a' m} =>
      @decodeDynamic_eq_ok ε z _ c _ data offset dynamicOffset hlimit (by omega) hdynamic a' m
    simp only [heads, tails, dynamicSize, startsWith_drop (length_word _),
      startsWith_drop (c.length_bytes a)]
    simp only [decodeFrom, bind, Except.bind]
    constructor
    · intro h
      split at h
      · cases h
      · rename_i r hread
        split at h
        · cases h
        · rename_i r' hfields
          cases h
          obtain ⟨hm, hword, hbytes⟩ := hfield.mp hread
          rw [hm] at hfields
          obtain ⟨hn, hheads, htails⟩ := (ih (by omega) (c.end_le hdynamic hbytes)).mp hfields
          exact ⟨by omega, ⟨hword, hheads⟩, hbytes, htails⟩
    · rintro ⟨hn, ⟨hword, hheads⟩, hbytes, htails⟩
      rw [hfield.mpr ⟨rfl, hword, hbytes⟩]
      have hrest := (@ih (offset + 32) (dynamicOffset + c.size a) (by omega)
        (c.end_le hdynamic hbytes) b n).mpr ⟨by omega, hheads, htails⟩
      simp only [hrest]
      rfl

/-- Decoding fields never slices out of range, by induction on them. -/
theorem decodeFrom_inRange {α : Type} (fs : Fields z α) {data : Bytes}
    (hlimit : data.length < z.limit) {offset dynamicOffset : Nat}
    (hoffset : offset + fs.staticSize ≤ data.length) (hdynamic : dynamicOffset ≤ data.length) :
    fs.decodeFrom offset dynamicOffset data ≠ .error .outOfRange := by
  induction fs generalizing offset dynamicOffset with
  | nil =>
    intro h
    cases h
  | static c fields ih =>
    rw [staticSize] at hoffset
    have hhead : (data.drop offset).length < z.limit := by
      rw [List.length_drop]
      omega
    simp only [decodeFrom, sliceFrom_eq (show offset ≤ data.length by omega), bind, Except.bind]
    intro h
    split at h
    · rename_i hread
      cases h
      exact c.decode_inRange hhead hread
    · split at h
      · rename_i hfields
        cases h
        exact ih (by omega) hdynamic hfields
      · cases h
  | dynamic c fields ih =>
    rw [staticSize] at hoffset
    simp only [decodeFrom, bind, Except.bind]
    intro h
    split at h
    · rename_i hread
      cases h
      have hwrong : (Fault.invalidOffsetForDynamicField : Fault ε) ≠ .outOfRange := by simp
      exact decodeDynamic_inRange c hwrong hlimit (by omega) hdynamic hread
    · rename_i r hread
      obtain ⟨hm, -, hbytes⟩ := (decodeDynamic_eq_ok c hlimit (by omega) hdynamic).mp hread
      have hin : r.2 ≤ data.length := hm ▸ c.end_le hdynamic hbytes
      split at h
      · rename_i hfields
        cases h
        exact ih (by omega) hin hfields
      · cases h

/-- The codec of a tuple: the heads, and then the tails. -/
def tuple {α : Type} (fs : Fields z α) : Codec z α where
  toCode := fs.code
  bytes v := fs.heads fs.staticSize v ++ fs.tails v
  length_bytes v := by
    rw [List.length_append, length_heads, length_tails]
    rfl
  encodeTo_length h := fs.length_encodeFrom h
  encodeTo_zeros v rest h := by
    have hsize : fs.staticSize + fs.dynamicSize v < z.limit := h
    have htails : fs.staticSize = 0 + fs.staticSize + ([] : Bytes).length := by simp
    have hwrite := fs.encodeFrom_eq v [] [] rest rfl htails (by omega)
    simp only [code, zeros_add, List.append_assoc]
    exact hwrite
  decode_eq_ok {data v n} hlimit := by
    simp only [code]
    split
    · rename_i hshort
      simp only [reduceCtorEq, false_iff, not_and]
      intro _ hbytes
      have := hbytes.length_le
      rw [List.length_append, length_heads] at this
      omega
    · rename_i hlong
      rw [fs.decodeFrom_eq_ok hlimit (by omega) (by omega), startsWith_append, length_heads]
      rfl
  decode_inRange {data} hlimit := by
    simp only [code]
    split
    · intro h
      cases h
    · exact fs.decodeFrom_inRange hlimit (by omega) (by omega)

end Fields

/-! ## Slices -/

section Slice

variable {ε : Type} {z : Sizes ε} {α : Type}

/-- The loop of an encoder of a slice. -/
def encodeElems (c : Code ε α) : Nat → Nat → List α → Bytes → Except (Fault ε) (Bytes × Nat)
  | _, dynamicOffset, [], buf => .ok (buf, dynamicOffset)
  | offset, dynamicOffset, elem :: value, buf => do
    let (buf, dynamicOffset) ← encodeDynamic c offset dynamicOffset elem buf
    encodeElems c (offset + 32) dynamicOffset value buf

/-- The loop of a decoder of a slice, for the elements that are left. -/
def decodeElems (decodeSize : Bytes → Except (Fault ε) Nat) (c : Code ε α) :
    Nat → Nat → Nat → Bytes → Except (Fault ε) (List α × Nat)
  | 0, _, dynamicOffset, _ => .ok ([], dynamicOffset)
  | left + 1, offset, dynamicOffset, data => do
    let (elem, dynamicOffset) ←
      decodeDynamic decodeSize .invalidOffsetForSliceElement c offset dynamicOffset data
    let (value, dynamicOffset) ← decodeElems decodeSize c left (offset + 32) dynamicOffset data
    pure (elem :: value, dynamicOffset)

/-- The code of a slice of a dynamic type. The offsets count from after the length. -/
def sliceCode (decodeSize : Bytes → Except (Fault ε) Nat) (c : Code ε α) : Code ε (List α) where
  size value := 32 + 32 * value.length + (value.map c.size).sum
  encodeTo value buf := do
    let buf ← putSize 0 value.length buf
    let (buf, n) ← writeFrom 32 (encodeElems c 0 (value.length * 32) value) buf
    pure (buf, n + 32)
  decode data :=
    if data.length < 32 then .error .unexpectedEOF
    else do
      let length ← decodeSize data
      let data ← sliceFrom 32 data
      if length > data.length ∨ length * 32 > data.length then .error .unexpectedEOF
      else do
        let (result, n) ← decodeElems decodeSize c length 0 (length * 32) data
        pure (result, n + 32)

/-- The offsets of the elements. -/
def elemHeads (c : Code ε α) : Nat → List α → Bytes
  | _, [] => []
  | dynamicOffset, elem :: value => word dynamicOffset ++ elemHeads c (dynamicOffset + c.size elem) value

/-- The elements, one after another. -/
def elemTails (c : Codec z α) (value : List α) : Bytes := value.flatMap c.bytes

/-- Each element has a head of one word. -/
theorem length_elemHeads (c : Code ε α) (dynamicOffset : Nat) (value : List α) :
    (elemHeads c dynamicOffset value).length = value.length * 32 := by
  induction value generalizing dynamicOffset with
  | nil => rfl
  | cons elem value ih =>
    rw [elemHeads, List.length_append, length_word, ih, List.length_cons]
    omega

/-- The tails of the elements take their sizes. -/
theorem length_elemTails (c : Codec z α) (value : List α) :
    (elemTails c value).length = (value.map c.size).sum := by
  rw [elemTails, List.length_flatMap]
  exact congrArg List.sum (List.map_congr_left fun a _ => c.length_bytes a)

/-- Encoding elements keeps the buffer's length. -/
theorem length_encodeElems (c : Codec z α) {offset dynamicOffset n : Nat} {value : List α}
    {buf buf' : Bytes} (h : encodeElems c.toCode offset dynamicOffset value buf = .ok (buf', n)) :
    buf'.length = buf.length := by
  induction value generalizing offset dynamicOffset buf with
  | nil =>
    cases h
    rfl
  | cons elem value ih =>
    simp only [encodeElems, bind, Except.bind] at h
    split at h
    · cases h
    · rename_i helem
      exact (ih h).trans (length_encodeDynamic c helem)

/-- Elements are written as heads and tails, into two zeroed parts of the buffer. -/
theorem encodeElems_eq (c : Codec z α) (value : List α) (first mid rest : Bytes)
    {offset dynamicOffset : Nat} (hoffset : offset = first.length)
    (hdynamic : dynamicOffset = offset + value.length * 32 + mid.length)
    (hlimit : (value.map c.size).sum < z.limit) :
    encodeElems c.toCode offset dynamicOffset value
        (first ++ (zeros (value.length * 32) ++ (mid ++ (zeros (value.map c.size).sum ++ rest)))) =
      .ok (first ++ (elemHeads c.toCode dynamicOffset value ++ (mid ++ (elemTails c value ++ rest))),
        dynamicOffset + (value.map c.size).sum) := by
  induction value generalizing first mid offset dynamicOffset with
  | nil => simp [encodeElems, elemHeads, elemTails, zeros]
  | cons elem value ih =>
    have hsize : c.size elem + (value.map c.size).sum < z.limit := hlimit
    have hzeros : zeros ((elem :: value).length * 32) = zeros 32 ++ zeros (value.length * 32) := by
      rw [← zeros_add, List.length_cons]
      congr 1
      omega
    have htail : dynamicOffset =
        (first ++ (zeros 32 ++ (zeros (value.length * 32) ++ mid))).length := by
      rw [hdynamic, hoffset, List.length_cons]
      simp only [List.length_append, length_zeros]
      omega
    have helem := encodeDynamic_eq c (Nat.lt_of_le_of_lt (Nat.le_add_right _ _) hsize) first
      (zeros (value.length * 32) ++ mid) (zeros (value.map c.size).sum ++ rest) hoffset htail
    have hnext : offset + 32 = (first ++ word dynamicOffset).length := by
      rw [List.length_append, length_word, hoffset]
    have htails : dynamicOffset + c.size elem =
        offset + 32 + value.length * 32 + (mid ++ c.bytes elem).length := by
      rw [hdynamic, List.length_append, c.length_bytes, List.length_cons]
      omega
    have hrest := ih (first ++ word dynamicOffset) (mid ++ c.bytes elem) hnext htails (by omega)
    simp only [List.append_assoc] at helem hrest
    simp only [encodeElems, hzeros, elemHeads, elemTails, List.map_cons, List.sum_cons, zeros_add,
      List.flatMap_cons, List.append_assoc]
    rw [helem, ← Nat.add_assoc]
    exact hrest

/-- Elements are decoded just where their heads and tails stand there. -/
theorem decodeElems_eq_ok (c : Codec z α) {data : Bytes} (hlimit : data.length < z.limit)
    {left offset dynamicOffset : Nat} (hoffset : offset + left * 32 ≤ data.length)
    (hdynamic : dynamicOffset ≤ data.length) {value : List α} {n : Nat} :
    decodeElems z.decode c.toCode left offset dynamicOffset data = .ok (value, n) ↔
      value.length = left ∧ n = dynamicOffset + (value.map c.size).sum ∧
        StartsWith (elemHeads c.toCode dynamicOffset value) (data.drop offset) ∧
        StartsWith (elemTails c value) (data.drop dynamicOffset) := by
  induction left generalizing offset dynamicOffset value n with
  | zero =>
    simp only [decodeElems, Except.ok.injEq, Prod.mk.injEq, List.length_eq_zero_iff]
    constructor
    · rintro ⟨rfl, rfl⟩
      exact ⟨rfl, rfl, startsWith_nil _, startsWith_nil _⟩
    · rintro ⟨rfl, rfl, -, -⟩
      exact ⟨rfl, rfl⟩
  | succ left ih =>
    have helem : ∀ {a m}, decodeDynamic z.decode .invalidOffsetForSliceElement c.toCode offset
        dynamicOffset data = .ok (a, m) ↔ _ := fun {a m} =>
      @decodeDynamic_eq_ok ε z _ c _ data offset dynamicOffset hlimit (by omega) hdynamic a m
    simp only [decodeElems, bind, Except.bind]
    constructor
    · intro h
      split at h
      · cases h
      · rename_i r hread
        obtain ⟨hm, hword, hbytes⟩ := helem.mp hread
        split at h
        · cases h
        · rename_i r' hvalue
          cases h
          rw [hm] at hvalue
          obtain ⟨hlength, hn, hheads, htails⟩ := (ih (by omega) (c.end_le hdynamic hbytes)).mp hvalue
          refine ⟨congrArg (· + 1) hlength, ?_, ?_, ?_⟩
          · rw [List.map_cons, List.sum_cons]
            omega
          · exact (startsWith_drop (length_word _)).mpr ⟨hword, hheads⟩
          · exact (startsWith_drop (c.length_bytes _)).mpr ⟨hbytes, htails⟩
    · intro h
      obtain ⟨hlength, hn, hheads, htails⟩ := h
      obtain ⟨a, value, rfl⟩ := List.exists_cons_of_length_eq_add_one hlength
      obtain ⟨hword, hheads⟩ := (startsWith_drop (length_word _)).mp hheads
      obtain ⟨hbytes, htails⟩ := (startsWith_drop (c.length_bytes _)).mp htails
      rw [List.map_cons, List.sum_cons] at hn
      have hvalue := (@ih (offset + 32) (dynamicOffset + c.size a) (by omega)
        (c.end_le hdynamic hbytes) value n).mpr ⟨Nat.succ.inj hlength, by omega, hheads, htails⟩
      rw [helem.mpr ⟨rfl, hword, hbytes⟩]
      simp only [hvalue]
      rfl

/-- Decoding elements never slices out of range. -/
theorem decodeElems_inRange (c : Codec z α) {data : Bytes} (hlimit : data.length < z.limit)
    {left offset dynamicOffset : Nat} (hoffset : offset + left * 32 ≤ data.length)
    (hdynamic : dynamicOffset ≤ data.length) :
    decodeElems z.decode c.toCode left offset dynamicOffset data ≠ .error .outOfRange := by
  induction left generalizing offset dynamicOffset with
  | zero =>
    intro h
    cases h
  | succ left ih =>
    simp only [decodeElems, bind, Except.bind]
    intro h
    split at h
    · rename_i hread
      cases h
      have hwrong : (Fault.invalidOffsetForSliceElement : Fault ε) ≠ .outOfRange := by simp
      exact decodeDynamic_inRange c hwrong hlimit (by omega) hdynamic hread
    · rename_i r hread
      obtain ⟨hm, -, hbytes⟩ := (decodeDynamic_eq_ok c hlimit (by omega) hdynamic).mp hread
      have hin : r.2 ≤ data.length := hm ▸ c.end_le hdynamic hbytes
      split at h
      · rename_i hvalue
        cases h
        exact ih (by omega) hin hvalue
      · cases h

/-- The codec of a slice: its length, the offsets of its elements, and the elements. -/
def slice (c : Codec z α) : Codec z (List α) where
  toCode := sliceCode z.decode c.toCode
  bytes value := word value.length ++
    (elemHeads c.toCode (value.length * 32) value ++ elemTails c value)
  length_bytes value := by
    rw [List.length_append, List.length_append, length_word, length_elemHeads, length_elemTails,
      sliceCode]
    dsimp only
    omega
  encodeTo_length h := by
    simp only [sliceCode, bind, Except.bind] at h
    split at h
    · cases h
    · rename_i hput
      split at h
      · cases h
      · rename_i hwrite
        cases h
        exact (length_writeFrom (length_encodeElems c) hwrite).trans (length_putSize hput)
  encodeTo_zeros value rest h := by
    have hsize : 32 + 32 * value.length + (value.map c.size).sum < z.limit := h
    have htails : value.length * 32 = 0 + value.length * 32 + ([] : Bytes).length := by simp
    have helems := encodeElems_eq c value [] [] rest rfl htails (by omega)
    have hput := @putSize_eq ε [] (zeros (value.length * 32) ++
      (zeros (value.map c.size).sum ++ rest)) value.length
    have hwrite := writeFrom_eq (word value.length) helems
    rw [length_word] at hwrite
    simp only [List.nil_append, List.length_nil] at hput hwrite
    simp only [sliceCode, Nat.mul_comm 32, zeros_add, List.append_assoc, hput, bind, Except.bind,
      hwrite, pure, Except.pure]
    congr 2
    omega
  decode_eq_ok {data value n} hlimit := by
    simp only [sliceCode]
    split
    · rename_i hshort
      simp only [reduceCtorEq, false_iff, not_and]
      intro _ hbytes
      have := hbytes.length_le
      rw [List.length_append, length_word] at this
      omega
    · rename_i hlong
      have hbody : (data.drop 32).length < z.limit := by
        rw [List.length_drop]
        omega
      rw [startsWith_append, length_word, startsWith_append, length_elemHeads]
      simp only [sliceFrom_eq (show 32 ≤ data.length by omega), bind, Except.bind]
      constructor
      · intro h
        split at h
        · cases h
        · rename_i length hlength
          split at h
          · cases h
          · rename_i hfits
            split at h
            · cases h
            · rename_i r helems
              cases h
              obtain ⟨hvalue, hn, hheads, htails⟩ :=
                (decodeElems_eq_ok c hbody (by omega) (by omega)).mp helems
              subst hvalue
              refine ⟨by omega, (z.decode_eq_ok.mp hlength).2, hheads, htails⟩
      · rintro ⟨hn, hword, hheads, htails⟩
        have hfit : value.length * 32 ≤ (data.drop 32).length := by
          have := hheads.length_le
          rwa [length_elemHeads] at this
        rw [z.decode_eq_ok.mpr ⟨by omega, hword⟩]
        have helems := (@decodeElems_eq_ok ε z α c (data.drop 32) hbody value.length 0
          (value.length * 32) (by omega) (by omega) value _).mpr ⟨rfl, rfl, hheads, htails⟩
        simp only [helems]
        rw [if_neg (by omega)]
        simp only [pure, Except.pure, Except.ok.injEq, Prod.mk.injEq, true_and]
        omega
  decode_inRange {data} hlimit := by
    simp only [sliceCode]
    split
    · intro h
      cases h
    · rename_i hlong
      have hbody : (data.drop 32).length < z.limit := by
        rw [List.length_drop]
        omega
      simp only [sliceFrom_eq (show 32 ≤ data.length by omega), bind, Except.bind]
      intro h
      split at h
      · rename_i hlength
        cases h
        exact z.decode_inRange _ hlength
      · split at h
        · cases h
        · rename_i hfits
          split at h
          · rename_i helems
            cases h
            exact decodeElems_inRange c hbody (by omega) (by omega) helems
          · cases h

end Slice

end AbiCodec
