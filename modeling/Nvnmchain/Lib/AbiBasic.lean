import Nvnmchain.Lib.AbiCodec

/-!
# The basic types of the ABI

Words and strings as the contract ABI defines them, read strictly: a padding byte that is not zero is
an error. These are codecs of the kind that tuples are made from, so what is asked of the basic types
there can be met.
-/

set_option autoImplicit false

namespace AbiCodec

open Go (Bytes)
open Eth (putUint64 uint64Of Address)

variable {ε : Type}

/-! ## Words -/

/-- Bytes start with others if the others are cut off their front. -/
theorem startsWith_iff_take {first data : Bytes} : StartsWith first data ↔ data.take first.length = first := by
  constructor
  · rintro ⟨rest, rfl⟩
    exact List.take_left
  · intro h
    exact ⟨data.drop first.length, by rw [← h, List.length_take, ← h]; simp⟩

/-- A type of one word, whose values are some bytes at its end. -/
structure Tail (α : Type) where
  width : Nat
  width_le : width ≤ 32
  bytes : α → Bytes
  length_bytes : ∀ a, (bytes a).length = width
  read : Bytes → Option α
  read_eq_some : ∀ {b a}, b.length = width → (read b = some a ↔ b = bytes a)

namespace Tail

variable {α : Type} (t : Tail α)

/-- The word of a value. -/
def word (a : α) : Bytes := zeros (32 - t.width) ++ t.bytes a

theorem length_word (a : α) : (t.word a).length = 32 := by
  rw [word, List.length_append, length_zeros, t.length_bytes]
  have := t.width_le
  omega

/-- The value of a word. -/
def readWord (b : Bytes) : Option α :=
  if b.take (32 - t.width) = zeros (32 - t.width) then t.read (b.drop (32 - t.width)) else none

/-- A word is read as a value just where it is the word of that value. -/
theorem readWord_eq_some {b : Bytes} (h : b.length = 32) {a : α} :
    t.readWord b = some a ↔ b = t.word a := by
  have hle := t.width_le
  have hread : t.read (b.drop (32 - t.width)) = some a ↔ b.drop (32 - t.width) = t.bytes a :=
    t.read_eq_some (by rw [List.length_drop]; omega)
  unfold readWord
  split
  · rename_i hzeros
    rw [hread, word, ← hzeros]
    constructor
    · intro e
      rw [← e, List.take_append_drop]
    · intro e
      have hdrop := congrArg (List.drop (32 - t.width)) e
      rwa [List.drop_left' (by rw [List.length_take]; omega)] at hdrop
  · rename_i hzeros
    simp only [reduceCtorEq, false_iff]
    intro e
    rw [e, word, List.take_left' (length_zeros _)] at hzeros
    exact hzeros rfl

section Word

variable (dirty : ε)

def encodeTo (a : α) (buf : Bytes) : Except (Fault ε) (Bytes × Nat) :=
  if buf.length < 32 then .error .unexpectedEOF else .ok (t.word a ++ buf.drop 32, 32)

def decode (data : Bytes) : Except (Fault ε) (α × Nat) :=
  if data.length < 32 then .error .unexpectedEOF
  else match t.readWord (data.take 32) with
    | some a => .ok (a, 32)
    | none => .error (.other dirty)

variable {t dirty}

/-- Encoding in place keeps the buffer's length. -/
theorem encodeTo_length {a : α} {buf buf' : Bytes} {n : Nat}
    (h : t.encodeTo a buf = (.ok (buf', n) : Except (Fault ε) _)) : buf'.length = buf.length := by
  unfold encodeTo at h
  split at h
  · cases h
  · cases h
    rw [List.length_append, t.length_word, List.length_drop]
    omega

/-- A zeroed buffer gets the word. -/
theorem encodeTo_zeros (a : α) (rest : Bytes) :
    t.encodeTo a (zeros 32 ++ rest) = (.ok (t.word a ++ rest, 32) : Except (Fault ε) _) := by
  rw [encodeTo, if_neg (by simp), List.drop_left' (length_zeros 32)]

/-- A value is decoded just where its word stands first. -/
theorem decode_eq_ok {data : Bytes} {a : α} {n : Nat} :
    t.decode dirty data = .ok (a, n) ↔ n = 32 ∧ StartsWith (t.word a) data := by
  unfold decode
  split
  · rename_i hshort
    simp only [reduceCtorEq, false_iff, not_and]
    intro _ h
    have := h.length_le
    rw [t.length_word] at this
    omega
  · rename_i hlong
    have hread := @readWord_eq_some α t (data.take 32) (by rw [List.length_take]; omega) a
    rw [startsWith_iff_take, t.length_word, ← hread]
    cases t.readWord (data.take 32) with
    | none => simp
    | some b =>
      simp only [Except.ok.injEq, Prod.mk.injEq, Option.some.injEq]
      tauto

/-- Too little data is an error, never a slice out of range. -/
theorem decode_inRange (data : Bytes) : t.decode dirty data ≠ .error .outOfRange := by
  unfold decode
  split
  · simp
  · cases t.readWord (data.take 32) with
    | none => simp
    | some b => simp

end Word

/-- The codec of the type. -/
def codec (z : Sizes ε) (dirty : ε) : Word z α where
  size _ := 32
  encodeTo := t.encodeTo
  decode := t.decode dirty
  bytes := t.word
  length_bytes := t.length_word
  encodeTo_length := encodeTo_length
  encodeTo_zeros a rest _ := encodeTo_zeros a rest
  decode_eq_ok _ := decode_eq_ok
  decode_inRange _ := decode_inRange _
  isWord _ := rfl

end Tail

def uint64Tail : Tail UInt64 where
  width := 8
  width_le := by decide
  bytes := putUint64
  length_bytes := Eth.length_putUint64
  read b := some (uint64Of b)
  read_eq_some {b a} h := by
    rw [Option.some.injEq]
    constructor
    · rintro rfl
      exact (Eth.putUint64_uint64Of h).symm
    · rintro rfl
      exact Eth.uint64Of_putUint64 a

def uint8Tail : Tail UInt8 where
  width := 1
  width_le := by decide
  bytes v := [v]
  length_bytes _ := rfl
  read b := b.head?
  read_eq_some {b a} h := by
    obtain ⟨x, rfl⟩ := List.length_eq_one_iff.mp h
    simp

def boolTail : Tail Bool where
  width := 1
  width_le := by decide
  bytes v := [if v then 1 else 0]
  length_bytes _ := rfl
  read b := if b = [0] then some false else if b = [1] then some true else none
  read_eq_some {b a} h := by
    cases a with
    | false => by_cases h0 : b = [0] <;> by_cases h1 : b = [1] <;> simp [h0, h1]
    | true => by_cases h0 : b = [0] <;> by_cases h1 : b = [1] <;> simp [h0, h1]

def addressTail : Tail Address where
  width := 20
  width_le := by decide
  bytes := Address.bytes
  length_bytes := Address.length_bytes
  read b := if h : b.length = 20 then some ⟨b, h⟩ else none
  read_eq_some {b a} h := by
    rw [dif_pos h, Option.some.injEq]
    constructor
    · rintro rfl
      rfl
    · rintro rfl
      rfl

/-! ## Sizes and strings -/

section Sizes

variable (dirty : ε)

/-- A size below the largest `int`. -/
def decodeStrict (data : Bytes) : Except (Fault ε) Nat :=
  if data.length < 32 then .error .unexpectedEOF
  else match uint64Tail.readWord (data.take 32) with
    | some n => if n.toNat < 2 ^ 63 then .ok n.toNat else .error (.other dirty)
    | none => .error (.other dirty)

variable {dirty}

theorem word_toNat (v : UInt64) : word v.toNat = uint64Tail.word v := by
  rw [word, UInt64.ofNat_toNat]
  rfl

theorem toNat_ofNat_of_int {n : Nat} (hn : n < 2 ^ 63) : (UInt64.ofNat n).toNat = n :=
  UInt64.toNat_ofNat_of_lt' (Nat.lt_trans hn (by decide))

/-- A word is read as the size it is of. -/
theorem readWord_word {n : Nat} (hn : n < 2 ^ 63) : uint64Tail.readWord (word n) = some (.ofNat n) := by
  rw [uint64Tail.readWord_eq_some (length_word n), ← word_toNat, toNat_ofNat_of_int hn]

/-- An offset or a length is decoded just where its word stands first and it fits an int. -/
theorem decodeStrict_eq_ok {data : Bytes} {n : Nat} :
    decodeStrict dirty data = .ok n ↔ n < 2 ^ 63 ∧ StartsWith (word n) data := by
  rw [startsWith_iff_take, length_word]
  unfold decodeStrict
  constructor
  · intro h
    split at h
    · cases h
    · rename_i hlong
      split at h
      · rename_i v hread
        split at h
        · rename_i hlt
          cases h
          have hlength : (data.take 32).length = 32 := by
            rw [List.length_take]
            omega
          exact ⟨hlt, ((uint64Tail.readWord_eq_some hlength).mp hread).trans (word_toNat v).symm⟩
        · cases h
      · cases h
  · rintro ⟨hn, h⟩
    have hlength := congrArg List.length h
    rw [List.length_take, length_word] at hlength
    rw [if_neg (by omega), h, readWord_word hn]
    simp only [toNat_ofNat_of_int hn, if_pos hn]

/-- Too little data for an offset is an error, never a slice out of range. -/
theorem decodeStrict_inRange (data : Bytes) : decodeStrict dirty data ≠ .error .outOfRange := by
  unfold decodeStrict
  split
  · simp
  · split
    · split
      · simp
      · simp
    · simp

end Sizes

/-- Sizes below the largest `int`. -/
def strictSizes (dirty : ε) : Sizes ε where
  limit := 2 ^ 63
  word_lt := by decide
  decode := decodeStrict dirty
  decode_eq_ok := decodeStrict_eq_ok
  decode_inRange := decodeStrict_inRange

/-- The bytes of a string, filled up to words. -/
def fill (s : Bytes) : Bytes := s ++ zeros ((s.length + 31) / 32 * 32 - s.length)

/-- Filled bytes take whole words. -/
theorem length_fill (s : Bytes) : (fill s).length = (s.length + 31) / 32 * 32 := by
  rw [fill, List.length_append, length_zeros]
  omega

/-- The string of a length at the start of some data. -/
def readFilled (n : Nat) (data : Bytes) : Option Bytes :=
  if data.take ((n + 31) / 32 * 32) = fill (data.take n) then some (data.take n) else none

/-- Filled bytes are read just where the fill is zero. -/
theorem readFilled_eq_some {n : Nat} {data s : Bytes} (h : n ≤ data.length) :
    readFilled n data = some s ↔ s.length = n ∧ StartsWith (fill s) data := by
  have hlength : (data.take n).length = n := by
    rw [List.length_take]
    omega
  rw [startsWith_iff_take, length_fill]
  unfold readFilled
  constructor
  · intro e
    split at e
    · rename_i hfill
      cases e
      exact ⟨hlength, hlength.symm ▸ hfill⟩
    · cases e
  · rintro ⟨rfl, hfill⟩
    have hs : data.take s.length = s := by
      have htake := congrArg (List.take s.length) hfill
      rwa [List.take_take, Nat.min_eq_left (by omega), fill, List.take_left] at htake
    rw [hs, if_pos hfill]

section Blob

variable (dirty : ε)

/-- The size of a string. -/
def sizeBlob (n : Nat) : Nat := 32 + (n + 31) / 32 * 32

def encodeBlob (s buf : Bytes) : Except (Fault ε) (Bytes × Nat) :=
  if buf.length < sizeBlob s.length then .error .unexpectedEOF
  else .ok (word s.length ++ fill s ++ buf.drop (sizeBlob s.length), sizeBlob s.length)

def decodeBlob (data : Bytes) : Except (Fault ε) (Bytes × Nat) := do
  let n ← decodeStrict dirty data
  if data.length < sizeBlob n then .error .unexpectedEOF
  else match readFilled n (data.drop 32) with
    | some s => .ok (s, sizeBlob n)
    | none => .error (.other dirty)

variable {dirty}

theorem length_blob (s : Bytes) : (word s.length ++ fill s).length = sizeBlob s.length := by
  rw [List.length_append, length_word, length_fill, sizeBlob]

/-- Encoding a blob in place keeps the buffer's length. -/
theorem encodeBlob_length {s buf buf' : Bytes} {n : Nat}
    (h : encodeBlob s buf = (.ok (buf', n) : Except (Fault ε) _)) : buf'.length = buf.length := by
  unfold encodeBlob at h
  split at h
  · cases h
  · cases h
    rw [List.length_append, length_blob, List.length_drop]
    omega

/-- A zeroed buffer gets the length and the filled bytes. -/
theorem encodeBlob_zeros (s rest : Bytes) :
    encodeBlob s (zeros (sizeBlob s.length) ++ rest) =
      (.ok (word s.length ++ fill s ++ rest, sizeBlob s.length) : Except (Fault ε) _) := by
  rw [encodeBlob, if_neg (by simp), List.drop_left' (length_zeros _)]

/-- A string at the start of some data, which has its length. -/
theorem decodeBlob_of_starts {data s : Bytes} (hlimit : data.length < 2 ^ 63)
    (hword : StartsWith (word s.length) data) (hfill : StartsWith (fill s) (data.drop 32)) :
    decodeBlob dirty data = .ok (s, sizeBlob s.length) := by
  have hle := hfill.length_le
  rw [length_fill, List.length_drop] at hle
  have h32 := hword.length_le
  rw [length_word] at h32
  have hsize := (@decodeStrict_eq_ok ε dirty data s.length).mpr ⟨by omega, hword⟩
  have hfilled := (readFilled_eq_some (by rw [List.length_drop]; omega)).mpr ⟨rfl, hfill⟩
  simp only [decodeBlob, bind, Except.bind, hsize, hfilled]
  rw [if_neg (by unfold sizeBlob; omega)]

/-- A blob is decoded just where its length and its filled bytes stand first. -/
theorem decodeBlob_eq_ok {data s : Bytes} {n : Nat} (hlimit : data.length < 2 ^ 63) :
    decodeBlob dirty data = .ok (s, n) ↔
      n = sizeBlob s.length ∧ StartsWith (word s.length ++ fill s) data := by
  rw [startsWith_append, length_word]
  constructor
  · intro h
    simp only [decodeBlob, bind, Except.bind] at h
    split at h
    · cases h
    · rename_i m hsize
      obtain ⟨-, hword⟩ := decodeStrict_eq_ok.mp hsize
      split at h
      · cases h
      · rename_i hlong
        unfold sizeBlob at hlong
        split at h
        · rename_i b hread
          cases h
          obtain ⟨rfl, hfill⟩ := (readFilled_eq_some (by rw [List.length_drop]; omega)).mp hread
          exact ⟨rfl, hword, hfill⟩
        · cases h
  · rintro ⟨rfl, hword, hfill⟩
    exact decodeBlob_of_starts hlimit hword hfill

/-- Too little data for a blob is an error, never a slice out of range. -/
theorem decodeBlob_inRange (data : Bytes) : decodeBlob dirty data ≠ .error .outOfRange := by
  simp only [decodeBlob, bind, Except.bind]
  intro h
  split at h
  · rename_i hsize
    cases h
    exact decodeStrict_inRange data hsize
  · split at h
    · cases h
    · split at h
      · cases h
      · cases h

end Blob

/-- Strings and byte strings: a length, and the bytes filled up to words. -/
def blob (dirty : ε) : Codec (strictSizes dirty) Bytes where
  size s := sizeBlob s.length
  encodeTo := encodeBlob
  decode := decodeBlob dirty
  bytes s := word s.length ++ fill s
  length_bytes := length_blob
  encodeTo_length := encodeBlob_length
  encodeTo_zeros s rest _ := encodeBlob_zeros s rest
  decode_eq_ok hlimit := decodeBlob_eq_ok hlimit
  decode_inRange _ := decodeBlob_inRange _

end AbiCodec
