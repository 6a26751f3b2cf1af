import Nvnmchain.Lib.Hash

/-!
# Hashes as 256-bit words

A `Hash` is also a storage word. Read as a number it is big-endian (`Hash.big`), and `bigToHash` is
the word of a number modulo `2^256`. Parts of a word are written with Go's `copy` and
`binary.BigEndian.PutUint64` (`Hash.copyInto`, `putUint64`) and read back as slices of its bytes
(`Hash.slice`, `uint64Of`).
-/

set_option autoImplicit false

namespace Eth

open Go (Bytes)

/-! ## Big-endian numbers -/

/-- The last `k` bytes of a number. -/
def beBytes : Nat → Nat → Bytes
  | 0, _ => []
  | k + 1, n => beBytes k (n / 256) ++ [UInt8.ofNat (n % 256)]

/-- The number of some bytes. -/
def beNat (b : Bytes) : Nat := b.foldl (fun n x => n * 256 + x.toNat) 0

@[simp]
theorem length_beBytes (k n : Nat) : (beBytes k n).length = k := by
  induction k generalizing n with
  | zero => rfl
  | succ k ih => rw [beBytes, List.length_append, ih]; rfl

/-- One byte more is one digit more. -/
theorem beNat_concat (b : Bytes) (x : UInt8) : beNat (b ++ [x]) = beNat b * 256 + x.toNat := by
  rw [beNat, List.foldl_append]
  rfl

/-- A number reads back modulo its width. -/
theorem beNat_beBytes (k n : Nat) : beNat (beBytes k n) = n % 256 ^ k := by
  induction k generalizing n with
  | zero => rw [Nat.pow_zero, Nat.mod_one]; rfl
  | succ k ih =>
    have hbyte : (UInt8.ofNat (n % 256)).toNat = n % 256 :=
      Nat.mod_eq_of_lt (Nat.mod_lt n (by decide))
    rw [beBytes, beNat_concat, ih, hbyte, Nat.pow_succ', Nat.mod_mul]
    omega

/-- Bytes read back from their number. -/
theorem beBytes_beNat (b : Bytes) : beBytes b.length (beNat b) = b := by
  induction b using List.reverseRecOn with
  | nil => rfl
  | append_singleton b x ih =>
    have hx : x.toNat < 256 := x.toNat_lt
    have hdiv : (beNat b * 256 + x.toNat) / 256 = beNat b := by omega
    have hmod : (beNat b * 256 + x.toNat) % 256 = x.toNat := by omega
    rw [List.length_append, List.length_singleton, beNat_concat, beBytes, hdiv, hmod, ih,
      UInt8.ofNat_toNat]

/-- `binary.BigEndian.PutUint64`. -/
def putUint64 (v : UInt64) : Bytes := beBytes 8 v.toNat

/-- `binary.BigEndian.Uint64`. -/
def uint64Of (b : Bytes) : UInt64 := UInt64.ofNat (beNat b)

@[simp]
theorem length_putUint64 (v : UInt64) : (putUint64 v).length = 8 := length_beBytes 8 _

/-- Eight bytes of a number read back. -/
@[simp]
theorem uint64Of_putUint64 (v : UInt64) : uint64Of (putUint64 v) = v := by
  rw [uint64Of, putUint64, beNat_beBytes, Nat.mod_eq_of_lt (show v.toNat < 256 ^ 8 from v.toNat_lt),
    UInt64.ofNat_toNat]

theorem putUint64_uint64Of {b : Bytes} (h : b.length = 8) : putUint64 (uint64Of b) = b := by
  have hback : beBytes 8 (beNat b) = b := h ▸ beBytes_beNat b
  have hlt : beNat b < 2 ^ 64 := by
    rw [← hback, beNat_beBytes]
    exact Nat.mod_lt _ (by decide)
  rw [putUint64, uint64Of, UInt64.toNat_ofNat', Nat.mod_eq_of_lt hlt, hback]

/-! ## Words as numbers -/

/-- `common.Hash.Big`. -/
def Hash.big (h : Hash) : Nat := beNat h.bytes

/-- `common.BigToHash`: the low 32 bytes of a number. -/
def bigToHash (n : Nat) : Hash := ⟨beBytes 32 n, length_beBytes 32 n⟩

/-- A number's word reads back modulo 2^256. -/
theorem big_bigToHash (n : Nat) : (bigToHash n).big = n % 2 ^ 256 := beNat_beBytes 32 n

/-- A word reads back from its number. -/
@[simp]
theorem bigToHash_big (h : Hash) : bigToHash h.big = h := by
  refine Hash.ext_bytes ?_
  show beBytes 32 (beNat h.bytes) = h.bytes
  rw [← h.length_bytes, beBytes_beNat]

/-- The word some words past another, modulo `2^256`. -/
def Hash.plus (h : Hash) (n : Nat) : Hash := bigToHash (h.big + n)

@[simp]
theorem Hash.plus_zero (h : Hash) : h.plus 0 = h := bigToHash_big h

/-- The words after a word are different until they come round. -/
theorem Hash.plus_inj {h : Hash} {m n : Nat} (hm : m < 2 ^ 256) (hn : n < 2 ^ 256)
    (he : h.plus m = h.plus n) : m = n := by
  have hbig := congrArg Hash.big he
  rw [Hash.plus, Hash.plus, big_bigToHash, big_bigToHash] at hbig
  omega

/-! ## Parts of words -/

/-- The zero word. -/
def Hash.zero : Hash := ⟨List.replicate 32 0, List.length_replicate⟩

/-- `copy(h[start:], b)`: the bytes that fit. -/
def Hash.copyInto (h : Hash) (start : Nat) (b : Bytes) : Hash where
  bytes := (h.bytes.take start ++ b ++ h.bytes.drop (start + b.length)).take 32
  length_bytes := by
    have hlen := h.length_bytes
    simp only [List.length_take, List.length_append, List.length_drop, hlen]
    omega

/-- `n` bytes of a word, from byte `i` on. -/
def Hash.slice (h : Hash) (i n : Nat) : Bytes := (h.bytes.drop i).take n

/-- Bytes that are copied into a word replace as many of it. -/
theorem Hash.bytes_copyInto {h : Hash} {start : Nat} {b : Bytes} (hfit : start + b.length ≤ 32) :
    (h.copyInto start b).bytes = h.bytes.take start ++ b ++ h.bytes.drop (start + b.length) := by
  have hlen := h.length_bytes
  refine List.take_of_length_le ?_
  simp only [List.length_append, List.length_take, List.length_drop, hlen]
  omega

/-- What was copied into a word is read there. -/
theorem Hash.slice_copyInto_self {h : Hash} {start : Nat} {b : Bytes}
    (hfit : start + b.length ≤ 32) : (h.copyInto start b).slice start b.length = b := by
  have hlen : (h.bytes.take start).length = start := by
    rw [List.length_take, h.length_bytes]
    omega
  rw [Hash.slice, Hash.bytes_copyInto hfit, List.append_assoc, List.drop_left' hlen,
    List.take_left' rfl]

/-- The bytes before the copied ones stay. -/
theorem Hash.slice_copyInto_before {h : Hash} {start i n : Nat} {b : Bytes}
    (hfit : start + b.length ≤ 32) (hn : i + n ≤ start) :
    (h.copyInto start b).slice i n = h.slice i n := by
  have hlen : (h.bytes.take start).length = start := by
    rw [List.length_take, h.length_bytes]
    omega
  have hi : i ≤ (h.bytes.take start).length := by omega
  rw [Hash.slice, Hash.slice, Hash.bytes_copyInto hfit, List.append_assoc,
    List.drop_append_of_le_length hi, List.take_append_of_le_length, List.drop_take, List.take_take,
    Nat.min_eq_left (by omega)]
  rw [List.length_drop]
  omega

/-- The bytes after the copied ones stay. -/
theorem Hash.slice_copyInto_after {h : Hash} {start i n : Nat} {b : Bytes}
    (hfit : start + b.length ≤ 32) (hi : start + b.length ≤ i) :
    (h.copyInto start b).slice i n = h.slice i n := by
  have hlen : (h.bytes.take start ++ b).length = start + b.length := by
    rw [List.length_append, List.length_take, h.length_bytes]
    omega
  rw [Hash.slice, Hash.slice, Hash.bytes_copyInto hfit, List.drop_append, List.drop_eq_nil_of_le
    (by omega), List.nil_append, List.drop_drop, hlen, Nat.add_sub_cancel' hi]

end Eth
