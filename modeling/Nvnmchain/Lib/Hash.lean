import Nvnmchain.Lib.GoBytes

/-!
# 32-byte hashes

`Hash` is `common.Hash`: exactly 32 bytes, the length a field of the structure. Hashes are ordered as
their bytes. `bytesToHash` is the total conversion from byte strings, which pads a short string on
the left and keeps the last 32 bytes of a long one; on 32 bytes it changes nothing
(`bytesToHash_bytes`).
-/

set_option autoImplicit false

namespace Eth

open Go (Bytes)

/-- `common.Hash`. -/
structure Hash where
  bytes : Bytes
  length_bytes : bytes.length = 32
deriving DecidableEq

theorem Hash.ext_bytes {h k : Hash} (e : h.bytes = k.bytes) : h = k := by
  obtain ⟨_, _⟩ := h
  obtain ⟨_, _⟩ := k
  cases e
  rfl

/-- Hashes compare as their bytes do. -/
instance : Ord Hash where
  compare := compareOn Hash.bytes

instance : Std.TransOrd Hash := inferInstanceAs (Std.TransCmp (compareOn Hash.bytes))

instance : Std.LawfulEqOrd Hash where
  eq_of_compare h := Hash.ext_bytes (Std.LawfulEqOrd.eq_of_compare h)

/-- `common.BytesToHash`: the last 32 bytes, padded on the left with zeros. -/
def bytesToHash (b : Bytes) : Hash where
  bytes := List.replicate (32 - b.length) 0 ++ b.drop (b.length - 32)
  length_bytes := by simp only [List.length_append, List.length_replicate, List.length_drop]; omega

/-- 32 bytes are a hash as they are. -/
theorem bytes_bytesToHash {b : Bytes} (h : b.length = 32) : (bytesToHash b).bytes = b := by
  simp only [bytesToHash, h, Nat.sub_self, List.replicate_zero, List.nil_append, List.drop_zero]

@[simp]
theorem bytesToHash_bytes (h : Hash) : bytesToHash h.bytes = h :=
  Hash.ext_bytes (bytes_bytesToHash h.length_bytes)

/-- `common.BytesToAddress`: the last 20 bytes, padded on the left with zeros. -/
def bytesToAddress (b : Bytes) : Bytes := List.replicate (20 - b.length) 0 ++ b.drop (b.length - 20)

/-- `common.Address`. -/
structure Address where
  bytes : Bytes
  length_bytes : bytes.length = 20
deriving DecidableEq

theorem Address.ext_bytes {a b : Address} (e : a.bytes = b.bytes) : a = b := by
  obtain ⟨_, _⟩ := a
  obtain ⟨_, _⟩ := b
  cases e
  rfl

/-- `common.Hash.Hex`. -/
def Hash.hex (h : Hash) : Bytes := Go.str "0x" ++ Go.fmtHex h.bytes

end Eth
