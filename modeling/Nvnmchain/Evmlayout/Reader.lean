import Nvnmchain.Evmlayout.Rows

/-!
# Reading the contract

The contract's view of its storage: the fields of its structs where the layout puts them, read as
Solidity reads them. Storage that shows the entries of a registry or a record reads as that registry
or record (`readRegistry_eq`, `readRecord_eq`), and storage that shows the entry of a list of ids as
that list (`readUint64s_eq`).
-/

set_option autoImplicit false

namespace Nvnmchain.Evmlayout

open Go (Bytes)
open Eth (Hash putUint64)
open Solidity
open Collections

section Readers

variable (keccak : Bytes → Hash) (st : Storage)

/-- `registries[r]`, a field of it. -/
def registrySlot (r : UInt64) (field : Nat) : Slot :=
  .elem (stateVar slotRegistries) (word r).bytes field

/-- `records[r][k][i]`, a field of it. -/
def recordSlot (r k i : UInt64) (field : Nat) : Slot :=
  .elem (mapAt (mapAt (stateVar slotRecords) r) k) (word i).bytes field

/-- `recordCount[r]`. -/
def recordCountSlot (r : UInt64) : Slot := .elem (stateVar slotRecordCount) (word r).bytes 0

/-- `latestIndex[r][k]`. -/
def latestIndexSlot (r k : UInt64) : Slot :=
  .elem (mapAt (stateVar slotLatestIndex) r) (word k).bytes 0

/-- `recordIdByChecksum[r][c]`. -/
def recordIDSlot (r : UInt64) (c : Bytes) : Slot :=
  .elem (mapAt (stateVar slotRecordIDByChecksum) r) c 0

/-- A string field. -/
def readString (p : Slot) : Bytes := st.loadString keccak (p.address keccak)

/-- A `uint64` field, or part of one. -/
def readUint64 (p : Slot) (offset : Nat) : UInt64 := st.loadUint64 (p.address keccak) offset

/-- A list of ids. -/
def readUint64s (p : Slot) : List UInt64 := st.loadUint64s keccak (p.address keccak)

/-- A registry of the contract. -/
def readRegistry (r : UInt64) : Registry where
  id := readUint64 keccak st (registrySlot r 0) 0
  name := readString keccak st (registrySlot r 1)
  description := readString keccak st (registrySlot r 2)
  creator := readString keccak st (registrySlot r 3)
  createdAt := readString keccak st (registrySlot r 4)
  metadata := readString keccak st (registrySlot r 5)

/-- A record of the contract. The last slot packs four fields. -/
def readRecord (r k i : UInt64) : Record where
  uri := readString keccak st (recordSlot r k i 0)
  checksum := readString keccak st (recordSlot r k i 1)
  checksumAlgo := readString keccak st (recordSlot r k i 2)
  metadata := readString keccak st (recordSlot r k i 3)
  timestamp := readString keccak st (recordSlot r k i 4)
  status := readString keccak st (recordSlot r k i 5)
  recordId := readUint64 keccak st (recordSlot r k i 6) 0
  index := readUint64 keccak st (recordSlot r k i 6) 8
  isLatest := st.loadBool ((recordSlot r k i 6).address keccak) 16
  registryId := readUint64 keccak st (recordSlot r k i 6) 17

/-- The registry count, in the header's 8 bytes above the low 20. -/
def readRegistryCount : UInt64 := readUint64 keccak st (stateVar slotHeader) 20

end Readers

/-! ## Strings -/

/-- A short string is left-aligned, with twice its length in the last byte. -/
theorem bytes_shortString {s : Bytes} (h : s.length < 32) :
    (shortString s).bytes =
      s ++ List.replicate (31 - s.length) 0 ++ [UInt8.ofNat (s.length * 2)] := by
  have hcopy : (Hash.zero.copyInto 0 s).bytes = s ++ List.replicate (32 - s.length) 0 := by
    rw [Hash.bytes_copyInto (by omega), List.take_zero, List.nil_append, Nat.zero_add]
    exact congrArg (s ++ ·) List.drop_replicate
  have htake : (s ++ List.replicate (32 - s.length) 0).take 31 =
      s ++ List.replicate (31 - s.length) 0 := by
    rw [List.take_append, List.take_of_length_le (by omega), List.take_replicate,
      Nat.min_eq_left (by omega)]
  rw [shortString, Hash.bytes_copyInto (by simp), hcopy, htake]
  simp only [List.length_singleton, List.drop_append]
  rw [List.drop_eq_nil_of_le (by omega), List.drop_replicate,
    show 32 - s.length - (31 + 1 - s.length) = 0 by omega]
  simp

/-- A word of a long string is its next 32 bytes, filled with zeros. -/
theorem bytes_stringWord (s : Bytes) (i : Nat) :
    (stringWord s i).bytes = (s.drop i ++ List.replicate 32 0).take 32 := by
  show (([] : Bytes) ++ s.drop i ++ (List.replicate 32 0).drop (0 + (s.drop i).length)).take 32 = _
  rw [List.nil_append, List.take_append, List.take_append, List.drop_replicate, List.take_replicate,
    List.take_replicate]
  congr 2
  omega

theorem big_word (v : UInt64) : (word v).big = v.toNat := by
  have hv := v.toNat_lt
  rw [word_eq, Eth.big_bigToHash, Nat.mod_eq_of_lt (by omega)]

section Entries

variable {keccak : Bytes → Hash} {st : Storage}

/-- Storage that shows a string's entry reads as the string. -/
theorem readString_eq {p : Slot} {s : Bytes} (h : Shows keccak st p (stringEntry s))
    (hs : s.length < 2 ^ 63) : readString keccak st p = s := by
  by_cases hshort : s.length < 32
  · rw [stringEntry, if_pos hshort] at h
    refine loadString_short hshort ?_
    rw [h.head]
    exact bytes_shortString hshort
  · rw [stringEntry, if_neg hshort] at h
    have hlen : (UInt64.ofNat (s.length * 2 + 1)).toNat = s.length * 2 + 1 := by
      rw [UInt64.toNat_ofNat', Nat.mod_eq_of_lt (by omega)]
    refine loadString_long ?_ fun j hj => ?_
    · rw [h.head, big_word, hlen]
    · have hword := h.words j (stringWord s (32 * j)) (by simp [List.getElem?_range hj])
      rw [← bytes_stringWord]
      exact congrArg Hash.bytes hword

/-- The low 8 bytes of an integer's word. -/
theorem slice_word (v : UInt64) : (word v).slice 24 8 = putUint64 v := by
  have h : (word v).slice 24 (putUint64 v).length = putUint64 v :=
    Hash.slice_copyInto_self (by rw [Eth.length_putUint64])
  rwa [Eth.length_putUint64] at h

/-- A value word reads back as its number. -/
theorem readUint64_eq {p : Slot} {v : UInt64} (h : Shows keccak st p (.value (word v))) :
    readUint64 keccak st p 0 = v := by
  rw [readUint64, Storage.loadUint64, h.head]
  exact (congrArg Eth.uint64Of (slice_word v)).trans (Eth.uint64Of_putUint64 v)

/-- An integer copied into a word reads back. -/
theorem slice_putUint64 {h : Hash} {start : Nat} (v : UInt64) (hfit : start + 8 ≤ 32) :
    (h.copyInto start (putUint64 v)).slice start 8 = putUint64 v := by
  have hself : (h.copyInto start (putUint64 v)).slice start (putUint64 v).length = putUint64 v :=
    Hash.slice_copyInto_self (by rwa [Eth.length_putUint64])
  rwa [Eth.length_putUint64] at hself

/-- The bytes after a copied integer stay. -/
theorem slice_putUint64_after {h : Hash} {start i n : Nat} (v : UInt64) (hi : start + 8 ≤ i)
    (hfit : start + 8 ≤ 32) : (h.copyInto start (putUint64 v)).slice i n = h.slice i n :=
  Hash.slice_copyInto_after (by rwa [Eth.length_putUint64]) (by rwa [Eth.length_putUint64])

/-- The bytes before a copied integer stay. -/
theorem slice_putUint64_before {h : Hash} {start i n : Nat} (v : UInt64) (hn : i + n ≤ start)
    (hfit : start + 8 ≤ 32) : (h.copyInto start (putUint64 v)).slice i n = h.slice i n :=
  Hash.slice_copyInto_before (by rwa [Eth.length_putUint64]) hn

/-- The bytes of an element of a list of ids. -/
def idBytes (words : List Hash) (i : Nat) : Bytes :=
  (words[i / 4]?.getD .zero).slice (24 - 8 * (i % 4)) 8

/-- One round of the loop of `idsWrites` puts its own element. -/
theorem idBytes_putIdWord {words : List Hash} {i : Nat} (id : UInt64)
    (h : words.length = (i + 3) / 4) : idBytes (putIdWord words i id) i = putUint64 id := by
  obtain ⟨full, last, hfull, hput, -⟩ := putIdWord_eq id h
  have hoffset : 32 - 8 * (i % 4) - 8 = 24 - 8 * (i % 4) := by omega
  rw [idBytes, hput, ← hfull, List.getElem?_concat_length, Option.getD_some, hoffset]
  exact slice_putUint64 id (by omega)

/-- One round of the loop keeps the elements before. -/
theorem idBytes_putIdWord_of_lt {words : List Hash} {i k : Nat} (id : UInt64)
    (h : words.length = (i + 3) / 4) (hk : k < i) :
    idBytes (putIdWord words i id) k = idBytes words k := by
  obtain ⟨full, last, hfull, hput, hwords⟩ := putIdWord_eq id h
  rw [idBytes, idBytes, hput]
  by_cases hsame : k / 4 = i / 4
  · -- an element before in the same word has opened it, and stands in higher bytes
    have hopened : i % 4 ≠ 0 := by omega
    have hafter : 32 - 8 * (i % 4) - 8 + 8 ≤ 24 - 8 * (k % 4) := by omega
    rw [hwords, if_neg hopened, hsame, ← hfull, List.getElem?_concat_length,
      List.getElem?_concat_length, Option.getD_some, Option.getD_some]
    exact slice_putUint64_after id hafter (by omega)
  · have hlt : k / 4 < full.length := by omega
    rw [hwords, List.getElem?_append_left hlt]
    split
    · rfl
    · rw [List.getElem?_append_left hlt]

/-- Each element of a list stands in the words of the list. -/
theorem idBytes_idWords {list : List UInt64} {i : Nat} {v : UInt64} (h : list[i]? = some v) :
    idBytes (idWords list) i = putUint64 v := by
  induction list using List.reverseRecOn with
  | nil => cases h
  | append_singleton list id ih =>
    have hi : i < list.length + 1 := by
      simpa only [List.length_append, List.length_singleton] using (List.getElem?_eq_some_iff.mp h).1
    rw [idWords_concat]
    rcases Nat.lt_succ_iff_lt_or_eq.mp hi with hlt | rfl
    · rw [List.getElem?_append_left hlt] at h
      rw [idBytes_putIdWord_of_lt id (length_idWords list) hlt]
      exact ih h
    · rw [List.getElem?_concat_length] at h
      rw [← Option.some.inj h]
      exact idBytes_putIdWord id (length_idWords list)

/-- Storage that shows the entry of a list of ids reads as the list. -/
theorem readUint64s_eq {p : Slot} {list : List UInt64} (h : Shows keccak st p (idsEntry list))
    (hlength : list.length < 2 ^ 64) : readUint64s keccak st p = list := by
  apply loadUint64s_eq
  · rw [h.head, idsEntry, big_word, UInt64.toNat_ofNat', Nat.mod_eq_of_lt hlength]
  · intro i v hv
    have hi : i < list.length := (List.getElem?_eq_some_iff.mp hv).1
    have hword : i / 4 < (idWords list).length := by
      rw [length_idWords]
      omega
    have hload := h.words (i / 4) _ (List.getElem?_eq_getElem hword)
    have hbytes := idBytes_idWords hv
    rw [idBytes, List.getElem?_eq_getElem hword, Option.getD_some, ← hload] at hbytes
    exact (congrArg Eth.uint64Of hbytes).trans (Eth.uint64Of_putUint64 v)

/-- The four parts of a record's last slot. -/
theorem slices_packRecord (recordID index : UInt64) (isLatest : Bool) (registryID : UInt64) :
    (packRecord recordID index isLatest registryID).slice 24 8 = putUint64 recordID ∧
      (packRecord recordID index isLatest registryID).slice 16 8 = putUint64 index ∧
      (packRecord recordID index isLatest registryID).slice 15 1 = [if isLatest then 1 else 0] ∧
      (packRecord recordID index isLatest registryID).slice 7 8 = putUint64 registryID := by
  have hflag : ∀ (h : Hash) (i n : Nat), 16 ≤ i → (h.copyInto 15 [1]).slice i n = h.slice i n :=
    fun _ _ _ hi => Hash.slice_copyInto_after (by decide) hi
  unfold packRecord
  refine ⟨?_, ?_, ?_, slice_putUint64 _ (by decide)⟩
  · rw [slice_putUint64_after _ (by decide) (by decide)]
    cases isLatest with
    | false =>
      rw [if_neg Bool.false_ne_true, slice_putUint64_after _ (by decide) (by decide),
        slice_putUint64 _ (by decide)]
    | true =>
      rw [if_pos rfl, hflag _ _ _ (by decide), slice_putUint64_after _ (by decide) (by decide),
        slice_putUint64 _ (by decide)]
  · rw [slice_putUint64_after _ (by decide) (by decide)]
    cases isLatest with
    | false => rw [if_neg Bool.false_ne_true, slice_putUint64 _ (by decide)]
    | true => rw [if_pos rfl, hflag _ _ _ (by decide), slice_putUint64 _ (by decide)]
  · rw [slice_putUint64_after _ (by decide) (by decide)]
    cases isLatest with
    | false =>
      rw [if_neg Bool.false_ne_true, slice_putUint64_before _ (by decide) (by decide),
        slice_putUint64_before _ (by decide) (by decide)]
      rfl
    | true =>
      rw [if_pos rfl]
      exact Hash.slice_copyInto_self (by decide)

/-- Storage that shows a registry's entries reads as the registry. -/
theorem readRegistry_eq {r : UInt64} {reg : Registry} (hsized : Sized (registryTexts reg))
    (h : ∀ (f : Nat) (x : Entry), (registryEntries reg)[f]? = some x →
      Shows keccak st (registrySlot r f) x) : readRegistry keccak st r = reg := by
  simp only [Sized, registryTexts, List.forall_mem_cons] at hsized
  obtain ⟨h1, h2, h3, h4, h5, -⟩ := hsized
  rw [readRegistry, readUint64_eq (h 0 _ rfl), readString_eq (h 1 _ rfl) h1,
    readString_eq (h 2 _ rfl) h2, readString_eq (h 3 _ rfl) h3, readString_eq (h 4 _ rfl) h4,
    readString_eq (h 5 _ rfl) h5]

/-- Storage that shows a record's entries reads as the record. -/
theorem readRecord_eq {r k i : UInt64} {rec : Record} (hsized : Sized (recordTexts rec))
    (h : ∀ (f : Nat) (x : Entry), (recordEntries rec)[f]? = some x →
      Shows keccak st (recordSlot r k i f) x) : readRecord keccak st r k i = rec := by
  simp only [Sized, recordTexts, List.forall_mem_cons] at hsized
  obtain ⟨h1, h2, h3, h4, h5, h6, -⟩ := hsized
  have hpacked : st.load ((recordSlot r k i 6).address keccak) =
      packRecord rec.recordId rec.index rec.isLatest rec.registryId := (h 6 _ rfl).head
  obtain ⟨hrecord, hindex, hlatest, hregistry⟩ :=
    slices_packRecord rec.recordId rec.index rec.isLatest rec.registryId
  have hflag : decide ([if rec.isLatest then (1 : UInt8) else 0] ≠ [0]) = rec.isLatest := by
    cases rec.isLatest <;> decide
  rw [readRecord, readString_eq (h 0 _ rfl) h1, readString_eq (h 1 _ rfl) h2,
    readString_eq (h 2 _ rfl) h3, readString_eq (h 3 _ rfl) h4, readString_eq (h 4 _ rfl) h5,
    readString_eq (h 5 _ rfl) h6]
  simp only [readUint64, Storage.loadUint64, Storage.loadBool, hpacked, Nat.sub_zero, Nat.reduceSub,
    hrecord, hindex, hlatest, hregistry, Eth.uint64Of_putUint64, hflag]

/-- The count in the header. -/
theorem readRegistryCount_eq {admin : Bytes} {count : UInt64}
    (h : st.load ((stateVar slotHeader).address keccak) = headerWord admin count) :
    readRegistryCount keccak st = count := by
  rw [readRegistryCount, readUint64, Storage.loadUint64, h]
  exact (congrArg Eth.uint64Of (slice_putUint64 count (by decide))).trans (Eth.uint64Of_putUint64 count)

end Entries

end Nvnmchain.Evmlayout
