import Nvnmchain.Lib.OrderedMap
import Nvnmchain.Lib.Word

/-!
# Solidity storage

A contract's storage is a map from words to words in which a slot that was never written reads zero.
The state variables take the first slots. The rest is found by hashing: the element of a mapping
starts at the hash of its key and the mapping's slot, and the content of a string or a dynamic array
at the hash of its slot.

`Slot` names such a place by how it is reached, and `Slot.address` is the word it stands for. Two
declared places have different addresses (`HashesApart.eq_of_address`) when the hashes in play do not
collide: no two hashed texts, with the offsets added to them, meet each other or a state variable.
Nothing is asked of the keys. A mapping with the empty string as a key and a dynamic array hash the
same text, but one slot is not declared as both.
-/

set_option autoImplicit false

namespace Solidity

open Go (Bytes)
open Eth (Hash bigToHash)
open Collections

/-! ## Places -/

/-- Types, by the slots they take: one word; a head slot and the words at its hash; or elements found
by their keys, each a run of slots. -/
inductive Ty where
  | value
  | dynamic
  | mapping (fields : List Ty)

/-- A place in storage: a state variable, a slot of a mapping's element, or a word of the content of a
string or array. -/
inductive Slot where
  | var (n : Nat)
  | elem (parent : Slot) (key : Bytes) (field : Nat)
  | data (parent : Slot) (word : Nat)
deriving DecidableEq

namespace Slot

/-- The declared type of a place, when it has one. -/
def ty (vars : List Ty) : Slot → Option Ty
  | var n => vars[n]?
  | elem parent _ field =>
    match parent.ty vars with
    | some (.mapping fields) => fields[field]?
    | _ => none
  | data parent _ =>
    match parent.ty vars with
    | some .dynamic => some .value
    | _ => none

/-- A place that is declared. -/
def Declared (vars : List Ty) (s : Slot) : Prop := ∃ t, s.ty vars = some t

/-- The word of a place. -/
def address (keccak : Bytes → Hash) : Slot → Hash
  | var n => bigToHash n
  | elem parent key field => (keccak (key ++ (parent.address keccak).bytes)).plus field
  | data parent word => (keccak (parent.address keccak).bytes).plus word

/-- The text that is hashed for a place, and the offset added to the hash. -/
def hashed (keccak : Bytes → Hash) : Slot → Option (Bytes × Nat)
  | var _ => none
  | elem parent key field => some (key ++ (parent.address keccak).bytes, field)
  | data parent word => some ((parent.address keccak).bytes, word)

/-- A place and the places it is reached through. -/
def chain : Slot → List Slot
  | var n => [var n]
  | elem parent key field => elem parent key field :: parent.chain
  | data parent word => data parent word :: parent.chain

/-- The state variable a place belongs to. -/
def root : Slot → Nat
  | var n => n
  | elem parent _ _ => parent.root
  | data parent _ => parent.root

theorem mem_chain_self (s : Slot) : s ∈ s.chain := by
  cases s with
  | var n => exact List.mem_singleton_self _
  | elem => exact List.mem_cons_self
  | data => exact List.mem_cons_self

/-- An element is declared in a mapping. -/
theorem declared_elem {vars : List Ty} {parent : Slot} {key : Bytes} {field : Nat}
    (h : (elem parent key field).Declared vars) :
    ∃ fields, parent.ty vars = some (.mapping fields) := by
  obtain ⟨t, ht⟩ := h
  rw [ty] at ht
  split at ht
  · exact ⟨_, by assumption⟩
  · cases ht

/-- A data word is declared under a dynamic value. -/
theorem declared_data {vars : List Ty} {parent : Slot} {word : Nat}
    (h : (data parent word).Declared vars) : parent.ty vars = some .dynamic := by
  obtain ⟨t, ht⟩ := h
  rw [ty] at ht
  split at ht
  · assumption
  · cases ht

end Slot

/-! ## Hashes that do not collide -/

/-- The hashes of some places do not collide: a hash with its offset comes from one text and one
offset, and is no state variable. -/
structure HashesApart (keccak : Bytes → Hash) (vars : List Ty) (slots : List Slot) : Prop where
  apart : ∀ s ∈ slots, ∀ t ∈ slots, ∀ p ∈ s.hashed keccak, ∀ q ∈ t.hashed keccak,
    (keccak p.1).plus p.2 = (keccak q.1).plus q.2 → p = q
  fixed : ∀ s ∈ slots, ∀ p ∈ s.hashed keccak, ∀ n < vars.length,
    (keccak p.1).plus p.2 ≠ bigToHash n

/-- The hashed texts of some places, each with the number of its hash and offset. -/
def hashedWords (keccak : Bytes → Hash) (slots : List Slot) : List (Nat × Bytes × Nat) :=
  (slots.filterMap (Slot.hashed keccak)).map fun p => (((keccak p.1).plus p.2).big, p)

theorem mem_hashedWords {keccak : Bytes → Hash} {slots : List Slot} {a : Nat × Bytes × Nat} :
    a ∈ hashedWords keccak slots ↔
      ∃ s ∈ slots, ∃ p ∈ s.hashed keccak, a = (((keccak p.1).plus p.2).big, p) := by
  simp only [hashedWords, List.mem_map, List.mem_filterMap]
  constructor
  · rintro ⟨p, ⟨s, hs, hp⟩, rfl⟩
    exact ⟨s, hs, p, hp, rfl⟩
  · rintro ⟨s, hs, p, hp, rfl⟩
    exact ⟨p, ⟨s, hs, hp⟩, rfl⟩

/-- The check of each pair of hashes, made once. -/
theorem hashesApart_iff {keccak : Bytes → Hash} {vars : List Ty} {slots : List Slot} :
    HashesApart keccak vars slots ↔
      (hashedWords keccak slots).Pairwise (fun a b => a.1 = b.1 → a.2 = b.2) ∧
        ∀ a ∈ hashedWords keccak slots, ∀ n < vars.length, a.1 ≠ n % 2 ^ 256 := by
  have hbig : ∀ {x y : Hash}, x.big = y.big → x = y := by
    intro x y h
    rw [← Eth.bigToHash_big x, ← Eth.bigToHash_big y, h]
  constructor
  · intro h
    constructor
    · refine List.pairwise_of_forall_mem_list fun a ha b hb he => ?_
      obtain ⟨s, hs, p, hp, rfl⟩ := mem_hashedWords.mp ha
      obtain ⟨t, ht, q, hq, rfl⟩ := mem_hashedWords.mp hb
      dsimp only at he
      exact h.apart s hs t ht p hp q hq (hbig he)
    · intro a ha n hn he
      obtain ⟨s, hs, p, hp, rfl⟩ := mem_hashedWords.mp ha
      dsimp only at he
      rw [← Eth.big_bigToHash] at he
      exact h.fixed s hs p hp n hn (hbig he)
  · rintro ⟨hpairs, hfixed⟩
    have hsymm : Std.Symm (fun a b : Nat × Bytes × Nat => a.1 = b.1 → a.2 = b.2) :=
      ⟨fun _ _ h e => (h e.symm).symm⟩
    have hall : ∀ a ∈ hashedWords keccak slots, ∀ b ∈ hashedWords keccak slots, a.1 = b.1 → a.2 = b.2 :=
      fun a ha b hb => List.Pairwise.forall_of_forall (fun _ _ _ => rfl) hpairs ha hb
    constructor
    · intro s hs t ht p hp q hq he
      have hpq := hall _ (mem_hashedWords.mpr ⟨s, hs, p, hp, rfl⟩) _
        (mem_hashedWords.mpr ⟨t, ht, q, hq, rfl⟩)
      dsimp only at hpq
      rw [he] at hpq
      exact hpq rfl
    · intro s hs p hp n hn he
      have hne := hfixed _ (mem_hashedWords.mpr ⟨s, hs, p, hp, rfl⟩) n hn
      dsimp only at hne
      rw [he, Eth.big_bigToHash] at hne
      exact hne rfl

instance (keccak : Bytes → Hash) (vars : List Ty) (slots : List Slot) :
    Decidable (HashesApart keccak vars slots) := decidable_of_iff _ hashesApart_iff.symm

section Apart

variable {keccak : Bytes → Hash} {vars : List Ty} {slots : List Slot}

/-- Fewer slots collide no more. -/
theorem HashesApart.mono {slots' : List Slot} (h : HashesApart keccak vars slots)
    (hsub : slots' ⊆ slots) : HashesApart keccak vars slots' where
  apart s hs t ht := h.apart s (hsub hs) t (hsub ht)
  fixed s hs := h.fixed s (hsub hs)

/-- Numbers below 2^256 have different words. -/
theorem bigToHash_inj {m n : Nat} (hm : m < 2 ^ 256) (hn : n < 2 ^ 256)
    (h : bigToHash m = bigToHash n) : m = n := by
  have hbig := congrArg Hash.big h
  rwa [Eth.big_bigToHash, Eth.big_bigToHash, Nat.mod_eq_of_lt hm, Nat.mod_eq_of_lt hn] at hbig

/-- Two texts that end in a hash and are equal end in the same hash. -/
theorem append_hash_inj {a b : Bytes} {x y : Hash} (h : a ++ x.bytes = b ++ y.bytes) :
    a = b ∧ x = y := by
  obtain ⟨ha, hx⟩ := List.append_inj' h (x.length_bytes.trans y.length_bytes.symm)
  exact ⟨ha, Hash.ext_bytes hx⟩

/-- **Declared places are told apart by their addresses.** The induction is on how the first place is
reached. -/
theorem HashesApart.eq_of_address (h : HashesApart keccak vars slots)
    (hvars : vars.length ≤ 2 ^ 256) {s t : Slot} (hs : s.chain ⊆ slots) (ht : t.chain ⊆ slots)
    (hsd : s.Declared vars) (htd : t.Declared vars)
    (he : s.address keccak = t.address keccak) : s = t := by
  have hvar : ∀ {n}, (Slot.var n).Declared vars → n < vars.length :=
    fun ⟨_, hd⟩ => (List.getElem?_eq_some_iff.mp hd).1
  induction s generalizing t with
  | var m =>
    cases t with
    | var n =>
      have hm := hvar hsd
      have hn := hvar htd
      exact congrArg Slot.var (bigToHash_inj (by omega) (by omega) he)
    | elem => exact absurd he.symm (h.fixed _ (ht (Slot.mem_chain_self _)) _ rfl m (hvar hsd))
    | data => exact absurd he.symm (h.fixed _ (ht (Slot.mem_chain_self _)) _ rfl m (hvar hsd))
  | elem p key field ih =>
    have hp : p.chain ⊆ slots := fun u hu => hs (List.mem_cons_of_mem _ hu)
    obtain ⟨fields, hpty⟩ := Slot.declared_elem hsd
    cases t with
    | var n => exact absurd he (h.fixed _ (hs (Slot.mem_chain_self _)) _ rfl n (hvar htd))
    | elem q key' field' =>
      have hq : q.chain ⊆ slots := fun u hu => ht (List.mem_cons_of_mem _ hu)
      obtain ⟨fields', hqty⟩ := Slot.declared_elem htd
      have hpq := h.apart _ (hs (Slot.mem_chain_self _)) _ (ht (Slot.mem_chain_self _)) _ rfl _ rfl he
      obtain ⟨htext, rfl⟩ := Prod.mk.inj hpq
      obtain ⟨rfl, haddress⟩ := append_hash_inj htext
      rw [ih hp hq ⟨_, hpty⟩ ⟨_, hqty⟩ haddress]
    | data q word =>
      have hq : q.chain ⊆ slots := fun u hu => ht (List.mem_cons_of_mem _ hu)
      have hqty := Slot.declared_data htd
      have hpq := h.apart _ (hs (Slot.mem_chain_self _)) _ (ht (Slot.mem_chain_self _)) _ rfl _ rfl he
      obtain ⟨htext, rfl⟩ := Prod.mk.inj hpq
      obtain ⟨rfl, haddress⟩ := append_hash_inj (b := []) htext
      -- the same place would be a mapping and an array
      rw [ih hp hq ⟨_, hpty⟩ ⟨_, hqty⟩ haddress, hqty] at hpty
      cases hpty
  | data p word ih =>
    have hp : p.chain ⊆ slots := fun u hu => hs (List.mem_cons_of_mem _ hu)
    have hpty := Slot.declared_data hsd
    cases t with
    | var n => exact absurd he (h.fixed _ (hs (Slot.mem_chain_self _)) _ rfl n (hvar htd))
    | elem q key field =>
      have hq : q.chain ⊆ slots := fun u hu => ht (List.mem_cons_of_mem _ hu)
      obtain ⟨fields, hqty⟩ := Slot.declared_elem htd
      have hpq := h.apart _ (hs (Slot.mem_chain_self _)) _ (ht (Slot.mem_chain_self _)) _ rfl _ rfl he
      obtain ⟨htext, rfl⟩ := Prod.mk.inj hpq
      obtain ⟨rfl, haddress⟩ := append_hash_inj (a := []) htext
      rw [ih hp hq ⟨_, hpty⟩ ⟨_, hqty⟩ haddress, hqty] at hpty
      cases hpty
    | data q word' =>
      have hq : q.chain ⊆ slots := fun u hu => ht (List.mem_cons_of_mem _ hu)
      have hqty := Slot.declared_data htd
      have hpq := h.apart _ (hs (Slot.mem_chain_self _)) _ (ht (Slot.mem_chain_self _)) _ rfl _ rfl he
      obtain ⟨htext, rfl⟩ := Prod.mk.inj hpq
      rw [ih hp hq ⟨_, hpty⟩ ⟨_, hqty⟩ (Hash.ext_bytes htext)]

end Apart

/-! ## Reading storage -/

/-- The slots that were written, with their words. -/
abbrev Storage := Map Hash Hash

/-- A slot that was never written reads zero. -/
def Storage.load (st : Storage) (slot : Hash) : Hash := st[slot]?.getD .zero

/-- A `uint64` at a byte offset from the low end of a slot. -/
def Storage.loadUint64 (st : Storage) (slot : Hash) (offset : Nat) : UInt64 :=
  Eth.uint64Of ((st.load slot).slice (24 - offset) 8)

/-- A `bool` at a byte offset from the low end of a slot. -/
def Storage.loadBool (st : Storage) (slot : Hash) (offset : Nat) : Bool :=
  (st.load slot).slice (31 - offset) 1 ≠ [0]

/-- A `string`: with the lowest bit of its slot clear, the last byte is twice the length and the text
stands in the slot; otherwise the slot is twice the length and one, and the text runs from the slot's
hash. -/
def Storage.loadString (keccak : Bytes → Hash) (st : Storage) (slot : Hash) : Bytes :=
  let head := st.load slot
  if head.big % 2 = 0 then head.bytes.take (head.big % 256 / 2)
  else
    let length := (head.big - 1) / 2
    ((List.range ((length + 31) / 32)).flatMap fun j =>
      (st.load ((keccak slot.bytes).plus j)).bytes).take length

/-- A `uint64[]`: the length in its slot and four elements to a word from the slot's hash, each word
filled from its low end. -/
def Storage.loadUint64s (keccak : Bytes → Hash) (st : Storage) (slot : Hash) : List UInt64 :=
  (List.range (st.load slot).big).map fun i =>
    st.loadUint64 ((keccak slot.bytes).plus (i / 4)) (8 * (i % 4))

/-- The storage after some words were written to places; zero words are left out. -/
def storageOf (keccak : Bytes → Hash) (cells : List (Slot × Hash)) : Storage :=
  Map.assign (fun c => c.1.address keccak) Prod.snd ∅ (cells.filter (·.2 ≠ .zero))

/-- A place reads the word that was written to it, or zero when none was. -/
theorem load_storageOf {keccak : Bytes → Hash} {cells : List (Slot × Hash)} {t : Slot} {v : Hash}
    (hplace : ∀ c ∈ cells, c.1.address keccak = t.address keccak → c.1 = t)
    (hword : ∀ c ∈ cells, c.1 = t → c.2 = v) (hin : (t, v) ∈ cells ∨ v = .zero) :
    (storageOf keccak cells).load (t.address keccak) = v := by
  have hsame : ∀ c ∈ cells.filter (·.2 ≠ .zero), c.1.address keccak = t.address keccak → c.2 = v :=
    fun c hc he => hword c (List.mem_of_mem_filter hc) (hplace c (List.mem_of_mem_filter hc) he)
  rw [Storage.load, storageOf]
  by_cases hv : v = .zero
  · rw [Map.get?_assign_of_ne, Std.ExtTreeMap.getElem?_empty, Option.getD_none, hv]
    intro c hc he
    have hne : c.2 ≠ .zero := by simpa using (List.mem_filter.mp hc).2
    exact hne ((hsame c hc he).trans hv)
  · have hmem : (t, v) ∈ cells.filter (·.2 ≠ .zero) :=
      List.mem_filter.mpr ⟨hin.resolve_right hv, by simpa using hv⟩
    rw [Map.get?_assign_of_mem (fun c : Slot × Hash => c.1.address keccak) Prod.snd hmem hsame,
      Option.getD_some]

/-! ## Strings -/

section Strings

variable {keccak : Bytes → Hash} {st : Storage} {slot : Hash}

/-- A text that stands in its slot, before twice its length. -/
theorem loadString_short {b : Bytes} (hlength : b.length < 32)
    (h : (st.load slot).bytes = b ++ List.replicate (31 - b.length) 0 ++ [UInt8.ofNat (b.length * 2)]) :
    st.loadString keccak slot = b := by
  have hbyte : (UInt8.ofNat (b.length * 2)).toNat = b.length * 2 := Nat.mod_eq_of_lt (by omega)
  have hbig : (st.load slot).big =
      Eth.beNat (b ++ List.replicate (31 - b.length) 0) * 256 + b.length * 2 := by
    rw [Hash.big, h, Eth.beNat_concat, hbyte]
  have heven : (st.load slot).big % 2 = 0 := by omega
  have hlow : (st.load slot).big % 256 / 2 = b.length := by omega
  simp only [Storage.loadString, heven, if_true, hlow, h, List.append_assoc, List.take_left' rfl]

/-- The words of a text are the text. -/
theorem flatMap_words (l : Bytes) (n : Nat) (h : l.length = 32 * n) :
    ((List.range n).flatMap fun j => (l.drop (32 * j)).take 32) = l := by
  induction n generalizing l with
  | zero => exact (List.eq_nil_of_length_eq_zero h).symm
  | succ n ih =>
    have hrest : (l.drop 32).length = 32 * n := by
      rw [List.length_drop]
      omega
    have hshift : ∀ j, (l.drop (32 * (j + 1))).take 32 = ((l.drop 32).drop (32 * j)).take 32 := by
      intro j
      rw [List.drop_drop, Nat.mul_succ, Nat.add_comm]
    rw [List.range_succ_eq_map, List.flatMap_cons, List.flatMap_map]
    simp only [Nat.succ_eq_add_one, hshift, ih _ hrest, Nat.mul_zero, List.drop_zero,
      List.take_append_drop]

/-- A text whose words run from the hash of its slot. -/
theorem loadString_long {b : Bytes} (hhead : (st.load slot).big = b.length * 2 + 1)
    (hdata : ∀ j < (b.length + 31) / 32, (st.load ((keccak slot.bytes).plus j)).bytes =
      (b.drop (32 * j) ++ List.replicate 32 0).take 32) :
    st.loadString keccak slot = b := by
  have hodd : (st.load slot).big % 2 ≠ 0 := by omega
  have hlen : ((st.load slot).big - 1) / 2 = b.length := by omega
  -- pad the text to whole words
  have hpad : (b ++ List.replicate (32 * ((b.length + 31) / 32) - b.length) 0).length =
      32 * ((b.length + 31) / 32) := by
    rw [List.length_append, List.length_replicate]
    omega
  have hwords : ((List.range ((b.length + 31) / 32)).flatMap fun j =>
      (st.load ((keccak slot.bytes).plus j)).bytes) =
        b ++ List.replicate (32 * ((b.length + 31) / 32) - b.length) 0 := by
    rw [← flatMap_words _ _ hpad]
    refine List.flatMap_congr fun j hj => ?_
    have hj' : j < (b.length + 31) / 32 := List.mem_range.mp hj
    rw [hdata j hj', List.drop_append_of_le_length (by omega)]
    refine List.ext_getElem? fun i => ?_
    simp only [List.getElem?_take, List.getElem?_append, List.getElem?_replicate, List.length_drop]
    split
    · split
      · rfl
      · rw [if_pos (by omega), if_pos (by omega)]
    · rfl
  simp only [Storage.loadString, if_neg hodd, hlen, hwords, List.take_left' rfl]

end Strings

/-! ## Arrays -/

/-- An array whose elements read one by one. -/
theorem loadUint64s_eq {keccak : Bytes → Hash} {st : Storage} {slot : Hash} {list : List UInt64}
    (hlength : (st.load slot).big = list.length)
    (helement : ∀ (i : Nat) (v : UInt64), list[i]? = some v →
      st.loadUint64 ((keccak slot.bytes).plus (i / 4)) (8 * (i % 4)) = v) :
    st.loadUint64s keccak slot = list := by
  rw [Storage.loadUint64s, hlength]
  apply List.ext_getElem
  · rw [List.length_map, List.length_range]
  · intro i hi hi'
    rw [List.getElem_map, List.getElem_range]
    exact helement i list[i] (List.getElem?_eq_getElem hi')

end Solidity
