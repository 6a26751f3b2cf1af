import Nvnmchain.Evmlayout.Contents
import Nvnmchain.Evmlayout.Reader

/-!
# What is written reads back

The two encodings of `layout.go`, each on its own: `stringWrites` and `idsWrites` go through the sink
that drops zero words into storage that is all zero, and Solidity's reader gets the string or the list
back. Both hold for any slot whose data, at the slot's hash, does not run over it.

Two facts carry both. The writes are the cells of one entry, so an entry that keeps apart from its own
slot is shown (`written_entry`), and a shown entry reads as what it encodes. The lengths are those Go
allows, where `len` is an `int`.
-/

set_option autoImplicit false

namespace Nvnmchain.Evmlayout

open Go (Bytes)
open Eth (Hash putUint64)
open Solidity

/-- The writes of an entry take different slots, and the storage they leave shows the entry. -/
theorem written_entry {env : Env} {p : Slot} {x : Entry} {writes : List Write}
    (hwrites : writes = (x.cells p).map (cellWrite env)) (hapart : x.Apart env.keccak256 p)
    (hfew : x.words.length ≤ 2 ^ 256) :
    (writes.map Write.slot).Nodup ∧
      ∃ handed, emitAll (skipZero collect) [] writes = .ok handed ∧
        Shows env.keccak256 (written handed) p x := by
  subst hwrites
  constructor
  · rw [List.map_map]
    exact hapart.nodup_addresses hfew
  · refine ⟨_, emitAll_collect [] _, ?_⟩
    rw [List.nil_append, written_kept]
    exact hapart.shows hfew

/-- Any slot is the address of a place. -/
theorem address_var_big (env : Env) (slot : Hash) :
    (Slot.var slot.big).address env.keccak256 = slot := Eth.bigToHash_big slot

/-- Data words that miss the slot of their length word, in terms of the layout. -/
theorem apart_var_big {env : Env} {slot : Hash} {x : Entry}
    (h : ∀ j < x.words.length, (arrayData env slot).plus j ≠ slot) :
    x.Apart env.keccak256 (.var slot.big) := by
  intro j hj
  have hdata : (Slot.data (.var slot.big) j).address env.keccak256 = (arrayData env slot).plus j := by
    rw [Slot.address, address_var_big]
    rfl
  rw [hdata, address_var_big]
  exact h j hj

/-! ## Strings -/

/-- A short string has no data words. -/
theorem length_words_stringEntry (s : Bytes) :
    (stringEntry s).words.length = if s.length < 32 then 0 else (s.length + 31) / 32 := by
  unfold stringEntry
  split
  · rfl
  · rw [List.length_map, List.length_range]

/-- **A string reads back**, from slots that are written once. -/
theorem stringWrites_read_back (env : Env) (base : Hash) (s : Bytes) (hlength : s.length < 2 ^ 63)
    (hbase : 32 ≤ s.length → ∀ j < (s.length + 31) / 32, (arrayData env base).plus j ≠ base) :
    ((stringWrites env base s).map Write.slot).Nodup ∧
      ∃ handed, emitAll (skipZero collect) [] (stringWrites env base s) = .ok handed ∧
        (written handed).loadString env.keccak256 base = s := by
  have hwrites := stringWrites_eq env (.var base.big) hlength
  have hwords := length_words_stringEntry s
  have hapart : (stringEntry s).Apart env.keccak256 (.var base.big) := by
    refine apart_var_big fun j hj => ?_
    split at hwords
    · omega
    · exact hbase (by omega) j (by omega)
  have hfew : (stringEntry s).words.length ≤ 2 ^ 256 := by
    split at hwords <;> omega
  rw [address_var_big] at hwrites
  obtain ⟨hnodup, handed, hemit, hshows⟩ := written_entry hwrites hapart hfew
  have hread := readString_eq hshows hlength
  rw [readString, address_var_big] at hread
  exact ⟨hnodup, handed, hemit, hread⟩

/-- A string whose first word is zero, so that the word is dropped, and whose last word is cut. -/
theorem stringWrites_read_back_zeros :
    ((stringWrites cubeEnv (word 7) (List.replicate 40 0 ++ List.replicate 30 255)).map
        Write.slot).Nodup ∧
      ∃ handed, emitAll (skipZero collect) []
          (stringWrites cubeEnv (word 7) (List.replicate 40 0 ++ List.replicate 30 255)) = .ok handed ∧
        (written handed).loadString cubeEnv.keccak256 (word 7) =
          List.replicate 40 0 ++ List.replicate 30 255 :=
  stringWrites_read_back cubeEnv (word 7) _ (by decide +kernel) (by decide +kernel)

/-! ## Lists of ids -/

/-- The slots of a list: the length's, then the data words one after the other. -/
theorem slots_idsWrites (env : Env) (table : Hash) (key : Bytes) {list : List UInt64}
    (h : list.length ≤ 2 ^ 64) :
    (idsWrites env table key list).map Write.slot =
      mapString env key table ::
        (List.range ((list.length + 3) / 4)).map (arrayData env (mapString env key table)).plus := by
  rw [idsWrites_eq_words, List.map_cons, wordWrites, List.map_map]
  refine congrArg (List.cons _) ?_
  apply List.ext_getElem
  · rw [List.length_map, List.length_zipIdx, length_idWords, List.length_map, List.length_range]
  · intro j hj _
    rw [List.length_map, List.length_zipIdx, length_idWords] at hj
    have hindex : (UInt64.ofNat j).toNat = j := by
      rw [UInt64.toNat_ofNat', Nat.mod_eq_of_lt (by omega)]
    simp only [List.getElem_map, List.getElem_zipIdx, List.getElem_range, Function.comp_apply,
      Nat.zero_add, slotAt, hindex]
    rfl

/-- Each element's bytes stand in the write of its word. -/
theorem idsWrites_element (env : Env) (table : Hash) (key : Bytes) {list : List UInt64} {i : Nat}
    {id : UInt64} (h : list[i]? = some id) :
    ∃ w, (idsWrites env table key list)[i / 4 + 1]? = some w ∧
      w.value.slice (24 - 8 * (i % 4)) 8 = putUint64 id := by
  have hi : i < list.length := (List.getElem?_eq_some_iff.mp h).1
  have hword : i / 4 < (idWords list).length := by
    rw [length_idWords]
    omega
  have hbytes := idBytes_idWords h
  rw [idBytes, List.getElem?_eq_getElem hword, Option.getD_some] at hbytes
  rw [idsWrites_eq_words, List.getElem?_cons_succ, wordWrites, List.getElem?_map,
    List.getElem?_zipIdx, List.getElem?_eq_getElem hword]
  exact ⟨_, rfl, hbytes⟩

/-- **A list of ids reads back**, four ids to a word: the length is written, then a word for every
four ids at consecutive slots, each once, and each id keeps its bytes. -/
theorem idsWrites_read_back (env : Env) (table : Hash) (key : Bytes) (list : List UInt64)
    (hlength : list.length < 2 ^ 64)
    (hslot : ∀ j < (list.length + 3) / 4,
      (arrayData env (mapString env key table)).plus j ≠ mapString env key table) :
    (∃ handed, emitAll (skipZero collect) [] (idsWrites env table key list) = .ok handed ∧
        (written handed).loadUint64s env.keccak256 (mapString env key table) = list) ∧
      (idsWrites env table key list).map Write.slot =
        mapString env key table ::
          (List.range ((list.length + 3) / 4)).map (arrayData env (mapString env key table)).plus ∧
      ((idsWrites env table key list).map Write.slot).Nodup ∧
      ∀ (i : Nat) (id : UInt64), list[i]? = some id →
        ∃ w, (idsWrites env table key list)[i / 4 + 1]? = some w ∧
          w.value.slice (24 - 8 * (i % 4)) 8 = putUint64 id := by
  have haddress := address_var_big env (mapString env key table)
  have hwords : (idsEntry list).words.length = (list.length + 3) / 4 := length_idWords list
  have hapart : (idsEntry list).Apart env.keccak256 (.var (mapString env key table).big) :=
    apart_var_big fun j hj => hslot j (by omega)
  obtain ⟨hnodup, handed, hemit, hshows⟩ :=
    written_entry (idsWrites_eq_cells env haddress (by omega)) hapart (by omega)
  have hread := readUint64s_eq hshows hlength
  rw [readUint64s, haddress] at hread
  exact ⟨⟨handed, hemit, hread⟩, slots_idsWrites env table key (by omega), hnodup,
    fun _ _ h => idsWrites_element env table key h⟩

/-- Five ids, the smallest and the largest among them, in two words. -/
theorem idsWrites_read_back_five :
    (∃ handed, emitAll (skipZero collect) []
          (idsWrites cubeEnv (word slotRegistriesByName) [110] [0, 18446744073709551615, 5, 0, 9]) =
            .ok handed ∧
        (written handed).loadUint64s cubeEnv.keccak256
          (mapString cubeEnv [110] (word slotRegistriesByName)) =
            [0, 18446744073709551615, 5, 0, 9]) :=
  (idsWrites_read_back cubeEnv (word slotRegistriesByName) [110] _ (by decide) (by decide +kernel)).1

end Nvnmchain.Evmlayout
