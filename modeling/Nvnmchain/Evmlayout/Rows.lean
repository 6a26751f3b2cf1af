import Nvnmchain.Evmlayout.Trace
import Nvnmchain.Lib.SolidityRows

/-!
# What the contract holds for a store

The contract's storage as its source declares it, and the content a keeper's store stands for: a row
for each registry, record, counter, lookup, list and role, and the header. A row says where it stands
by names and keys; the slots come from the layout.

Each group of writes of `layout.go` is the cells of its row (`registryWrites_eq`, `recordWrites_eq`,
`idsWrites_eq`), for strings and lists of a length Go allows.
-/

set_option autoImplicit false

namespace Nvnmchain.Evmlayout

open Go (Bytes)
open Eth (Hash bigToHash bytesToHash putUint64)
open Solidity
open Collections

/-- The state variables of the contract, in declaration order. -/
def layout : List Ty :=
  [.mapping [.value],
   .mapping [.mapping [.value]],
   .mapping [.value],
   .value,
   .mapping [.value, .dynamic, .dynamic, .dynamic, .dynamic, .dynamic],
   .mapping [.value],
   .mapping [.mapping [.value]],
   .mapping [.mapping [.mapping
    [.dynamic, .dynamic, .dynamic, .dynamic, .dynamic, .dynamic, .value]]],
   .mapping [.mapping [.value]],
   .mapping [.dynamic],
   .mapping [.dynamic]]

/-! ## Entries -/

/-- A string, as Solidity stores it. -/
def stringEntry (s : Bytes) : Entry :=
  if s.length < 32 then .value (shortString s)
  else ⟨word (UInt64.ofNat (s.length * 2 + 1)),
    (List.range ((s.length + 31) / 32)).map fun j => stringWord s (32 * j)⟩

/-- One round of the loop of `idsWrites`, on the words alone. -/
def putIdWord (words : List Hash) (i : Nat) (id : UInt64) : List Hash :=
  let words := if i % 4 = 0 then words ++ [.zero] else words
  words.modifyLast fun w => w.copyInto (32 - 8 * (i % 4) - 8) (putUint64 id)

/-- The words of a list of ids, four to a word. -/
def idWords (list : List UInt64) : List Hash :=
  list.zipIdx.foldl (fun words e => putIdWord words e.2 e.1) []

/-- A list of ids, as Solidity stores it. -/
def idsEntry (list : List UInt64) : Entry :=
  ⟨word (UInt64.ofNat list.length), idWords list⟩

/-- The entries of a registry. -/
def registryEntries (reg : Registry) : List Entry :=
  [.value (word reg.id), stringEntry reg.name, stringEntry reg.description, stringEntry reg.creator,
   stringEntry reg.createdAt, stringEntry reg.metadata]

/-- The entries of a record. -/
def recordEntries (rec : Record) : List Entry :=
  [stringEntry rec.uri, stringEntry rec.checksum, stringEntry rec.checksumAlgo,
   stringEntry rec.metadata, stringEntry rec.timestamp, stringEntry rec.status,
   .value (packRecord rec.recordId rec.index rec.isLatest rec.registryId)]

/-! ## Rows -/

/-- A state variable. -/
def stateVar (slot : UInt64) : Slot := .var slot.toNat

/-- A mapping inside a mapping, under an integer. -/
def mapAt (parent : Slot) (key : UInt64) : Slot := .elem parent (word key).bytes 0

def registryRow (id : UInt64) (registry : Registry) : Row :=
  ⟨stateVar slotRegistries, (word id).bytes, registryEntries registry⟩

def recordCountRow (id count : UInt64) : Row :=
  ⟨stateVar slotRecordCount, (word id).bytes, [.value (word count)]⟩

def recordRow (key : UInt64 × UInt64 × UInt64) (record : Record) : Row :=
  ⟨mapAt (mapAt (stateVar slotRecords) key.1) key.2.1, (word key.2.2).bytes, recordEntries record⟩

def latestIndexRow (key : UInt64 × UInt64) (index : UInt64) : Row :=
  ⟨mapAt (stateVar slotLatestIndex) key.1, (word key.2).bytes, [.value (word index)]⟩

def recordIDRow (key : UInt64 × Bytes) (recordID : UInt64) : Row :=
  ⟨mapAt (stateVar slotRecordIDByChecksum) key.1, key.2, [.value (word recordID)]⟩

def idsRow (slot : UInt64) (key : Bytes) (list : List UInt64) : Row :=
  ⟨stateVar slot, key, [idsEntry list]⟩

def roleAdminRow (role : Role) (adminRole : Bytes) : Row :=
  ⟨stateVar slotRoleAdmin, role.bytes, [.value (bytesToHash adminRole)]⟩

def roleMemberRow (role : Role) (account : Bytes) : Row :=
  ⟨.elem (stateVar slotRoleMembers) role.bytes 0, (bytesToHash account).bytes, [.value (word 1)]⟩

def roleMemberCountRow (role : Role) (count : UInt64) : Row :=
  ⟨stateVar slotRoleMemberCount, role.bytes, [.value (word count)]⟩

/-- The members of a role, then their count. -/
def roleRows (role : Role) (accounts : List Bytes) : List Row :=
  accounts.map (roleMemberRow role) ++ [roleMemberCountRow role (UInt64.ofNat accounts.length)]

/-- The rows before the header, in the order they are written. -/
def rowsBefore (s : Store) : List Row :=
  s.registries.toList.map (fun e => registryRow e.1 e.2) ++
    (idsByName s.registries.toList ∅).toList.map (fun e => idsRow slotRegistriesByName e.1 e.2) ++
    s.recordsCountByRegistry.toList.map (fun e => recordCountRow e.1 e.2) ++
    s.records.toList.map (fun e => recordRow e.1 e.2) ++
    s.recordIndices.toList.map (fun e => latestIndexRow e.1 e.2) ++
    s.recordIdByRegistryAndChecksum.toList.map (fun e => recordIDRow e.1 e.2)

/-- The rows after the header. -/
def rowsAfter (s : Store) : List Row :=
  (Runs.runs (s.recordIdByChecksumAndRegistry.toList.map Prod.fst)).map
      (fun g => idsRow slotRegistriesByChecksum g.1 g.2) ++
    s.rbac.roleAdmins.toList.map (fun e => roleAdminRow e.1 e.2) ++
    (Runs.runs (s.rbac.roleMembers.toList.map Prod.fst)).flatMap (fun g => roleRows g.1 g.2)

/-- The header's cell. -/
def headerCell (admin : Bytes) (count : UInt64) : Slot × Hash :=
  (stateVar slotHeader, headerWord admin count)

/-- The words a store is migrated to, each with its place. -/
def storeCells (s : Store) (admin : Bytes) (count : UInt64) : List (Slot × Hash) :=
  (rowsBefore s).flatMap Row.cells ++ headerCell admin count :: (rowsAfter s).flatMap Row.cells

/-! ## Writes are cells -/

/-- The write of a cell. -/
def cellWrite (env : Env) (c : Slot × Hash) : Write := ⟨c.1.address env.keccak256, c.2⟩

theorem word_eq (v : UInt64) : word v = bigToHash v.toNat := by
  have hfit : 24 + (putUint64 v).length ≤ 32 := by rw [Eth.length_putUint64]
  have hbytes : (word v).bytes = List.replicate 24 0 ++ putUint64 v := by
    rw [word, Hash.bytes_copyInto hfit, Eth.length_putUint64]
    rfl
  have hbig : (word v).big = v.toNat := by
    rw [Hash.big, hbytes, Eth.beNat, List.foldl_append]
    show Eth.beNat (Eth.beBytes 8 v.toNat) = v.toNat
    rw [Eth.beNat_beBytes]
    exact Nat.mod_eq_of_lt v.toNat_lt
  rw [← hbig, Eth.bigToHash_big]

theorem word_injective : Function.Injective word := by
  intro v w h
  have hbig := congrArg Hash.big h
  have hv := v.toNat_lt
  have hw := w.toNat_lt
  rw [word_eq, word_eq, Eth.big_bigToHash, Eth.big_bigToHash, Nat.mod_eq_of_lt (by omega),
    Nat.mod_eq_of_lt (by omega)] at hbig
  exact UInt64.toNat_inj.mp hbig

section Addresses

variable (env : Env)

/-- A state variable stands at its number. -/
theorem address_stateVar (slot : UInt64) :
    (stateVar slot).address env.keccak256 = word slot := (word_eq slot).symm

/-- An entry of a mapping stands at the hash of its key and the mapping's slot. -/
theorem address_mapAt (parent : Slot) (key : UInt64) :
    (mapAt parent key).address env.keccak256 = mapUint64 env key (parent.address env.keccak256) :=
  Hash.plus_zero _

end Addresses

/-- A numbered list of computed words. -/
theorem zipIdx_map_range {α β : Type} (n : Nat) (f : Nat → α) (g : α × Nat → β) :
    ((List.range n).map f).zipIdx.map g = (List.range n).map fun j => g (f j, j) := by
  refine List.ext_getElem? fun i => ?_
  simp only [List.getElem?_map, List.getElem?_zipIdx, Option.map_map, Nat.zero_add]
  by_cases hi : i < n
  · simp [List.getElem?_range hi]
  · simp [List.getElem?_eq_none (show (List.range n).length ≤ i by simpa using hi)]

/-- The words of a string of a length Go allows are numbered below `2^64`. -/
theorem toNat_wordIndex {n j : Nat} (hn : n < 2 ^ 63) (hj : j ∈ List.range ((n + 31) / 32)) :
    (UInt64.ofNat j).toNat = j := by
  have hlt : j < (n + 31) / 32 := List.mem_range.mp hj
  rw [UInt64.toNat_ofNat', Nat.mod_eq_of_lt (by omega)]

/-- The writes of a string are its cells. -/
theorem stringWrites_eq (env : Env) (p : Slot) {s : Bytes} (hs : s.length < 2 ^ 63) :
    stringWrites env (p.address env.keccak256) s =
      ((stringEntry s).cells p).map (cellWrite env) := by
  unfold stringWrites stringEntry
  split
  · rfl
  · rw [Entry.cells, zipIdx_map_range, List.map_cons, List.map_map]
    refine congrArg₂ List.cons rfl (List.map_congr_left fun j hj => ?_)
    show (⟨(arrayData env (p.address env.keccak256)).plus (UInt64.ofNat j).toNat, _⟩ : Write) = _
    rw [toNat_wordIndex hs hj]
    rfl

/-- The strings of a registry. -/
def registryTexts (reg : Registry) : List Bytes :=
  [reg.name, reg.description, reg.creator, reg.createdAt, reg.metadata]

/-- The strings of a record. -/
def recordTexts (rec : Record) : List Bytes :=
  [rec.uri, rec.checksum, rec.checksumAlgo, rec.metadata, rec.timestamp, rec.status]

/-- Strings of a length Go allows. -/
def Sized (texts : List Bytes) : Prop := ∀ t ∈ texts, t.length < 2 ^ 63

/-- The writes of a registry are the cells of its row. -/
theorem registryWrites_eq (env : Env) (id : UInt64) {reg : Registry} (h : Sized (registryTexts reg)) :
    registryWrites env (registryBase env id) reg = (registryRow id reg).cells.map (cellWrite env) := by
  have hslot : ∀ f : UInt64, slotAt (registryBase env id) f =
      (Slot.elem (stateVar slotRegistries) (word id).bytes f.toNat).address env.keccak256 := by
    intro f
    rw [Slot.address, address_stateVar]
    rfl
  simp only [Sized, registryTexts, List.forall_mem_cons] at h
  obtain ⟨h1, h2, h3, h4, h5, -⟩ := h
  rw [registryWrites, hslot, hslot, hslot, hslot, hslot, hslot, stringWrites_eq env _ h1,
    stringWrites_eq env _ h2, stringWrites_eq env _ h3, stringWrites_eq env _ h4,
    stringWrites_eq env _ h5]
  simp only [Row.cells, registryRow, registryEntries, List.zipIdx_cons, List.zipIdx_nil,
    List.flatMap_cons, List.flatMap_nil, List.append_nil, List.map_append, List.append_assoc]
  rfl

/-- The writes of a record are the cells of its row. -/
theorem recordWrites_eq (env : Env) (key : UInt64 × UInt64 × UInt64) {rec : Record}
    (h : Sized (recordTexts rec)) :
    recordWrites env (recordBase env key.1 key.2.1 key.2.2) rec =
      (recordRow key rec).cells.map (cellWrite env) := by
  have hslot : ∀ f : UInt64, slotAt (recordBase env key.1 key.2.1 key.2.2) f =
      (Slot.elem (mapAt (mapAt (stateVar slotRecords) key.1) key.2.1) (word key.2.2).bytes
        f.toNat).address env.keccak256 := by
    intro f
    rw [Slot.address, address_mapAt, address_mapAt, address_stateVar]
    rfl
  simp only [Sized, recordTexts, List.forall_mem_cons] at h
  obtain ⟨h1, h2, h3, h4, h5, h6, -⟩ := h
  rw [recordWrites, hslot, hslot, hslot, hslot, hslot, hslot, hslot, stringWrites_eq env _ h1,
    stringWrites_eq env _ h2, stringWrites_eq env _ h3, stringWrites_eq env _ h4,
    stringWrites_eq env _ h5, stringWrites_eq env _ h6]
  simp only [Row.cells, recordRow, recordEntries, List.zipIdx_cons, List.zipIdx_nil,
    List.flatMap_cons, List.flatMap_nil, List.append_nil, List.map_append, List.append_assoc]
  rfl

/-- A row of one word is one write. -/
theorem cells_value (parent : Slot) (key : Bytes) (h : Hash) :
    (Row.mk parent key [.value h]).cells = [(.elem parent key 0, h)] := rfl

/-- The write of a value is the one cell of its row. -/
theorem writes_value (env : Env) (parent : Slot) (key : Bytes) (h : Hash) :
    (Row.mk parent key [.value h]).cells.map (cellWrite env) =
      [⟨env.keccak256 (key ++ (parent.address env.keccak256).bytes), h⟩] := by
  rw [cells_value, List.map_singleton, cellWrite, Slot.address, Hash.plus_zero]

/-! ## Lists of ids -/

/-- One round puts its id into the last word: a new one for every fourth id, and the one the round
before has put into otherwise. -/
theorem putIdWord_eq {words : List Hash} {i : Nat} (id : UInt64) (h : words.length = (i + 3) / 4) :
    ∃ (full : List Hash) (last : Hash), full.length = i / 4 ∧
      putIdWord words i id = full ++ [last.copyInto (32 - 8 * (i % 4) - 8) (putUint64 id)] ∧
      words = if i % 4 = 0 then full else full ++ [last] := by
  unfold putIdWord
  split
  · exact ⟨words, .zero, by omega, List.modifyLast_concat .., rfl⟩
  · rcases List.eq_nil_or_concat words with rfl | ⟨full, last, rfl⟩
    · rw [List.length_nil] at h
      omega
    · rw [List.concat_eq_append] at h ⊢
      rw [List.length_append, List.length_singleton] at h
      exact ⟨full, last, by omega, List.modifyLast_concat .., rfl⟩

/-- After some ids, a word has been opened for every four. -/
theorem length_putIdWord {words : List Hash} {i : Nat} (id : UInt64)
    (h : words.length = (i + 3) / 4) : (putIdWord words i id).length = (i + 1 + 3) / 4 := by
  obtain ⟨full, last, hfull, hput, -⟩ := putIdWord_eq id h
  rw [hput, List.length_append, hfull, List.length_singleton]
  omega

/-- One more id goes to the last word, or to a new one. -/
theorem idWords_concat (list : List UInt64) (id : UInt64) :
    idWords (list ++ [id]) = putIdWord (idWords list) list.length id := by
  rw [idWords, List.zipIdx_append, List.foldl_append, List.zipIdx_singleton, Nat.zero_add]
  rfl

/-- Four ids share a word. -/
theorem length_idWords (list : List UInt64) : (idWords list).length = (list.length + 3) / 4 := by
  induction list using List.reverseRecOn with
  | nil => rfl
  | append_singleton list id ih =>
    rw [idWords_concat, length_putIdWord id ih, List.length_append, List.length_singleton]

/-- The writes of the words of a list. -/
def wordWrites (data : Hash) (words : List Hash) : List Write :=
  words.zipIdx.map fun e => ⟨slotAt data (UInt64.ofNat e.2), e.1⟩

/-- One more word goes to the next slot. -/
theorem wordWrites_concat (data : Hash) (words : List Hash) (w : Hash) :
    wordWrites data (words ++ [w]) =
      wordWrites data words ++ [⟨slotAt data (UInt64.ofNat words.length), w⟩] := by
  rw [wordWrites, List.zipIdx_append, List.map_append]
  simp only [List.zipIdx_singleton, List.map_singleton, Nat.zero_add]
  rfl

/-- One round of the loop opens and fills the same words. -/
theorem putId_eq (data : Hash) (first : Write) {words : List Hash} {i : Nat} (id : UInt64)
    (h : words.length = (i + 3) / 4) :
    putId data (first :: wordWrites data words) i id =
      first :: wordWrites data (putIdWord words i id) := by
  have hlast : ∀ (words : List Hash) (f : Hash → Hash), words ≠ [] →
      (first :: wordWrites data words).modifyLast (fun w => { w with value := f w.value }) =
        first :: wordWrites data (words.modifyLast f) := by
    intro words f hne
    rcases List.eq_nil_or_concat words with rfl | ⟨init, w, rfl⟩
    · exact absurd rfl hne
    · rw [List.concat_eq_append, wordWrites_concat, List.modifyLast_concat, wordWrites_concat,
        ← List.cons_append, List.modifyLast_concat, List.cons_append]
  rw [putId, putIdWord]
  split
  · rename_i h4
    have hlen : words.length = i / 4 := by omega
    rw [← hlen, List.cons_append, ← wordWrites_concat]
    exact hlast (words ++ [.zero]) (fun w => w.copyInto (32 - 8 * (i % 4) - 8) (putUint64 id))
      (by simp)
  · have hne : words ≠ [] := by
      rintro rfl
      rw [List.length_nil] at h
      omega
    exact hlast words (fun w => w.copyInto (32 - 8 * (i % 4) - 8) (putUint64 id)) hne

/-- The writes of a list of ids are its length and its packed words. -/
theorem idsWrites_eq_words (env : Env) (table : Hash) (key : Bytes) (list : List UInt64) :
    idsWrites env table key list =
      ⟨mapString env key table, word (UInt64.ofNat list.length)⟩ ::
        wordWrites (arrayData env (mapString env key table)) (idWords list) := by
  have hfold : ∀ (first : Write) (data : Hash) (l : List UInt64),
      l.zipIdx.foldl (fun writes e => putId data writes e.2 e.1) [first] =
        first :: wordWrites data (idWords l) := by
    intro first data l
    induction l using List.reverseRecOn with
    | nil => rfl
    | append_singleton l id ih =>
      rw [List.zipIdx_append, List.foldl_append, ih, List.zipIdx_singleton, Nat.zero_add,
        idWords_concat, ← putId_eq data first id (length_idWords l)]
      rfl
  exact hfold _ _ list

/-- The writes of a list of ids are the cells of its entry, wherever the mapping is. -/
theorem idsWrites_eq_cells (env : Env) {p : Slot} {table : Hash} {key : Bytes} {list : List UInt64}
    (hp : p.address env.keccak256 = mapString env key table) (h : list.length ≤ 2 ^ 64) :
    idsWrites env table key list = ((idsEntry list).cells p).map (cellWrite env) := by
  rw [idsWrites_eq_words, Entry.cells, List.map_cons, List.map_map, cellWrite, hp]
  refine congrArg₂ List.cons rfl (List.map_congr_left fun e he => ?_)
  have hlt := (List.getElem?_eq_some_iff.mp (List.mem_zipIdx_iff_getElem?.mp he)).1
  have hlen := length_idWords list
  have hindex : (UInt64.ofNat e.2).toNat = e.2 := by
    rw [UInt64.toNat_ofNat', Nat.mod_eq_of_lt (by omega)]
  rw [Function.comp_apply, cellWrite, Slot.address, hp, slotAt, hindex]
  rfl

/-- The writes of a list of ids are the cells of its row. -/
theorem idsWrites_eq (env : Env) (slot : UInt64) (key : Bytes) {list : List UInt64}
    (h : list.length ≤ 2 ^ 64) :
    idsWrites env (word slot) key list = (idsRow slot key list).cells.map (cellWrite env) := by
  have hhead : (Slot.elem (stateVar slot) key 0).address env.keccak256 =
      mapString env key (word slot) := by
    rw [Slot.address, address_stateVar]
    exact Hash.plus_zero _
  have hcells : (idsRow slot key list).cells =
      (idsEntry list).cells (.elem (stateVar slot) key 0) := List.append_nil _
  rw [idsWrites_eq_cells env hhead h, hcells]

end Nvnmchain.Evmlayout
