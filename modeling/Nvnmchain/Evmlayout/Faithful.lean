import Nvnmchain.Anchoring.StoreInv
import Nvnmchain.Evmlayout.Contents
import Nvnmchain.Evmlayout.Reader

/-!
# The migration is faithful

Reading the migrated slots as the contract's storage gives back the record store. For any ids and any
checksum, stored or not, the contract reads what the keeper holds, and zero or nothing where it holds
none.

The assumption on the hash is about the slots in play: those that were written and those that are
read. An element of the record store has at most one row at its place, so the storage shows that row,
or nothing (`shows_element`).
-/

set_option autoImplicit false

namespace Nvnmchain.Evmlayout

open Go (Bytes str)
open Eth (Hash)
open Solidity
open Collections

/-! ## The row of an element -/

theorem eq_of_word {v w : UInt64} (h : (word v).bytes = (word w).bytes) : v = w :=
  word_injective (Hash.ext_bytes h)

section Places

variable {s : Store} {row : Row}

/-- The row at a registry's place is the registry's. -/
theorem registry_of_place {r : UInt64} (h : StoreRow s row)
    (hplace : row.place = (stateVar slotRegistries, (word r).bytes)) :
    s.registries[r]?.map (registryRow r) = some row := by
  have hkind := h.kind
  have hroot : row.parent.root = 4 := congrArg (fun p => p.1.root) hplace
  rw [RowKind, hroot] at hkind
  obtain ⟨r', registry, hget, rfl⟩ := hkind
  cases eq_of_word (Prod.mk.inj hplace).2
  rw [hget, Option.map_some]

/-- The row at a record count's place is the registry's. -/
theorem recordCount_of_place {r : UInt64} (h : StoreRow s row)
    (hplace : row.place = (stateVar slotRecordCount, (word r).bytes)) :
    s.recordsCountByRegistry[r]?.map (recordCountRow r) = some row := by
  have hkind := h.kind
  have hroot : row.parent.root = 5 := congrArg (fun p => p.1.root) hplace
  rw [RowKind, hroot] at hkind
  obtain ⟨r', n, hget, rfl⟩ := hkind
  cases eq_of_word (Prod.mk.inj hplace).2
  rw [hget, Option.map_some]

/-- The row at a latest index's place is the record's. -/
theorem latestIndex_of_place {r k : UInt64} (h : StoreRow s row)
    (hplace : row.place = (mapAt (stateVar slotLatestIndex) r, (word k).bytes)) :
    s.recordIndices[(r, k)]?.map (latestIndexRow (r, k)) = some row := by
  have hkind := h.kind
  have hroot : row.parent.root = 6 := congrArg (fun p => p.1.root) hplace
  rw [RowKind, hroot] at hkind
  obtain ⟨r', k', n, hget, rfl⟩ := hkind
  obtain ⟨hparent, hkey⟩ := Prod.mk.inj hplace
  cases eq_of_word (Slot.elem.inj hparent).2.1
  cases eq_of_word hkey
  rw [hget, Option.map_some]

/-- The row at a version's place is the version's. -/
theorem record_of_place {r k i : UInt64} (h : StoreRow s row)
    (hplace : row.place = (mapAt (mapAt (stateVar slotRecords) r) k, (word i).bytes)) :
    s.records[(r, k, i)]?.map (recordRow (r, k, i)) = some row := by
  have hkind := h.kind
  have hroot : row.parent.root = 7 := congrArg (fun p => p.1.root) hplace
  rw [RowKind, hroot] at hkind
  obtain ⟨r', k', i', record, hget, rfl⟩ := hkind
  obtain ⟨hparent, hkey⟩ := Prod.mk.inj hplace
  obtain ⟨hmap, hk, -⟩ := Slot.elem.inj hparent
  cases eq_of_word (Slot.elem.inj hmap).2.1
  cases eq_of_word hk
  cases eq_of_word hkey
  rw [hget, Option.map_some]

/-- The row at a checksum's place is the checksum's. -/
theorem recordID_of_place {r : UInt64} {c : Bytes} (h : StoreRow s row)
    (hplace : row.place = (mapAt (stateVar slotRecordIDByChecksum) r, c)) :
    s.recordIdByRegistryAndChecksum[(r, c)]?.map (recordIDRow (r, c)) = some row := by
  have hkind := h.kind
  have hroot : row.parent.root = 8 := congrArg (fun p => p.1.root) hplace
  rw [RowKind, hroot] at hkind
  obtain ⟨r', c', k, hget, rfl⟩ := hkind
  obtain ⟨hparent, rfl⟩ := Prod.mk.inj hplace
  cases eq_of_word (Slot.elem.inj hparent).2.1
  exact congrArg (Option.map _) hget

end Places

/-! ## What storage shows of an element -/

section Shown

variable {keccak : Bytes → Hash} {s : Store} {admin : Bytes} {count : UInt64} {slots : List Slot}

/-- **The storage shows the row of an element, or nothing.** The element is the one of a collection
under a key, and a zero value where the collection has none. -/
theorem shows_element (hplaced : Placed keccak layout (storeCells s admin count) slots)
    {κ ν : Type} [Ord κ] [Std.TransOrd κ] [Std.LawfulEqOrd κ] {m : Map κ ν} {k : κ}
    (row : κ → ν → Row) (hrows : m.toList.map (fun e => row e.1 e.2) ⊆ storeRows s)
    {p : Slot} {key : Bytes} {entries : ν → List Entry} (hrow : ∀ v, row k v = ⟨p, key, entries v⟩)
    (honly : ∀ row', StoreRow s row' → row'.place = (p, key) → m[k]?.map (row k) = some row')
    {fields : List Ty} (hparent : p.ty layout = some (.mapping fields)) (zero : ν)
    (hzero : entries zero = List.replicate fields.length .empty)
    (hread : ∀ f < fields.length, (Slot.elem p key f).chain ⊆ slots)
    {f : Nat} {x : Entry} (hx : (entries (m[k]?.getD zero))[f]? = some x) :
    Shows keccak (storageOf keccak (storeCells s admin count)) (.elem p key f) x := by
  have hcell : ∀ c ∈ storeCells s admin count, c.1.owner = some (p, key) →
      ∃ v, m[k]? = some v ∧ c ∈ (row k v).cells := by
    intro c hc howner
    rcases mem_storeCells.mp hc with rfl | ⟨row', hrow', hcrow⟩
    · cases howner
    · rw [Row.owner_of_mem hcrow] at howner
      obtain ⟨v, hv, rfl⟩ := Option.map_eq_some_iff.mp
        (honly row' (storeRow_of_mem hrow') (Option.some.inj howner))
      exact ⟨v, hv, hcrow⟩
  cases hget : m[k]? with
  | none =>
    rw [hget, Option.getD_none, hzero] at hx
    have hf : f < fields.length := by simpa using (List.getElem?_eq_some_iff.mp hx).1
    cases List.eq_of_mem_replicate (List.mem_of_getElem? hx)
    have hdeclared : (Slot.elem p key f).Declared layout := by
      refine ⟨fields[f], ?_⟩
      rw [Slot.ty, hparent]
      exact List.getElem?_eq_getElem hf
    refine hplaced.shows_empty (hread f hf) hdeclared fun c hc howner => ?_
    obtain ⟨v, hv, -⟩ := hcell c hc howner
    cases hget.symm.trans hv
  | some v =>
    rw [hget, Option.getD_some] at hx
    have hmem : Row.mk p key (entries v) ∈ storeRows s := hrow v ▸ hrows (List.mem_map.mpr
      ⟨(k, v), Std.ExtTreeMap.mem_toList_iff_getElem?_eq_some.mpr hget, rfl⟩)
    have hcells : (Row.mk p key (entries v)).cells ⊆ storeCells s admin count :=
      fun c hc => mem_storeCells.mpr (.inr ⟨_, hmem, hc⟩)
    refine hplaced.shows_row hcells (fun c hc howner => ?_) hx
    obtain ⟨v', hv', hcrow⟩ := hcell c hc howner
    cases hget.symm.trans hv'
    rwa [hrow v] at hcrow

end Shown

/-! ## Reading the record store -/

/-- `types.Registry{}`. -/
def zeroRegistry : Registry := ⟨0, [], [], [], [], []⟩

/-- `types.Record{}`. -/
def zeroRecord : Record := ⟨[], [], [], [], [], [], 0, 0, false, 0⟩

theorem sized_zeroRegistry : Sized (registryTexts zeroRegistry) := by
  simp [Sized, registryTexts, zeroRegistry]

theorem sized_zeroRecord : Sized (recordTexts zeroRecord) := by
  simp [Sized, recordTexts, zeroRecord]

theorem stringEntry_nil : stringEntry [] = .empty := by
  have hzero : shortString [] = .zero := by decide
  exact congrArg Entry.value hzero

theorem value_word_zero : Entry.value (word 0) = .empty := congrArg Entry.value (by decide)

/-- A registry that is not stored reads as empty words. -/
theorem registryEntries_zero : registryEntries zeroRegistry = List.replicate 6 .empty := by
  simp only [registryEntries, zeroRegistry, stringEntry_nil, value_word_zero]
  rfl

/-- A record that is not stored reads as empty words. -/
theorem recordEntries_zero : recordEntries zeroRecord = List.replicate 7 .empty := by
  have hpacked : Entry.value (packRecord 0 0 false 0) = .empty :=
    congrArg Entry.value (by decide)
  simp only [recordEntries, zeroRecord, stringEntry_nil, hpacked]
  rfl

section Reads

variable {keccak : Bytes → Hash} {s : Store} {admin : Bytes} {count : UInt64} {slots : List Slot}

/-- The contract reads the registry the keeper holds, or nothing. -/
theorem readRegistry_storeCells (hplaced : Placed keccak layout (storeCells s admin count) slots)
    (hsized : ∀ e ∈ s.registries.toList, Sized (registryTexts e.2)) {r : UInt64}
    (hread : ∀ f < 6, (registrySlot r f).chain ⊆ slots) :
    readRegistry keccak (storageOf keccak (storeCells s admin count)) r =
      s.registries[r]?.getD zeroRegistry := by
  refine readRegistry_eq ?_ fun f x hx => ?_
  · cases hget : s.registries[r]? with
    | none => exact sized_zeroRegistry
    | some registry =>
      exact hsized (r, registry) (Std.ExtTreeMap.mem_toList_iff_getElem?_eq_some.mpr hget)
  · refine shows_element hplaced registryRow (fun row hrow => ?_) (fun _ => rfl)
      (fun _ h hplace => registry_of_place h hplace) rfl zeroRegistry registryEntries_zero hread
      hx
    simp only [storeRows, rowsBefore, List.mem_append, hrow, true_or]

/-- The contract reads the version the keeper holds, or nothing. -/
theorem readRecord_storeCells (hplaced : Placed keccak layout (storeCells s admin count) slots)
    (hsized : ∀ e ∈ s.records.toList, Sized (recordTexts e.2)) {r k i : UInt64}
    (hread : ∀ f < 7, (recordSlot r k i f).chain ⊆ slots) :
    readRecord keccak (storageOf keccak (storeCells s admin count)) r k i =
      s.records[(r, k, i)]?.getD zeroRecord := by
  refine readRecord_eq ?_ fun f x hx => ?_
  · cases hget : s.records[(r, k, i)]? with
    | none => exact sized_zeroRecord
    | some record =>
      exact hsized ((r, k, i), record) (Std.ExtTreeMap.mem_toList_iff_getElem?_eq_some.mpr hget)
  · refine shows_element hplaced recordRow (fun row hrow => ?_) (fun _ => rfl)
      (fun _ h hplace => record_of_place h hplace) rfl zeroRecord recordEntries_zero hread hx
    simp only [storeRows, rowsBefore, List.mem_append, hrow, true_or, or_true]

/-- A mapping to integers reads as the collection it was filled from. -/
theorem readUint64_storeCells (hplaced : Placed keccak layout (storeCells s admin count) slots)
    {κ : Type} [Ord κ] [Std.TransOrd κ] [Std.LawfulEqOrd κ] {m : Map κ UInt64} {k : κ}
    (row : κ → UInt64 → Row) (hrows : m.toList.map (fun e => row e.1 e.2) ⊆ storeRows s)
    {p : Slot} {key : Bytes} (hrow : ∀ v, row k v = ⟨p, key, [.value (word v)]⟩)
    (honly : ∀ row', StoreRow s row' → row'.place = (p, key) → m[k]?.map (row k) = some row')
    (hparent : p.ty layout = some (.mapping [.value])) (hread : (Slot.elem p key 0).chain ⊆ slots) :
    readUint64 keccak (storageOf keccak (storeCells s admin count)) (.elem p key 0) 0 =
      m[k]?.getD 0 := by
  refine readUint64_eq (shows_element hplaced row hrows hrow honly hparent 0 ?_ ?_ ?_)
  · rw [value_word_zero]
    rfl
  · intro f hf
    cases Nat.lt_one_iff.mp hf
    exact hread
  · rfl

/-- The contract reads the registry count from the header. -/
theorem readRegistryCount_storeCells (hplaced : Placed keccak layout (storeCells s admin count) slots) :
    readRegistryCount keccak (storageOf keccak (storeCells s admin count)) = count := by
  have hheader : headerCell admin count ∈ storeCells s admin count := mem_storeCells.mpr (.inl rfl)
  refine readRegistryCount_eq (hplaced.load (hplaced.chains _ hheader) (hplaced.declared _ hheader)
    (fun c hc he => ?_) (.inl hheader))
  rcases mem_storeCells.mp hc with rfl | ⟨row, -, hc⟩
  · rfl
  · have howner := Row.owner_of_mem hc
    rw [he] at howner
    cases howner

end Reads

/-! ## Faithfulness -/

/-- The slots that are read for some ids and a checksum. -/
def slotsRead (r k i : UInt64) (c : Bytes) : List Slot :=
  (List.range 6).map (registrySlot r) ++ (List.range 7).map (recordSlot r k i) ++
    [recordCountSlot r, latestIndexSlot r k, recordIDSlot r c]

/-- The slots in play when a migrated store is read. -/
def slotsUsed (s : Store) (r k i : UInt64) (c : Bytes) : List Slot :=
  (storeSlots s ++ slotsRead r k i c).flatMap Slot.chain

/-- **The migration of the record store is faithful.** -/
theorem migration_faithful {env : Env} {s : Store} (h : Reachable env Set.univ s) :
    ∃ writes, migrate env s collect [] = .ok writes ∧
      ∀ (r k i : UInt64) (c : Bytes), HashesApart env.keccak256 layout (slotsUsed s r k i c) →
        readRegistry env.keccak256 (written writes) r = s.registries[r]?.getD zeroRegistry ∧
        readRecord env.keccak256 (written writes) r k i = s.records[(r, k, i)]?.getD zeroRecord ∧
        readUint64 env.keccak256 (written writes) (recordCountSlot r) 0 =
          s.recordsCountByRegistry[r]?.getD 0 ∧
        readUint64 env.keccak256 (written writes) (latestIndexSlot r k) 0 =
          s.recordIndices[(r, k)]?.getD 0 ∧
        readUint64 env.keccak256 (written writes) (recordIDSlot r c) 0 =
          s.recordIdByRegistryAndChecksum[(r, c)]?.getD 0 ∧
        some (readRegistryCount env.keccak256 (written writes)) = s.registryCount := by
  obtain ⟨count, hcount, hdense⟩ := h.storeInv.registries
  obtain ⟨admin, hm⟩ := migratable_of_storedInv h.any.storedInv ⟨hcount, hdense⟩
  refine ⟨_, migrate_collect hm, fun r k i c hapart => ?_⟩
  have hplaced : Placed env.keccak256 layout (storeCells s admin count) (slotsUsed s r k i c) := by
    refine placed_storeCells hapart (fun t ht => ?_) admin count
    rw [slotsUsed, List.flatMap_append]
    exact List.mem_append_left _ ht
  have hread : ∀ t ∈ slotsRead r k i c, t.chain ⊆ slotsUsed s r k i c :=
    fun t ht u hu => List.mem_flatMap.mpr ⟨t, List.mem_append_right _ ht, hu⟩
  rw [written_kept]
  refine ⟨?_, ?_, ?_, ?_, ?_, ?_⟩
  · exact readRegistry_storeCells hplaced hm.registryTexts fun f hf => hread _ (by
      simp only [slotsRead, List.mem_append, List.mem_map_of_mem (List.mem_range.mpr hf), true_or])
  · exact readRecord_storeCells hplaced hm.recordTexts fun f hf => hread _ (by
      simp only [slotsRead, List.mem_append, List.mem_map_of_mem (List.mem_range.mpr hf), true_or,
        or_true])
  · refine readUint64_storeCells hplaced recordCountRow (fun row hrow => ?_) (fun _ => rfl)
      (fun _ h hplace => recordCount_of_place h hplace) rfl
      (hread (recordCountSlot r) (by simp [slotsRead]))
    simp only [storeRows, rowsBefore, List.mem_append, hrow, true_or, or_true]
  · refine readUint64_storeCells hplaced latestIndexRow (fun row hrow => ?_) (fun _ => rfl)
      (fun _ h hplace => latestIndex_of_place h hplace) rfl
      (hread (latestIndexSlot r k) (by simp [slotsRead]))
    simp only [storeRows, rowsBefore, List.mem_append, hrow, true_or, or_true]
  · refine readUint64_storeCells hplaced recordIDRow (fun row hrow => ?_) (fun _ => rfl)
      (fun _ h hplace => recordID_of_place h hplace) rfl
      (hread (recordIDSlot r c) (by simp [slotsRead]))
    simp only [storeRows, rowsBefore, List.mem_append, hrow, true_or, or_true]
  · rw [readRegistryCount_storeCells hplaced, hcount]

/-- Account 1 creates a registry whose description takes more than a word, and anchors a record. -/
def deedsMsgs : List (Ctx × Msg) :=
  [(smallCtx, .addRegistry (some
    ⟨str "nvnm1qyfcvmjm", str "deeds", str "the deeds of the land registry, by parcel", []⟩)),
   (smallCtx, .addRecord (some ⟨str "nvnm1qyfcvmjm", some (smallRecord "c0")⟩))]

def deedsStore : Store := runMsgs cubeEnv deedsMsgs (Store.initial smallParams)

theorem reachable_deedsStore : Reachable cubeEnv Set.univ deedsStore := by
  unfold deedsStore
  exact reachable_cubeEnv (by decide +kernel)

/-- The registry and the record read back, and a checksum that was never anchored reads zero. -/
theorem migration_faithful_deeds :
    HashesApart cubeEnv.keccak256 layout (slotsUsed deedsStore 1 1 1 (str "c1")) ∧
      ∃ writes, migrate cubeEnv deedsStore collect [] = .ok writes ∧
        (readRegistry cubeEnv.keccak256 (written writes) 1).description =
          str "the deeds of the land registry, by parcel" ∧
        readRecord cubeEnv.keccak256 (written writes) 1 1 1 =
          { smallRecord "c0" with
            timestamp := smallCtx.blockTime, recordId := 1, index := 1, isLatest := true } ∧
        readUint64 cubeEnv.keccak256 (written writes) (recordIDSlot 1 (str "c1")) 0 = 0 ∧
        readRegistryCount cubeEnv.keccak256 (written writes) = 1 := by
  have hapart : HashesApart cubeEnv.keccak256 layout (slotsUsed deedsStore 1 1 1 (str "c1")) := by
    decide +kernel
  obtain ⟨writes, hwrites, hread⟩ := migration_faithful reachable_deedsStore
  obtain ⟨hregistry, hrecord, -, -, hchecksum, hcount⟩ := hread 1 1 1 (str "c1") hapart
  refine ⟨hapart, writes, hwrites, ?_, ?_, ?_, ?_⟩
  · rw [hregistry]
    decide +kernel
  · rw [hrecord]
    decide +kernel
  · rw [hchecksum]
    decide +kernel
  · refine Option.some.inj (hcount.trans ?_)
    decide +kernel

end Nvnmchain.Evmlayout
