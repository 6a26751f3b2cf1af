import Nvnmchain.Anchoring.Stored
import Nvnmchain.Evmlayout.Collected

/-!
# The rows of a store

`StoreRow` says what a row of a migrated store can be, and what the store then holds. Every row fits
the declared layout, so the cells of a store have their own slots wherever the hashes in play do not
collide (`placed_storeCells`).

A store of a run can be migrated when its registries have the ids from 1 to the count: what else the
migration needs is checked before anything is stored (`migratable_of_storedInv`).
-/

set_option autoImplicit false

namespace Nvnmchain.Evmlayout

open Go (Bytes)
open Eth (Hash)
open Solidity
open Collections

/-- The rows of a store. -/
def storeRows (s : Store) : List Row := rowsBefore s ++ rowsAfter s

/-- The slots a store takes. -/
def storeSlots (s : Store) : List Slot :=
  stateVar slotHeader :: ((storeRows s).flatMap Row.cells).map Prod.fst

/-- A cell is the header, or one of a row. -/
theorem mem_storeCells {s : Store} {admin : Bytes} {count : UInt64} {c : Slot × Hash} :
    c ∈ storeCells s admin count ↔
      c = headerCell admin count ∨ ∃ row ∈ storeRows s, c ∈ row.cells := by
  simp only [storeCells, storeRows, List.mem_append, List.mem_cons, List.mem_flatMap, or_and_right,
    exists_or]
  exact or_left_comm

/-- A row of a store. -/
inductive StoreRow (s : Store) : Row → Prop
  | registry {r : UInt64} {registry : Registry} (h : s.registries[r]? = some registry) :
    StoreRow s (registryRow r registry)
  | names (key : Bytes) (ids : List UInt64) : StoreRow s (idsRow slotRegistriesByName key ids)
  | recordCount {r n : UInt64} (h : s.recordsCountByRegistry[r]? = some n) :
    StoreRow s (recordCountRow r n)
  | record {r k i : UInt64} {record : Record} (h : s.records[(r, k, i)]? = some record) :
    StoreRow s (recordRow (r, k, i) record)
  | latestIndex {r k n : UInt64} (h : s.recordIndices[(r, k)]? = some n) :
    StoreRow s (latestIndexRow (r, k) n)
  | recordID {r k : UInt64} {c : Bytes} (h : s.recordIdByRegistryAndChecksum[(r, c)]? = some k) :
    StoreRow s (recordIDRow (r, c) k)
  | checksums (key : Bytes) (ids : List UInt64) : StoreRow s (idsRow slotRegistriesByChecksum key ids)
  | roleAdmin (role : Role) (adminRole : Bytes) : StoreRow s (roleAdminRow role adminRole)
  | roleMember {role : Role} {account : Bytes} (h : (role, account) ∈ s.rbac.roleMembers) :
    StoreRow s (roleMemberRow role account)
  | roleMemberCount {role : Role} {accounts : List Bytes}
    (h : (role, accounts) ∈ Runs.runs (s.rbac.roleMembers.toList.map Prod.fst)) :
    StoreRow s (roleMemberCountRow role (UInt64.ofNat accounts.length))

/-- A row of the store is a row of one of its collections. -/
theorem storeRow_of_mem {s : Store} {row : Row} (h : row ∈ storeRows s) : StoreRow s row := by
  have hget {κ ν : Type} [Ord κ] [Std.TransOrd κ] [Std.LawfulEqOrd κ] {m : Map κ ν} {e : κ × ν}
      (he : e ∈ m.toList) : m[e.1]? = some e.2 := Std.ExtTreeMap.mem_toList_iff_getElem?_eq_some.mp he
  simp only [storeRows, rowsBefore, rowsAfter, List.mem_append, List.mem_map, List.mem_flatMap] at h
  rcases h with (((((⟨e, he, rfl⟩ | ⟨e, -, rfl⟩) | ⟨e, he, rfl⟩) | ⟨e, he, rfl⟩) | ⟨e, he, rfl⟩) |
    ⟨e, he, rfl⟩) | (⟨g, -, rfl⟩ | ⟨e, -, rfl⟩) | ⟨g, hg, hrow⟩
  · exact .registry (hget he)
  · exact .names _ _
  · exact .recordCount (hget he)
  · exact .record (hget he)
  · exact .latestIndex (hget he)
  · exact .recordID (hget he)
  · exact .checksums _ _
  · exact .roleAdmin _ _
  · rw [roleRows, List.mem_append, List.mem_map, List.mem_singleton] at hrow
    rcases hrow with ⟨account, haccount, rfl⟩ | rfl
    · have hkey := Runs.mem_of_mem_runs hg haccount
      rw [Std.ExtTreeMap.map_fst_toList_eq_keys, Std.ExtTreeMap.mem_keys] at hkey
      exact .roleMember hkey
    · exact .roleMemberCount hg

/-- What a row is, by the state variable it belongs to. -/
def RowKind (s : Store) (row : Row) : Prop :=
  match row.parent.root with
  | 1 => ∃ (role : Role) (account : Bytes),
      (role, account) ∈ s.rbac.roleMembers ∧ row = roleMemberRow role account
  | 2 => ∃ (role : Role) (accounts : List Bytes),
      (role, accounts) ∈ Runs.runs (s.rbac.roleMembers.toList.map Prod.fst) ∧
        row = roleMemberCountRow role (UInt64.ofNat accounts.length)
  | 4 => ∃ (r : UInt64) (registry : Registry),
      s.registries[r]? = some registry ∧ row = registryRow r registry
  | 5 => ∃ r n : UInt64, s.recordsCountByRegistry[r]? = some n ∧ row = recordCountRow r n
  | 6 => ∃ r k n : UInt64, s.recordIndices[(r, k)]? = some n ∧ row = latestIndexRow (r, k) n
  | 7 => ∃ (r k i : UInt64) (record : Record),
      s.records[(r, k, i)]? = some record ∧ row = recordRow (r, k, i) record
  | 8 => ∃ (r : UInt64) (c : Bytes) (k : UInt64),
      s.recordIdByRegistryAndChecksum[(r, c)]? = some k ∧ row = recordIDRow (r, c) k
  | _ => True

/-- Each row is of the kind of its collection. -/
theorem StoreRow.kind {s : Store} {row : Row} (h : StoreRow s row) : RowKind s row := by
  cases h with
  | registry h => exact ⟨_, _, h, rfl⟩
  | recordCount h => exact ⟨_, _, h, rfl⟩
  | latestIndex h => exact ⟨_, _, _, h, rfl⟩
  | record h => exact ⟨_, _, _, _, h, rfl⟩
  | recordID h => exact ⟨_, _, _, h, rfl⟩
  | names => trivial
  | checksums => trivial
  | roleAdmin => trivial
  | roleMember h => exact ⟨_, _, h, rfl⟩
  | roleMemberCount h => exact ⟨_, _, h, rfl⟩

/-! ## Declared rows -/

/-- Each row stands where the layout declares it. -/
theorem StoreRow.declared {s : Store} {row : Row} (h : StoreRow s row) : row.Declared layout := by
  have hvalue (w : Hash) (ty : Ty) : (Entry.value w).words ≠ [] → ty = .dynamic :=
    fun hne => absurd rfl hne
  have hdynamic (x : Entry) : x.words ≠ [] → Ty.dynamic = .dynamic := fun _ => rfl
  have hone (w : Hash) : List.Forall₂ (fun (x : Entry) (ty : Ty) => x.words ≠ [] → ty = .dynamic)
      [.value w] [.value] := .cons (hvalue w _) .nil
  cases h with
  | registry _ =>
    exact .of_forall₂ rfl (.cons (hvalue _ _) (.cons (hdynamic _) (.cons (hdynamic _)
      (.cons (hdynamic _) (.cons (hdynamic _) (.cons (hdynamic _) .nil))))))
  | record _ =>
    exact .of_forall₂ rfl (.cons (hdynamic _) (.cons (hdynamic _) (.cons (hdynamic _)
      (.cons (hdynamic _) (.cons (hdynamic _) (.cons (hdynamic _) (.cons (hvalue _ _) .nil)))))))
  | names _ _ => exact .of_forall₂ rfl (.cons (hdynamic _) .nil)
  | checksums _ _ => exact .of_forall₂ rfl (.cons (hdynamic _) .nil)
  | recordCount _ => exact .of_forall₂ rfl (hone _)
  | latestIndex _ => exact .of_forall₂ rfl (hone _)
  | recordID _ => exact .of_forall₂ rfl (hone _)
  | roleAdmin _ _ => exact .of_forall₂ rfl (hone _)
  | roleMember _ => exact .of_forall₂ rfl (hone _)
  | roleMemberCount _ => exact .of_forall₂ rfl (hone _)

/-- Where the hashes do not collide, no two cells share a slot. -/
theorem placed_storeCells {keccak : Bytes → Hash} {s : Store} {slots : List Slot}
    (hapart : HashesApart keccak layout slots) (hchains : (storeSlots s).flatMap Slot.chain ⊆ slots)
    (admin : Bytes) (count : UInt64) : Placed keccak layout (storeCells s admin count) slots where
  apart := hapart
  few := by decide
  chains c hc := by
    have hslot : c.1 ∈ storeSlots s := by
      rcases mem_storeCells.mp hc with rfl | ⟨row, hrow, hc⟩
      · exact List.mem_cons_self
      · exact List.mem_cons_of_mem _ (List.mem_map_of_mem (List.mem_flatMap.mpr ⟨row, hrow, hc⟩))
    exact fun t ht => hchains (List.mem_flatMap.mpr ⟨c.1, hslot, ht⟩)
  declared c hc := by
    rcases mem_storeCells.mp hc with rfl | ⟨row, hrow, hc⟩
    · exact ⟨.value, rfl⟩
    · exact (storeRow_of_mem hrow).declared.of_mem hc

/-- The storage after some writes. -/
def written (writes : List Write) : Storage := Map.assign Write.slot Write.value ∅ writes

/-- The storage that is written is the storage of the cells. -/
theorem written_kept (env : Env) (cells : List (Slot × Hash)) :
    written (kept (cells.map (cellWrite env))) = storageOf env.keccak256 cells := by
  rw [written, kept, List.filter_map, Map.assign, List.foldl_map]
  rfl

/-! ## Stores of runs -/

/-- The texts of a stored registry are short enough for their length word. -/
theorem sized_of_stored {env : Env} {registry : Registry} (h : registry.Stored env) :
    Sized (registryTexts registry) := by
  obtain ⟨-, hname, hdescription, hmetadata⟩ := validateRegistryForCreate_eq_ok.mp h.valid
  obtain ⟨_, account, -, hcreator⟩ := h.creator
  have hlength := env.length_accAddressString account
  rw [← hcreator] at hlength
  have hcreated := h.createdAt
  simp only [Sized, registryTexts, List.forall_mem_cons, List.not_mem_nil, false_imp_iff, implies_true,
    and_true]
  omega

/-- The texts of a stored record are short enough for their length word. -/
theorem sized_of_storedRecord {record : Record} (h : record.Stored) : Sized (recordTexts record) := by
  obtain ⟨hchecksum, halgo, huri, hmetadata, hstatus⟩ := h.creatable.lengths
  have htimestamp := h.timestamp
  simp only [Sized, recordTexts, List.forall_mem_cons, List.not_mem_nil, false_imp_iff, implies_true,
    and_true]
  omega

/-- A store of valid values whose registries run on can be migrated. -/
theorem migratable_of_storedInv {env : Env} {s : Store} {count : UInt64} (h : StoredInv env s)
    (hregistries : DenseRegistries s count) : ∃ admin, Migratable env s admin count := by
  obtain ⟨params, hparams, hvalid⟩ := h.params
  obtain ⟨_, -, hadmin⟩ := bind_eq_ok.mp hvalid
  obtain ⟨admin, hadmin, -⟩ := bind_eq_ok.mp hadmin
  rw [wrapText_eq_ok] at hadmin
  refine ⟨admin, hregistries, ⟨params, hparams, hadmin⟩, fun e he => ?_, fun e he => ?_⟩
  · exact sized_of_stored (h.registries _ _ (Std.ExtTreeMap.mem_toList_iff_getElem?_eq_some.mp he))
  · exact sized_of_storedRecord
      (h.records _ _ _ _ (Std.ExtTreeMap.mem_toList_iff_getElem?_eq_some.mp he))

/-! ## A hash for concrete runs -/

/-- Cubes modulo a prime, in the place of Keccak: the slots of the runs below get words far apart. -/
def cubeHash (text : Bytes) : Hash :=
  Eth.bigToHash (Eth.beNat (1 :: text) ^ 3 % (2 ^ 256 - 189))

/-- The small chain with this hash. -/
def cubeEnv : Env := { smallEnv with keccak256 := cubeHash }

theorem reachable_cubeEnv {msgs : List (Ctx × Msg)}
    (h : Admissible cubeEnv Set.univ msgs (Store.initial smallParams)) :
    Reachable cubeEnv Set.univ (runMsgs cubeEnv msgs (Store.initial smallParams)) :=
  Reachable.runMsgs (Transition.Reachable.of_init (initial_iff.mpr ⟨smallParams, rfl, rfl⟩)) h

end Nvnmchain.Evmlayout
