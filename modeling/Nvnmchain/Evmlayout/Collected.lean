import Nvnmchain.Evmlayout.Rows

/-!
# The migration into a collecting sink

A sink that only collects never fails, so what a migration hands over is a list of writes: those of
the store (`storeWrites`) without the zero ones. For strings of a length Go allows they are the cells
of the store (`migrate_collect`).

The writes of a collection are the cells of its rows, entry by entry (`flatMap_rows`). A role's count
of zero is the one difference: the step does not hand it over and the row has it, as a zero word.
-/

set_option autoImplicit false

namespace Nvnmchain.Evmlayout

open Go (Bytes str)
open Eth (Hash bytesToHash)
open Solidity
open Collections

/-- The sink that collects. -/
def collect : Sink (List Write) := fun st w => .ok (st ++ [w])

/-- The writes `skipZero` lets through. -/
def kept (writes : List Write) : List Write := writes.filter (·.value ≠ .zero)

theorem kept_append (a b : List Write) : kept (a ++ b) = kept a ++ kept b := List.filter_append _ _

theorem kept_flatMap {α : Type} (f : α → List Write) (l : List α) :
    kept (l.flatMap f) = l.flatMap fun e => kept (f e) := List.filter_flatMap

/-! ## Emitting -/

/-- The collecting sink keeps a word that is not zero. -/
theorem emit_collect (st : List Write) (w : Write) :
    skipZero collect st w = .ok (st ++ kept [w]) := by
  unfold skipZero
  split
  · rename_i h
    simp [kept, h]
  · rename_i h
    simp [kept, h, collect]

/-- The collecting sink keeps all words that are not zero. -/
theorem emitAll_collect (st writes : List Write) :
    emitAll (skipZero collect) st writes = .ok (st ++ kept writes) := by
  induction writes generalizing st with
  | nil => simp [emitAll, kept, pure, Except.pure]
  | cons w rest ih =>
    have hcons : emitAll (skipZero collect) st (w :: rest) =
        (skipZero collect st w >>= fun st => emitAll (skipZero collect) st rest) := List.foldlM_cons
    rw [hcons, emit_collect]
    refine (ih _).trans ?_
    rw [List.append_assoc, ← kept_append, List.singleton_append]

/-! ## Rows -/

/-- The writes of some rows. -/
def rowsWrites (env : Env) (rows : List Row) : List Write :=
  (rows.flatMap Row.cells).map (cellWrite env)

theorem rowsWrites_append (env : Env) (a b : List Row) :
    rowsWrites env (a ++ b) = rowsWrites env a ++ rowsWrites env b := by
  rw [rowsWrites, List.flatMap_append, List.map_append]
  rfl

/-- Writes that are the cells of a row, entry by entry. -/
theorem flatMap_rows {α : Type} (env : Env) {f : α → List Write} (row : α → Row) {l : List α}
    (hrow : ∀ e ∈ l, f e = (row e).cells.map (cellWrite env)) :
    l.flatMap f = rowsWrites env (l.map row) := by
  rw [rowsWrites, List.flatMap_map, List.map_flatMap]
  exact List.flatMap_congr hrow

/-- No registry is listed twice. -/
theorem nodup_registryIds (s : Store) : (s.registries.toList.map Prod.fst).Nodup := by
  rw [Std.ExtTreeMap.map_fst_toList_eq_keys]
  exact Std.ExtTreeMap.nodup_keys

/-- A list of ids under a name fits its length word. -/
theorem length_idsByName (s : Store) :
    ∀ e ∈ (idsByName s.registries.toList ∅).toList, e.2.length ≤ 2 ^ 64 := by
  rintro ⟨key, ids⟩ he
  have hget := Std.ExtTreeMap.mem_toList_iff_getElem?_eq_some.mp he
  have hids := get?_idsByName s.registries.toList ∅ key
  rw [hget, Option.getD_some, Std.ExtTreeMap.getElem?_empty, Option.getD_none, List.nil_append] at hids
  rw [hids]
  exact length_le_of_nodup ((nodup_registryIds s).sublist (List.filter_sublist.map Prod.fst))

/-- The runs of the keys of a collection have no more entries than there are ids. -/
theorem length_runs_le {β : Type} [DecidableEq β] {l : List (β × UInt64)} (hnodup : l.Nodup) :
    ∀ g ∈ Runs.runs l, g.2.length ≤ 2 ^ 64 := by
  intro g hg
  have hsub : (g.2.map (g.1, ·)).Sublist l := by
    have hflat := List.sublist_flatten_of_mem (List.mem_map.mpr ⟨g, hg, rfl⟩ :
      g.2.map (g.1, ·) ∈ (Runs.runs l).map fun g => g.2.map (g.1, ·))
    rwa [← List.flatMap_def, Runs.flatMap_runs] at hflat
  exact length_le_of_nodup (List.Nodup.of_map (g.1, ·) (hnodup.sublist hsub))

/-! ## Roles -/

/-- The member flag of a role stands at its mapping's slot. -/
theorem address_roleMember (env : Env) (role : Role) (account : Bytes) :
    (roleMemberRow role account).cells.map (cellWrite env) =
      [⟨mapHash env (bytesToHash account) (mapHash env role (word slotRoleMembers)), word 1⟩] := by
  rw [roleMemberRow, writes_value, Slot.address, Hash.plus_zero, address_stateVar]
  rfl

/-- The member count of a role stands at its mapping's slot. -/
theorem address_roleMemberCount (env : Env) (role : Role) (count : UInt64) :
    (roleMemberCountRow role count).cells.map (cellWrite env) =
      [⟨mapHash env role (word slotRoleMemberCount), word count⟩] := by
  rw [roleMemberCountRow, writes_value, address_stateVar]
  rfl

/-- The writes of a role are those of its rows. A count of zero is a zero write. -/
theorem kept_roleWrites (env : Env) (g : Role × List Bytes) :
    kept (roleWrites env g) = kept (rowsWrites env (roleRows g.1 g.2)) := by
  have hmembers : g.2.map (memberWrite env g.1) =
      rowsWrites env (g.2.map (roleMemberRow g.1)) := by
    rw [← flatMap_rows env (roleMemberRow g.1) fun account _ =>
      (address_roleMember env g.1 account).symm]
    exact List.map_eq_flatMap
  have hcount : kept (countWrites env g.1 (UInt64.ofNat g.2.length)) =
      kept (rowsWrites env [roleMemberCountRow g.1 (UInt64.ofNat g.2.length)]) := by
    rw [rowsWrites, List.flatMap_singleton, address_roleMemberCount, countWrites]
    split
    · rename_i h
      have hzero : word 0 = .zero := by decide +kernel
      simp [kept, h, hzero]
    · rfl
  rw [roleWrites, roleRows, rowsWrites_append, kept_append, kept_append, hmembers, hcount]

/-- What is kept of the writes of the roles are their rows. -/
theorem kept_roles (env : Env) (l : List (Role × List Bytes)) :
    kept (l.flatMap (roleWrites env)) =
      kept (rowsWrites env (l.flatMap fun g => roleRows g.1 g.2)) := by
  have hrows : rowsWrites env (l.flatMap fun g => roleRows g.1 g.2) =
      l.flatMap fun g => rowsWrites env (roleRows g.1 g.2) := by
    rw [rowsWrites, List.flatMap_assoc, List.map_flatMap]
    rfl
  rw [hrows, kept_flatMap, kept_flatMap]
  exact List.flatMap_congr fun g _ => kept_roleWrites env g

/-! ## The whole migration -/

/-- What the migration needs of a store: registries with the ids from 1 to the count, an admin that is
an address, and strings of a length Go allows. -/
structure Migratable (env : Env) (s : Store) (admin : Bytes) (count : UInt64) : Prop where
  registries : DenseRegistries s count
  admin : ∃ params, s.params = some params ∧ env.accAddressFromBech32 params.admin = .ok admin
  registryTexts : ∀ e ∈ s.registries.toList, Sized (registryTexts e.2)
  recordTexts : ∀ e ∈ s.records.toList, Sized (recordTexts e.2)

section Store

variable (env : Env) (s : Store)

/-- The record counts as rows. -/
theorem rows_recordCounts :
    (s.recordsCountByRegistry.toList.flatMap fun e =>
      [⟨mapUint64 env e.1 (word slotRecordCount), word e.2⟩]) =
      rowsWrites env (s.recordsCountByRegistry.toList.map fun e => recordCountRow e.1 e.2) := by
  refine flatMap_rows env _ fun e _ => ?_
  rw [recordCountRow, writes_value, address_stateVar]
  rfl

/-- The latest indexes as rows. -/
theorem rows_latestIndexes :
    (s.recordIndices.toList.flatMap fun e =>
      [⟨mapUint64 env e.1.2 (mapUint64 env e.1.1 (word slotLatestIndex)), word e.2⟩]) =
      rowsWrites env (s.recordIndices.toList.map fun e => latestIndexRow e.1 e.2) := by
  refine flatMap_rows env _ fun e _ => ?_
  rw [latestIndexRow, writes_value, address_mapAt, address_stateVar]
  rfl

/-- The record ids by checksum as rows. -/
theorem rows_recordIDs :
    (s.recordIdByRegistryAndChecksum.toList.flatMap fun e =>
      [⟨mapString env e.1.2 (mapUint64 env e.1.1 (word slotRecordIDByChecksum)), word e.2⟩]) =
      rowsWrites env (s.recordIdByRegistryAndChecksum.toList.map fun e => recordIDRow e.1 e.2) := by
  refine flatMap_rows env _ fun e _ => ?_
  rw [recordIDRow, writes_value, address_mapAt, address_stateVar]
  rfl

/-- The role admins as rows. -/
theorem rows_roleAdmins :
    (s.rbac.roleAdmins.toList.flatMap fun e =>
      [⟨mapHash env e.1 (word slotRoleAdmin), bytesToHash e.2⟩]) =
      rowsWrites env (s.rbac.roleAdmins.toList.map fun e => roleAdminRow e.1 e.2) := by
  refine flatMap_rows env _ fun e _ => ?_
  rw [roleAdminRow, writes_value, address_stateVar]
  rfl

/-- The ids by name as rows. -/
theorem rows_names :
    ((idsByName s.registries.toList ∅).toList.flatMap fun g =>
      idsWrites env (word slotRegistriesByName) g.1 g.2) =
      rowsWrites env ((idsByName s.registries.toList ∅).toList.map fun g =>
        idsRow slotRegistriesByName g.1 g.2) :=
  flatMap_rows env _ fun g hg => idsWrites_eq env slotRegistriesByName g.1 (length_idsByName s g hg)

/-- The registries by checksum as rows. -/
theorem rows_checksums :
    (Runs.runs (s.recordIdByChecksumAndRegistry.toList.map Prod.fst)).flatMap (checksumWrites env) =
      rowsWrites env ((Runs.runs (s.recordIdByChecksumAndRegistry.toList.map Prod.fst)).map fun g =>
        idsRow slotRegistriesByChecksum g.1 g.2) := by
  refine flatMap_rows env _ fun g hg => idsWrites_eq env slotRegistriesByChecksum g.1 ?_
  refine length_runs_le ?_ g hg
  rw [Std.ExtTreeMap.map_fst_toList_eq_keys]
  exact Std.ExtTreeMap.nodup_keys

end Store

/-- The writes of a store are its cells. -/
theorem kept_storeWrites {env : Env} {s : Store} {admin : Bytes} {count : UInt64}
    (h : Migratable env s admin count) :
    kept (storeWrites env s admin count) =
      kept ((storeCells s admin count).map (cellWrite env)) := by
  have hcells : (storeCells s admin count).map (cellWrite env) = rowsWrites env (rowsBefore s) ++
      ([cellWrite env (headerCell admin count)] ++ rowsWrites env (rowsAfter s)) := List.map_append
  have hheader : cellWrite env (headerCell admin count) =
      ⟨word slotHeader, headerWord admin count⟩ := by
    rw [cellWrite, headerCell, address_stateVar]
  have hregistries := flatMap_rows env (fun e => registryRow e.1 e.2) fun e he =>
    registryWrites_eq env e.1 (h.registryTexts e he)
  have hrecords := flatMap_rows env (fun e => recordRow e.1 e.2) fun e he =>
    recordWrites_eq env e.1 (h.recordTexts e he)
  rw [hcells, hheader, storeWrites, handedOver, hregistries, rows_names, rows_recordCounts, hrecords,
    rows_latestIndexes, rows_recordIDs, rows_checksums, rows_roleAdmins]
  simp only [rowsBefore, rowsAfter, rowsWrites_append, kept_append, kept_roles, List.append_assoc]

/-- **The migration hands over the cells of the store**, without the zero ones. -/
theorem migrate_collect {env : Env} {s : Store} {admin : Bytes} {count : UInt64}
    (h : Migratable env s admin count) :
    migrate env s collect [] = .ok (kept ((storeCells s admin count).map (cellWrite env))) := by
  obtain ⟨params, hparams, hadmin⟩ := h.admin
  refine (migrate_eq_ok env s []).mpr ⟨params, admin, count, hparams, hadmin, h.registries, ?_⟩
  rw [emitAll_collect, List.nil_append, kept_storeWrites h]

end Nvnmchain.Evmlayout
