import Nvnmchain.Evmlayout.Contents
import Nvnmchain.Evmlayout.Reader

/-!
# Each slot once

The comment of `Migrate` says that it writes each slot once. Two rows of a store are at one place only
when they are members of one role whose account bytes pad to the same 32-byte word: `01` and `00 01`
do. Then the slot of the member is written twice, and the count the contract keeps is too high.

`writes_once_iff` says that this is all that can go wrong in a run, with a role of `2^64` members,
whose count wraps. A chain that has wrapped its registry counter is refused at its registry 0 before
anything is handed over.
-/

set_option autoImplicit false

namespace Nvnmchain.Evmlayout

open Go (Bytes str)
open Eth (Hash bytesToHash)
open Solidity
open Collections

/-! ## Members of a role -/

/-- The accounts of a role, in key order. -/
def members (s : Store) (role : Role) : List Bytes :=
  (s.rbac.roleMembers.prefixed role).map (·.1.2)

/-- `roleMembers[role][account]`. -/
def memberSlot (role : Role) (account : Bytes) : Slot :=
  .elem (.elem (stateVar slotRoleMembers) role.bytes 0) (bytesToHash account).bytes 0

/-- `roleMemberCount[role]`. -/
def memberCountSlot (role : Role) : Slot := .elem (stateVar slotRoleMemberCount) role.bytes 0

section Members

variable {s : Store} {role : Role}

theorem map_members (s : Store) (role : Role) : (members s role).map (role, ·) =
    (s.rbac.roleMembers.toList.map Prod.fst).filter (·.1 = role) := by
  rw [members, Map.prefixed, List.filter_map, List.map_map]
  refine List.map_congr_left fun e he => ?_
  have hrole : e.1.1 = role := by simpa using (List.mem_filter.mp he).2
  exact Prod.ext hrole.symm rfl

/-- The members of a role are those of the table. -/
theorem mem_members {account : Bytes} :
    account ∈ members s role ↔ (role, account) ∈ s.rbac.roleMembers := by
  rw [← Std.ExtTreeMap.mem_keys, ← Std.ExtTreeMap.map_fst_toList_eq_keys]
  have hmap : account ∈ members s role ↔ (role, account) ∈ (members s role).map (role, ·) := by simp
  rw [hmap, map_members, List.mem_filter]
  simp

/-- The run of a role is all its members. -/
theorem members_of_mem_runs {accounts : List Bytes}
    (h : (role, accounts) ∈ Runs.runs (s.rbac.roleMembers.toList.map Prod.fst)) :
    accounts = members s role := by
  have hfilter := Runs.filter_of_mem_runs (Runs.nodup_keys_runs_toList _) h
  rw [← map_members] at hfilter
  exact (List.map_injective_iff.mpr fun _ _ e => (Prod.mk.inj e).2) hfilter.symm

/-- The members of a role are one run of the walk. -/
theorem members_mem_runs {account : Bytes} (h : account ∈ members s role) :
    (role, members s role) ∈ Runs.runs (s.rbac.roleMembers.toList.map Prod.fst) := by
  have hkey : (role, account) ∈ s.rbac.roleMembers.toList.map Prod.fst := by
    rw [Std.ExtTreeMap.map_fst_toList_eq_keys, Std.ExtTreeMap.mem_keys]
    exact mem_members.mp h
  obtain ⟨accounts, hrun, -⟩ := Runs.exists_mem_runs hkey
  exact members_of_mem_runs hrun ▸ hrun

/-- The rows of a role with members are among the rows of the store. -/
theorem roleRows_sublist {account : Bytes} (h : account ∈ members s role) :
    (roleRows role (members s role)).Sublist (rowsAfter s) := by
  have hflat : (roleRows role (members s role)).Sublist
      ((Runs.runs (s.rbac.roleMembers.toList.map Prod.fst)).flatMap fun g => roleRows g.1 g.2) := by
    rw [List.flatMap_def]
    exact List.sublist_flatten_of_mem (List.mem_map.mpr ⟨_, members_mem_runs h, rfl⟩)
  exact hflat.trans (List.sublist_append_right _ _)

/-- The rows of a role that has members are rows of the store. -/
theorem mem_storeRows_of_role {account : Bytes} (h : account ∈ members s role) {row : Row}
    (hrow : row ∈ roleRows role (members s role)) : row ∈ storeRows s :=
  List.mem_append_right _ ((roleRows_sublist h).subset hrow)

end Members

/-! ## Rows at different places -/

/-- Members of a role that pad to different words. -/
def MembersApart (s : Store) : Prop := ∀ role, ((members s role).map bytesToHash).Nodup

/-- The rows of a store by state variable. -/
def rowBlocks (s : Store) : List (Nat × List Row) :=
  [(4, s.registries.toList.map fun e => registryRow e.1 e.2),
   (10, (idsByName s.registries.toList ∅).toList.map fun e => idsRow slotRegistriesByName e.1 e.2),
   (5, s.recordsCountByRegistry.toList.map fun e => recordCountRow e.1 e.2),
   (7, s.records.toList.map fun e => recordRow e.1 e.2),
   (6, s.recordIndices.toList.map fun e => latestIndexRow e.1 e.2),
   (8, s.recordIdByRegistryAndChecksum.toList.map fun e => recordIDRow e.1 e.2),
   (9, (Runs.runs (s.recordIdByChecksumAndRegistry.toList.map Prod.fst)).map
      fun g => idsRow slotRegistriesByChecksum g.1 g.2),
   (0, s.rbac.roleAdmins.toList.map fun e => roleAdminRow e.1 e.2),
   (1, (s.rbac.roleMembers.toList.map Prod.fst).map fun e => roleMemberRow e.1 e.2),
   (2, (Runs.runs (s.rbac.roleMembers.toList.map Prod.fst)).map
      fun g => roleMemberCountRow g.1 (UInt64.ofNat g.2.length))]

/-- The rows in blocks are the rows of the store. -/
theorem perm_rowBlocks (s : Store) : ((rowBlocks s).flatMap Prod.snd).Perm (storeRows s) := by
  have hmembers : (Runs.runs (s.rbac.roleMembers.toList.map Prod.fst)).flatMap
      (fun g => g.2.map (roleMemberRow g.1)) =
        (s.rbac.roleMembers.toList.map Prod.fst).map fun e => roleMemberRow e.1 e.2 := by
    rw [← congrArg (List.map _) (Runs.flatMap_runs (s.rbac.roleMembers.toList.map Prod.fst)),
      List.map_flatMap]
    simp only [List.map_map]
    rfl
  have hroles := List.flatMap_append_perm (Runs.runs (s.rbac.roleMembers.toList.map Prod.fst))
    (fun g => g.2.map (roleMemberRow g.1))
    (fun g => [roleMemberCountRow g.1 (UInt64.ofNat g.2.length)])
  rw [hmembers, ← List.map_eq_flatMap] at hroles
  have hall := hroles.append_left (rowsBefore s ++
    (Runs.runs (s.recordIdByChecksumAndRegistry.toList.map Prod.fst)).map
      (fun g => idsRow slotRegistriesByChecksum g.1 g.2) ++
    s.rbac.roleAdmins.toList.map fun e => roleAdminRow e.1 e.2)
  simpa only [rowBlocks, storeRows, rowsBefore, rowsAfter, roleRows, List.flatMap_cons,
    List.flatMap_nil, List.append_nil, List.append_assoc] using hall

/-- Rows made from items with different keys are at different places, when a place gives the key. -/
theorem nodup_map_place {α κ : Type} {l : List α} {key : α → κ} (hkeys : (l.map key).Nodup)
    {row : α → Row} (hplace : ∀ a b, (row a).place = (row b).place → key a = key b) :
    ((l.map row).map Row.place).Nodup := by
  rw [List.map_map]
  exact hkeys.of_map.map_on fun a ha b hb he => List.inj_on_of_nodup_map hkeys ha hb (hplace a b he)

theorem nodup_keys_toList {κ ν : Type} [Ord κ] [Std.TransOrd κ] (m : Map κ ν) :
    (m.toList.map Prod.fst).Nodup := by
  rw [Std.ExtTreeMap.map_fst_toList_eq_keys]
  exact Std.ExtTreeMap.nodup_keys

/-- Members that pad apart are at different places. -/
theorem nodup_memberKeys {s : Store} (h : MembersApart s) :
    ((s.rbac.roleMembers.toList.map Prod.fst).map fun e => (e.1, bytesToHash e.2)).Nodup := by
  refine (nodup_keys_toList _).map_on fun x hx y hy he => ?_
  obtain ⟨role, account⟩ := x
  obtain ⟨role', account'⟩ := y
  obtain ⟨hrole, hhash⟩ := Prod.mk.inj he
  cases (show role = role' from hrole)
  rw [Std.ExtTreeMap.map_fst_toList_eq_keys, Std.ExtTreeMap.mem_keys, ← mem_members] at hx hy
  rw [List.inj_on_of_nodup_map (h role) hx hy hhash]

/-- Where no two members of a role pad to one word, no two rows share a place. -/
theorem nodup_storeRows {s : Store} (h : MembersApart s) : ((storeRows s).map Row.place).Nodup := by
  have hword {v w : UInt64} (he : (word v).bytes = (word w).bytes) : v = w :=
    word_injective (Hash.ext_bytes he)
  have hvars : ((rowBlocks s).map Prod.fst).Nodup :=
    (by decide : [4, 10, 5, 7, 6, 8, 9, 0, 1, 2].Nodup)
  refine ((perm_rowBlocks s).map _).nodup_iff.mp (nodup_places hvars ?_ ?_)
  · have hroot {α : Type} {l : List α} {row : α → Row} {n : Nat} (hrow : ∀ a, (row a).parent.root = n) :
        ∀ r ∈ l.map row, r.parent.root = n := by
      rintro r hr
      obtain ⟨a, -, rfl⟩ := List.mem_map.mp hr
      exact hrow a
    simp only [rowBlocks, List.forall_mem_cons]
    exact ⟨hroot fun _ => rfl, hroot fun _ => rfl, hroot fun _ => rfl, hroot fun _ => rfl,
      hroot fun _ => rfl, hroot fun _ => rfl, hroot fun _ => rfl, hroot fun _ => rfl,
      hroot fun _ => rfl, hroot fun _ => rfl, fun _ hb => absurd hb List.not_mem_nil⟩
  · simp only [rowBlocks, List.forall_mem_cons]
    refine ⟨nodup_map_place (nodup_keys_toList _) ?_, nodup_map_place (nodup_keys_toList _) ?_,
      nodup_map_place (nodup_keys_toList _) ?_, nodup_map_place (nodup_keys_toList _) ?_,
      nodup_map_place (nodup_keys_toList _) ?_, nodup_map_place (nodup_keys_toList _) ?_,
      nodup_map_place (Runs.nodup_keys_runs_toList _) ?_, nodup_map_place (nodup_keys_toList _) ?_,
      nodup_map_place (nodup_memberKeys h) ?_, nodup_map_place (Runs.nodup_keys_runs_toList _) ?_,
      fun _ hb => absurd hb List.not_mem_nil⟩
    · exact fun a b he => hword (Prod.mk.inj he).2
    · exact fun a b he => (Prod.mk.inj he).2
    · exact fun a b he => hword (Prod.mk.inj he).2
    · intro a b he
      obtain ⟨hparent, hkey⟩ := Prod.mk.inj he
      obtain ⟨hmap, hk, -⟩ := Slot.elem.inj hparent
      exact Prod.ext (hword (Slot.elem.inj hmap).2.1) (Prod.ext (hword hk) (hword hkey))
    · intro a b he
      obtain ⟨hparent, hkey⟩ := Prod.mk.inj he
      exact Prod.ext (hword (Slot.elem.inj hparent).2.1) (hword hkey)
    · intro a b he
      obtain ⟨hparent, hkey⟩ := Prod.mk.inj he
      exact Prod.ext (hword (Slot.elem.inj hparent).2.1) hkey
    · exact fun a b he => (Prod.mk.inj he).2
    · exact fun a b he => Hash.ext_bytes (Prod.mk.inj he).2
    · intro a b he
      obtain ⟨hparent, hkey⟩ := Prod.mk.inj he
      exact Prod.ext (Hash.ext_bytes (Slot.elem.inj hparent).2.1) (Hash.ext_bytes hkey)
    · exact fun a b he => Hash.ext_bytes (Prod.mk.inj he).2

/-- Where members pad apart, a store takes each slot once. -/
theorem nodup_storeCells {s : Store} (h : MembersApart s) (admin : Bytes) (count : UInt64) :
    ((storeCells s admin count).map Prod.fst).Nodup := by
  have hperm : ((storeCells s admin count).map Prod.fst).Perm (storeSlots s) := by
    refine (List.perm_middle.map Prod.fst).trans ?_
    rw [storeSlots, storeRows, List.flatMap_append, List.map_cons]
    rfl
  refine hperm.nodup_iff.mpr (List.nodup_cons.mpr ⟨fun hmem => ?_, nodup_rows (nodup_storeRows h)⟩)
  obtain ⟨c, hc, hheader⟩ := List.mem_map.mp hmem
  obtain ⟨row, -, hcrow⟩ := List.mem_flatMap.mp hc
  have howner := Row.owner_of_mem hcrow
  rw [hheader] at howner
  cases howner

/-! ## What is handed over -/

/-- The writes the migration hands to its sink, also when it fails. -/
def handed (env : Env) (s : Store) : List Write :=
  match migrate env s collect [] with
  | .ok writes => writes
  | .error (_, writes) => writes

/-- The slots in play when the members of a role are counted among some accounts. -/
def slotsCounted (s : Store) (role : Role) (accounts : List Bytes) : List Slot :=
  (storeSlots s ++ memberCountSlot role :: accounts.map (memberSlot role)).flatMap Slot.chain

/-- The slots of some accounts under a role that were set to 1. -/
def slotsSet (env : Env) (s : Store) (role : Role) (accounts : List Bytes) : Set Hash :=
  {slot | ∃ account ∈ accounts, slot = (memberSlot role account).address env.keccak256 ∧
    ⟨slot, word 1⟩ ∈ handed env s}

/-- **Each slot once**: the slots are distinct, no value is zero, and the member count of a role is the
number of member slots that were set, among any accounts that include the members. -/
structure WritesOnce (env : Env) (s : Store) : Prop where
  distinct : ((handed env s).map Write.slot).Nodup
  nonzero : ∀ w ∈ handed env s, w.value ≠ .zero
  counted : ∀ (role : Role) (accounts : List Bytes), members s role ⊆ accounts →
    HashesApart env.keccak256 layout (slotsCounted s role accounts) →
      ((written (handed env s)).load ((memberCountSlot role).address env.keccak256)).big =
        (slotsSet env s role accounts).ncard

/-- What the sink gets are the cells of the store that are not zero. -/
theorem handed_of_migratable {env : Env} {s : Store} {admin : Bytes} {count : UInt64}
    (h : Migratable env s admin count) :
    handed env s = kept ((storeCells s admin count).map (cellWrite env)) := by
  rw [handed, migrate_collect h]

/-! ## Counting members -/

section Counting

variable {env : Env} {s : Store} {admin : Bytes} {count : UInt64} {slots : List Slot} {role : Role}

/-- The count of a role holds the number of its members. -/
theorem load_memberCount (hplaced : Placed env.keccak256 layout (storeCells s admin count) slots)
    (hchain : (memberCountSlot role).chain ⊆ slots) :
    (storageOf env.keccak256 (storeCells s admin count)).load
        ((memberCountSlot role).address env.keccak256) =
      word (UInt64.ofNat (members s role).length) := by
  refine hplaced.load hchain ⟨.value, rfl⟩ (fun c hc he => ?_) ?_
  · rcases mem_storeCells.mp hc with rfl | ⟨row, hrow, hcrow⟩
    · cases he
    · have hplace : row.place = (stateVar slotRoleMemberCount, role.bytes) := by
        have howner := Row.owner_of_mem hcrow
        rw [he] at howner
        exact (Option.some.inj howner).symm
      have hkind := (storeRow_of_mem hrow).kind
      have hroot : row.parent.root = 2 := congrArg (fun p => p.1.root) hplace
      rw [RowKind, hroot] at hkind
      obtain ⟨role', accounts, hrun, rfl⟩ := hkind
      cases Hash.ext_bytes (Prod.mk.inj hplace).2
      rw [roleMemberCountRow, cells_value] at hcrow
      rw [List.mem_singleton.mp hcrow, members_of_mem_runs hrun]
  · by_cases hempty : members s role = []
    · rw [hempty]
      exact .inr (by decide)
    · obtain ⟨account, haccount⟩ := List.exists_mem_of_ne_nil _ hempty
      have hrow : roleMemberCountRow role (UInt64.ofNat (members s role).length) ∈ storeRows s :=
        mem_storeRows_of_role haccount (List.mem_append_right _ List.mem_cons_self)
      exact .inl (mem_storeCells.mpr (.inr ⟨_, hrow, List.mem_cons_self⟩))

/-- A slot under a role was set when a member pads to its word. -/
theorem mem_kept_member (hplaced : Placed env.keccak256 layout (storeCells s admin count) slots)
    {account : Bytes} (hchain : (memberSlot role account).chain ⊆ slots) :
    ⟨(memberSlot role account).address env.keccak256, word 1⟩ ∈
        kept ((storeCells s admin count).map (cellWrite env)) ↔
      bytesToHash account ∈ (members s role).map bytesToHash := by
  constructor
  · intro h
    obtain ⟨c, hc, hwrite⟩ := List.mem_map.mp (List.mem_of_mem_filter h)
    have hslot : c.1 = memberSlot role account :=
      hplaced.apart.eq_of_address hplaced.few (hplaced.chains c hc) hchain (hplaced.declared c hc)
        ⟨.value, rfl⟩ (congrArg Write.slot hwrite)
    rcases mem_storeCells.mp hc with rfl | ⟨row, hrow, hcrow⟩
    · cases hslot
    · have howner := Row.owner_of_mem hcrow
      rw [hslot] at howner
      have hplace : row.place =
          (.elem (stateVar slotRoleMembers) role.bytes 0, (bytesToHash account).bytes) :=
        (Option.some.inj howner).symm
      have hkind := (storeRow_of_mem hrow).kind
      have hroot : row.parent.root = 1 := congrArg (fun p => p.1.root) hplace
      rw [RowKind, hroot] at hkind
      obtain ⟨role', account', hmember, rfl⟩ := hkind
      obtain ⟨hparent, hkey⟩ := Prod.mk.inj hplace
      cases Hash.ext_bytes (Slot.elem.inj hparent).2.1
      exact List.mem_map.mpr ⟨account', mem_members.mpr hmember, Hash.ext_bytes hkey⟩
  · intro h
    obtain ⟨account', haccount, hhash⟩ := List.mem_map.mp h
    have hrow : roleMemberRow role account' ∈ storeRows s :=
      mem_storeRows_of_role haccount
        (List.mem_append_left _ (List.mem_map.mpr ⟨account', haccount, rfl⟩))
    have hcell : (memberSlot role account', word 1) ∈ storeCells s admin count :=
      mem_storeCells.mpr (.inr ⟨_, hrow, List.mem_cons_self⟩)
    have hone : word 1 ≠ .zero := by decide
    refine List.mem_filter.mpr ⟨List.mem_map.mpr ⟨_, hcell, ?_⟩, by simpa using hone⟩
    rw [cellWrite, memberSlot, hhash]
    rfl

/-- Where the members of a role pad apart, as many slots are set as there are members. -/
theorem ncard_slotsSet (hmigratable : Migratable env s admin count)
    (hplaced : Placed env.keccak256 layout (storeCells s admin count) slots) {accounts : List Bytes}
    (hchains : ∀ account ∈ accounts, (memberSlot role account).chain ⊆ slots)
    (hsub : members s role ⊆ accounts) (hnodup : ((members s role).map bytesToHash).Nodup) :
    (slotsSet env s role accounts).ncard = (members s role).length := by
  have hset : slotsSet env s role accounts =
      ((members s role).map fun a => (memberSlot role a).address env.keccak256).toFinset := by
    ext slot
    simp only [slotsSet, Set.mem_ofPred_eq, List.coe_toFinset, List.mem_map,
      handed_of_migratable hmigratable]
    constructor
    · rintro ⟨account, haccount, rfl, hwrite⟩
      obtain ⟨member, hmember, hhash⟩ :=
        List.mem_map.mp ((mem_kept_member hplaced (hchains account haccount)).mp hwrite)
      exact ⟨member, hmember, by rw [memberSlot, hhash]; rfl⟩
    · rintro ⟨member, hmember, rfl⟩
      exact ⟨member, hsub hmember, rfl, (mem_kept_member hplaced (hchains member (hsub hmember))).mpr
        (List.mem_map_of_mem hmember)⟩
  have hslots : ((members s role).map fun a => (memberSlot role a).address env.keccak256).Nodup := by
    refine hnodup.of_map.map_on fun a ha b hb he => List.inj_on_of_nodup_map hnodup ha hb ?_
    have hslot : memberSlot role a = memberSlot role b :=
      hplaced.apart.eq_of_address hplaced.few (hchains a (hsub ha)) (hchains b (hsub hb))
        ⟨.value, rfl⟩ ⟨.value, rfl⟩ he
    exact Hash.ext_bytes (Slot.elem.inj hslot).2.1
  rw [hset, Set.ncard_coe_finset, List.toFinset_card_of_nodup hslots, List.length_map]

/-- The count, as the number that was written. -/
theorem big_memberCount (hmigratable : Migratable env s admin count)
    (hplaced : Placed env.keccak256 layout (storeCells s admin count) slots)
    (hchain : (memberCountSlot role).chain ⊆ slots) :
    ((written (handed env s)).load ((memberCountSlot role).address env.keccak256)).big =
      (members s role).length % 2 ^ 64 := by
  rw [handed_of_migratable hmigratable, written_kept, load_memberCount hplaced hchain, big_word,
    UInt64.toNat_ofNat']

end Counting

/-! ## Registries of a run -/

/-- A run has the registries 1 to the count, or its count has wrapped and there is a registry 0. -/
theorem registries_of_run {env : Env} {names : Set Bytes} {s : Store} (h : AnyReachable env names s) :
    ∃ count, s.registryCount = some count ∧ (0 ∈ s.registries ∨ DenseRegistries s count) := by
  refine h.invariant (P := fun s => ∃ count, s.registryCount = some count ∧
    (0 ∈ s.registries ∨ DenseRegistries s count)) (fun params _ => ⟨0, rfl, .inr ⟨rfl, fun r => ?_⟩⟩)
    fun s s' ctx msg hinv _ hd => ?_
  · have hempty : r ∉ (Store.initial params).registries := Std.ExtTreeMap.not_mem_empty
    refine ⟨fun hr => absurd hr hempty, fun hr => absurd (UInt64.le_trans hr.1 hr.2) (by decide)⟩
  · obtain ⟨count, hcount, hregistries⟩ := hinv
    -- a message that leaves the registries and their count alone
    have hkept {s' : Store} (hr : s'.registries = s.registries)
        (hc : s'.registryCount = s.registryCount) : ∃ count, s'.registryCount = some count ∧
          (0 ∈ s'.registries ∨ DenseRegistries s' count) :=
      ⟨count, hc.trans hcount, hregistries.imp (hr ▸ ·) fun h => ⟨hc.trans h.counted, hr ▸ h.dense⟩⟩
    cases hd with
    | refused failed => exact ⟨count, hcount, hregistries⟩
    | @addRegistry m sender creator n accepted signer valid counted creates =>
      cases hcount.symm.trans counted
      have hmem : ∀ r, r ∈ s.registries.insert (count + 1) (m.registry env ctx sender (count + 1)) ↔
          count + 1 = r ∨ r ∈ s.registries := fun r => Map.mem_insert
      refine ⟨count + 1, rfl, ?_⟩
      by_cases hmax : count = counterMax
      · exact .inl ((hmem 0).mpr (.inl (by rw [hmax]; rfl)))
      · refine hregistries.imp (fun h => (hmem 0).mpr (.inr h)) fun h => ⟨rfl, fun r => ?_⟩
        refine (hmem r).trans ?_
        rw [h.dense, le_add_one_iff_of_ne_counterMax hmax]
        have hn : count ≠ 18446744073709551615 := hmax
        grind
    | addRecord accepted signer carries valid known permitted assigned stored =>
      obtain ⟨-, hr, hc, -⟩ := addRecord_frame assigned stored
      exact hkept hr hc
    | updateRecordStatus accepted signer valid found permitted => exact hkept rfl rfl
    | grantRole signer grants nonzero inScope allowed => exact hkept rfl rfl
    | revokeRole signer revokes nonzero inScope held notLast administered allowed =>
      exact hkept rfl rfl
    | updateParams signer stored authorized valid => exact hkept rfl rfl

/-- A store with a registry 0 is refused before anything is handed over. -/
theorem handed_of_zero (env : Env) {s : Store} (h : 0 ∈ s.registries) : handed env s = [] := by
  obtain ⟨registry, rest, hlist⟩ : ∃ registry rest, s.registries.toList = (0, registry) :: rest := by
    have hkey : (0 : UInt64) ∈ s.registries.toList.map Prod.fst := by
      rw [Std.ExtTreeMap.map_fst_toList_eq_keys, Std.ExtTreeMap.mem_keys]
      exact h
    have hsorted := sorted_registryIds s
    cases hl : s.registries.toList with
    | nil =>
      rw [hl] at hkey
      cases hkey
    | cons e rest =>
      obtain ⟨id, registry⟩ := e
      rw [hl, List.map_cons] at hkey hsorted
      rcases List.mem_cons.mp hkey with heq | hlater
      · cases heq
        exact ⟨registry, rest, rfl⟩
      · exact absurd ((List.pairwise_cons.mp hsorted).1 0 hlater) UInt64.not_lt_zero
  have hregistries : ∃ e, migrateRegistries env s (skipZero collect) [] = .error (e, []) := by
    rw [migrateRegistries, hlist]
    exact ⟨_, rfl⟩
  obtain ⟨e, he⟩ := hregistries
  simp only [handed, migrate, steps, List.foldlM_cons, he, migrating, bind, Except.bind]

/-! ## The law -/

/-- Nothing handed over is written once. -/
theorem writesOnce_of_nil {env : Env} {s : Store} (h : handed env s = []) : WritesOnce env s where
  distinct := by
    rw [h]
    exact List.nodup_nil
  nonzero w hw := by
    rw [h] at hw
    cases hw
  counted role accounts _ _ := by
    have hset : slotsSet env s role accounts = ∅ := by
      ext slot
      simp [slotsSet, h]
    rw [hset, h, Set.ncard_empty]
    exact (by decide : Hash.zero.big = 0)

section Law

variable {env : Env} {s : Store} {admin : Bytes} {count : UInt64}

theorem chains_slotsCounted (s : Store) (role : Role) (accounts : List Bytes) :
    (storeSlots s).flatMap Slot.chain ⊆ slotsCounted s role accounts ∧
      (memberCountSlot role).chain ⊆ slotsCounted s role accounts ∧
      ∀ account ∈ accounts, (memberSlot role account).chain ⊆ slotsCounted s role accounts := by
  refine ⟨fun t ht => ?_, fun t ht => ?_, fun account haccount t ht => ?_⟩
  · rw [slotsCounted, List.flatMap_append]
    exact List.mem_append_left _ ht
  · exact List.mem_flatMap.mpr ⟨_, List.mem_append_right _ List.mem_cons_self, ht⟩
  · exact List.mem_flatMap.mpr ⟨_, List.mem_append_right _
      (List.mem_cons_of_mem _ (List.mem_map_of_mem haccount)), ht⟩

/-- Members that pad apart, and few enough to count, are written once. -/
theorem WritesOnce.of_apart (hm : Migratable env s admin count)
    (hapart : HashesApart env.keccak256 layout ((storeSlots s).flatMap Slot.chain))
    (hmembers : MembersApart s) (hfew : ∀ role, (members s role).length < 2 ^ 64) :
    WritesOnce env s where
  distinct := by
    have hplaced := placed_storeCells hapart (List.Subset.refl _) admin count
    have haddresses := hplaced.nodup_addresses (nodup_storeCells hmembers admin count)
    rw [handed_of_migratable hm, kept]
    refine List.Nodup.sublist (List.filter_sublist.map Write.slot) ?_
    rw [List.map_map]
    exact haddresses
  nonzero w hw := by
    rw [handed_of_migratable hm] at hw
    simpa using (List.mem_filter.mp hw).2
  counted role accounts hsub hcounted := by
    obtain ⟨hstore, hcount, haccounts⟩ := chains_slotsCounted s role accounts
    have hplaced := placed_storeCells hcounted hstore admin count
    rw [big_memberCount hm hplaced hcount, ncard_slotsSet hm hplaced haccounts hsub (hmembers role),
      Nat.mod_eq_of_lt (hfew role)]

/-- Slots written once come from members that pad apart. -/
theorem WritesOnce.apart (hm : Migratable env s admin count) (h : WritesOnce env s) :
    MembersApart s := by
  intro role
  by_cases hempty : members s role = []
  · rw [hempty]
    exact List.nodup_nil
  obtain ⟨account, haccount⟩ := List.exists_mem_of_ne_nil _ hempty
  have hrows : ((members s role).map (roleMemberRow role)).Sublist (rowsAfter s) :=
    (List.sublist_append_left _ _).trans (roleRows_sublist haccount)
  have hcells : ((members s role).map fun a => (memberSlot role a, word 1)).Sublist
      (storeCells s admin count) := by
    have hflat := hrows.flatMap Row.cells
    rw [List.flatMap_map] at hflat
    rw [List.map_eq_flatMap]
    exact hflat.trans ((List.sublist_cons_self _ _).trans (List.sublist_append_right _ _))
  have hone : word 1 ≠ .zero := by decide
  have hhanded : ((members s role).map fun a =>
      (⟨(memberSlot role a).address env.keccak256, word 1⟩ : Write)).Sublist (handed env s) := by
    have hkept := (hcells.map (cellWrite env)).filter (·.value ≠ .zero)
    rw [handed_of_migratable hm, kept]
    rwa [List.map_map, List.filter_eq_self.mpr fun w hw => by
      obtain ⟨a, -, rfl⟩ := List.mem_map.mp hw
      exact decide_eq_true hone] at hkept
  have hslots := h.distinct.sublist (hhanded.map Write.slot)
  rw [List.map_map] at hslots
  refine List.Nodup.of_map (fun w : Hash => (Slot.elem (.elem (stateVar slotRoleMembers) role.bytes 0)
    w.bytes 0).address env.keccak256) ?_
  rw [List.map_map]
  exact hslots

/-- A member count that was written right did not wrap. -/
theorem WritesOnce.few (hm : Migratable env s admin count)
    (hapart : HashesApart env.keccak256 layout ((storeSlots s).flatMap Slot.chain))
    (h : WritesOnce env s) (role : Role) : (members s role).length < 2 ^ 64 := by
  by_cases hempty : members s role = []
  · rw [hempty]
    decide
  obtain ⟨account, haccount⟩ := List.exists_mem_of_ne_nil _ hempty
  -- the slots of a role that has members are slots of the store
  have hslots : slotsCounted s role (members s role) ⊆ (storeSlots s).flatMap Slot.chain := by
    intro t ht
    obtain ⟨slot, hslot, ht⟩ := List.mem_flatMap.mp ht
    refine List.mem_flatMap.mpr ⟨slot, ?_, ht⟩
    have hcell {row : Row} {c : Slot × Hash} (hrow : row ∈ roleRows role (members s role))
        (hc : c ∈ row.cells) : c.1 ∈ storeSlots s := List.mem_cons_of_mem _ (List.mem_map_of_mem
      (List.mem_flatMap.mpr ⟨row, mem_storeRows_of_role haccount hrow, hc⟩))
    rcases List.mem_append.mp hslot with hstored | hrole
    · exact hstored
    rcases List.mem_cons.mp hrole with rfl | hmember
    · exact hcell (List.mem_append_right _ List.mem_cons_self) List.mem_cons_self
    · obtain ⟨a, ha, rfl⟩ := List.mem_map.mp hmember
      exact hcell (List.mem_append_left _ (List.mem_map.mpr ⟨a, ha, rfl⟩)) List.mem_cons_self
  obtain ⟨hstore, hcount, haccounts⟩ := chains_slotsCounted s role (members s role)
  have hplaced := placed_storeCells (hapart.mono hslots) hstore admin count
  have hcounted := h.counted role _ (List.Subset.refl _) (hapart.mono hslots)
  rw [big_memberCount hm hplaced hcount, ncard_slotsSet hm hplaced haccounts (List.Subset.refl _)
    (h.apart hm role)] at hcounted
  rw [← hcounted]
  exact Nat.mod_lt _ (by decide)

end Law

/-- **When each slot is written once.** Of every run: exactly when the members of each role pad to
different words and are fewer than `2^64`, or when the chain has a registry 0 and is refused. -/
theorem writes_once_iff {env : Env} {s : Store} (h : AnyReachable env Set.univ s)
    (hapart : HashesApart env.keccak256 layout ((storeSlots s).flatMap Slot.chain)) :
    WritesOnce env s ↔ 0 ∈ s.registries ∨
      ∀ role, ((members s role).map bytesToHash).Nodup ∧ (members s role).length < 2 ^ 64 := by
  obtain ⟨count, -, hzero | hdense⟩ := registries_of_run h
  · exact ⟨fun _ => .inl hzero, fun _ => writesOnce_of_nil (handed_of_zero env hzero)⟩
  · obtain ⟨admin, hm⟩ := migratable_of_storedInv h.storedInv hdense
    have hnone : (0 : UInt64) ∉ s.registries := fun hmem =>
      absurd ((hdense.dense 0).mp hmem).1 (by decide)
    constructor
    · exact fun hw => .inr fun role => ⟨hw.apart hm role, hw.few hm hapart role⟩
    · rintro (hmem | hroles)
      · exact absurd hmem hnone
      · exact .of_apart hm hapart (fun role => (hroles role).1) fun role => (hroles role).2

/-! ## Concrete runs -/

/-- Account `01` creates a registry. -/
def oneAdminMsgs : List (Ctx × Msg) :=
  [(smallCtx, .addRegistry (some ⟨str "nvnm1qyfcvmjm", str "deeds", [], []⟩))]

/-- It then grants the role `admin` in the registry to account `00 01`. -/
def paddedMsgs : List (Ctx × Msg) := oneAdminMsgs ++
  [(smallCtx, .grantRole (some ⟨str "nvnm1qyfcvmjm", str "nvnm1qqqskyhdqc", 1, [], roleAdmin⟩))]

def oneAdminStore : Store := runMsgs cubeEnv oneAdminMsgs (Store.initial smallParams)

def paddedStore : Store := runMsgs cubeEnv paddedMsgs (Store.initial smallParams)

/-- The role both accounts hold. -/
def paddedRole : Role := registryRole cubeEnv 1 roleAdmin

/-- With one account in all, each slot is written once. -/
theorem writes_once_oneAdmin : WritesOnce cubeEnv oneAdminStore := by
  have hreachable : AnyReachable cubeEnv Set.univ oneAdminStore := by
    unfold oneAdminStore
    exact (reachable_cubeEnv (by decide +kernel)).any
  have hsize : oneAdminStore.rbac.roleMembers.toList.length = 1 := by decide +kernel
  refine (writes_once_iff hreachable (by decide +kernel)).mpr (.inr fun role => ?_)
  have hle : (members oneAdminStore role).length ≤ 1 := by
    rw [members, List.length_map, ← hsize]
    exact List.length_filter_le _ _
  refine ⟨?_, by omega⟩
  match hm : members oneAdminStore role with
  | [] => exact List.nodup_nil
  | [account] => exact List.nodup_singleton _
  | _ :: _ :: _ =>
    rw [hm] at hle
    simp at hle

/-- Both accounts pad to one word: their slot is handed over twice, and the count of the role is 2 for
one slot. -/
theorem paddedStore_writes_twice :
    AnyReachable cubeEnv Set.univ paddedStore ∧
      HashesApart cubeEnv.keccak256 layout ((storeSlots paddedStore).flatMap Slot.chain) ∧
      ¬ WritesOnce cubeEnv paddedStore ∧
      members paddedStore paddedRole = [[0, 1], [1]] ∧
      ¬ ((handed cubeEnv paddedStore).map Write.slot).Nodup ∧
      ((written (handed cubeEnv paddedStore)).load
        ((memberCountSlot paddedRole).address cubeEnv.keccak256)).big = 2 ∧
      (slotsSet cubeEnv paddedStore paddedRole [[0, 1], [1]]).ncard = 1 := by
  have hreachable : AnyReachable cubeEnv Set.univ paddedStore := by
    unfold paddedStore
    exact (reachable_cubeEnv (by decide +kernel)).any
  have htwice : ¬ ((handed cubeEnv paddedStore).map Write.slot).Nodup := by decide +kernel
  refine ⟨hreachable, by decide +kernel, fun h => htwice h.distinct, by decide +kernel, htwice,
    by decide +kernel, ?_⟩
  have hsame : memberSlot paddedRole [0, 1] = memberSlot paddedRole [1] := by
    have hpad : bytesToHash [0, 1] = bytesToHash [1] := by decide
    rw [memberSlot, memberSlot, hpad]
  have hset : slotsSet cubeEnv paddedStore paddedRole [[0, 1], [1]] =
      {(memberSlot paddedRole [1]).address cubeEnv.keccak256} := by
    have hmem : (⟨(memberSlot paddedRole [1]).address cubeEnv.keccak256, word 1⟩ : Write) ∈
        handed cubeEnv paddedStore := by decide +kernel
    ext slot
    simp only [slotsSet, Set.mem_ofPred_eq, List.mem_cons, List.not_mem_nil, or_false,
      exists_eq_or_imp, exists_eq_left, hsame, or_self, Set.mem_singleton_iff]
    exact ⟨fun h => h.1, fun h => ⟨h, h ▸ hmem⟩⟩
  rw [hset, Set.ncard_singleton]

end Nvnmchain.Evmlayout
