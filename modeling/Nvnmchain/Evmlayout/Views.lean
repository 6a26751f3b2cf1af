import Nvnmchain.Evmlayout.Faithful
import Nvnmchain.Evmlayout.Groups
import Nvnmchain.Evmlayout.WriteOnce

/-!
# What the contract answers after the migration

The rest of the contract's state variables: the lists of registries under a name and under a checksum,
the two role tables and the count of a role's members, and the admin in the header. Read as Solidity
declares them, they answer what the store answers (`migration_views`): the lists are rising and
complete, a member is one whose bytes pad to the word that is asked for, and where addresses have one
length the contract's `hasRole` is the keeper's.

With the record store this is every variable of the contract. A role admin that is the zero hash reads
as none.
-/

set_option autoImplicit false

namespace Nvnmchain.Evmlayout

open Go (Bytes str)
open Eth (Hash bytesToHash bytesToAddress putUint64)
open Solidity
open Collections
open Runs (Groups)

/-! ## Slots and readers -/

/-- `registriesByName[name]`. -/
def nameListSlot (name : Bytes) : Slot := .elem (stateVar slotRegistriesByName) name 0

/-- `registriesByChecksum[checksum]`. -/
def checksumListSlot (c : Bytes) : Slot := .elem (stateVar slotRegistriesByChecksum) c 0

/-- `roleAdmin[role]`. -/
def roleAdminSlot (role : Role) : Slot := .elem (stateVar slotRoleAdmin) role.bytes 0

/-- A rising list of the ids with a property. -/
structure Lists (l : List UInt64) (P : UInt64 → Prop) : Prop where
  rising : l.Pairwise (· < ·)
  mem : ∀ r, r ∈ l ↔ P r

/-- The contract answers as the store does, for a folded name, a checksum, a role and an account. -/
structure Answers (keccak : Bytes → Hash) (st : Storage) (s : Store) (admin name c : Bytes)
    (role : Role) (account : Bytes) : Prop where
  names : Lists (readUint64s keccak st (nameListSlot name)) fun r =>
    ∃ registry, s.registries[r]? = some registry ∧ asciiLower registry.name = name
  checksums : Lists (readUint64s keccak st (checksumListSlot c)) fun r =>
    (r, c) ∈ s.recordIdByRegistryAndChecksum
  roleAdmin : st.load ((roleAdminSlot role).address keccak) =
    (s.rbac.roleAdmins[role]?.map bytesToHash).getD .zero
  member : st.loadBool ((memberSlot role account).address keccak) 0 = true ↔
    ∃ member, (role, member) ∈ s.rbac.roleMembers ∧ bytesToHash member = bytesToHash account
  memberCount : readUint64 keccak st (memberCountSlot role) 0 = .ofNat (members s role).length
  admin : (st.load ((stateVar slotHeader).address keccak)).slice 12 20 = bytesToAddress admin

/-- The slots that are read for them. -/
def slotsAsked (name c : Bytes) (role : Role) (account : Bytes) : List Slot :=
  [nameListSlot name, checksumListSlot c, roleAdminSlot role, memberSlot role account,
    memberCountSlot role, stateVar slotHeader]

/-- The slots in play when they are read in a migrated store. -/
def slotsViewed (s : Store) (name c : Bytes) (role : Role) (account : Bytes) : List Slot :=
  (storeSlots s ++ slotsAsked name c role account).flatMap Slot.chain

/-! ## Rows of one entry -/

section Shown

variable {keccak : Bytes → Hash} {s : Store} {admin : Bytes} {count : UInt64} {slots : List Slot}

/-- **The storage shows the one entry of a place.** Every row at the place is the entry's, and there is
one unless the entry is empty. -/
theorem shows_single (hplaced : Placed keccak layout (storeCells s admin count) slots) {p : Slot}
    {key : Bytes} {x : Entry} (hdeclared : (Slot.elem p key 0).Declared layout)
    (hchain : (Slot.elem p key 0).chain ⊆ slots)
    (honly : ∀ row ∈ storeRows s, row.place = (p, key) → row = ⟨p, key, [x]⟩)
    (hin : ⟨p, key, [x]⟩ ∈ storeRows s ∨ x = .empty) :
    Shows keccak (storageOf keccak (storeCells s admin count)) (.elem p key 0) x := by
  have hcell : ∀ c ∈ storeCells s admin count, c.1.owner = some (p, key) →
      ⟨p, key, [x]⟩ ∈ storeRows s ∧ c ∈ (Row.mk p key [x]).cells := by
    intro c hc howner
    rcases mem_storeCells.mp hc with rfl | ⟨row, hrow, hcrow⟩
    · cases howner
    · rw [Row.owner_of_mem hcrow] at howner
      have hsame := honly row hrow (Option.some.inj howner)
      exact ⟨hsame ▸ hrow, hsame ▸ hcrow⟩
  have hshown (hmem : ⟨p, key, [x]⟩ ∈ storeRows s) :
      Shows keccak (storageOf keccak (storeCells s admin count)) (.elem p key 0) x := by
    have hcells : (Row.mk p key [x]).cells ⊆ storeCells s admin count :=
      fun c hc => mem_storeCells.mpr (.inr ⟨_, hmem, hc⟩)
    exact hplaced.shows_row hcells (fun c hc howner => (hcell c hc howner).2) rfl
  rcases hin with hmem | rfl
  · exact hshown hmem
  · by_cases hmem : ⟨p, key, [.empty]⟩ ∈ storeRows s
    · exact hshown hmem
    · exact hplaced.shows_empty hchain hdeclared fun c hc howner => hmem (hcell c hc howner).1

/-- What a row of the lists and of the role admins is. -/
def ListKind (s : Store) (row : Row) : Prop :=
  match row.parent.root with
  | 0 => ∃ e ∈ s.rbac.roleAdmins.toList, row = roleAdminRow e.1 e.2
  | 9 => ∃ g ∈ Runs.runs (s.recordIdByChecksumAndRegistry.toList.map Prod.fst),
      row = idsRow slotRegistriesByChecksum g.1 g.2
  | 10 => ∃ g ∈ (idsByName s.registries.toList ∅).toList, row = idsRow slotRegistriesByName g.1 g.2
  | _ => True

/-- A row is a list of ids, or stands in no mapping of such lists. -/
theorem listKind_of_mem {row : Row} (h : row ∈ storeRows s) : ListKind s row := by
  simp only [storeRows, rowsBefore, rowsAfter, List.mem_append, List.mem_map, List.mem_flatMap] at h
  rcases h with (((((⟨e, -, rfl⟩ | ⟨e, he, rfl⟩) | ⟨e, -, rfl⟩) | ⟨e, -, rfl⟩) | ⟨e, -, rfl⟩) |
    ⟨e, -, rfl⟩) | (⟨g, hg, rfl⟩ | ⟨e, he, rfl⟩) | ⟨g, -, hrow⟩
  · trivial
  · exact ⟨e, he, rfl⟩
  · trivial
  · trivial
  · trivial
  · trivial
  · exact ⟨g, hg, rfl⟩
  · exact ⟨e, he, rfl⟩
  · rw [roleRows, List.mem_append, List.mem_map, List.mem_singleton] at hrow
    rcases hrow with ⟨account, -, rfl⟩ | rfl
    · trivial
    · trivial

/-! ## Lists of ids -/

theorem idsEntry_nil : idsEntry [] = .empty := congrArg (Entry.mk · []) (by decide)

/-- Ids that are not zero are fewer than `2^64`. -/
theorem length_lt_of_nonzero {l : List UInt64} (hrising : l.Pairwise (· < ·)) (h : (0 : UInt64) ∉ l) :
    l.length < 2 ^ 64 := by
  have hnodup : (0 :: l).Nodup := List.nodup_cons.mpr ⟨h, hrising.imp fun hlt e => by
    rw [e] at hlt
    exact absurd hlt (UInt64.lt_irrefl _)⟩
  have hle := length_le_of_nodup hnodup
  rw [List.length_cons] at hle
  omega

/-- **A table of lists reads as the groups it was filled with.** -/
theorem lists_group (hplaced : Placed keccak layout (storeCells s admin count) slots) {slot : UInt64}
    {rel : Bytes → UInt64 → Prop} {groups : List (Bytes × List UInt64)}
    (hgroups : Groups (· < ·) rel groups)
    (hkind : ∀ row ∈ storeRows s, row.parent = stateVar slot → ∃ g ∈ groups, row = idsRow slot g.1 g.2)
    (hrows : ∀ g ∈ groups, idsRow slot g.1 g.2 ∈ storeRows s) (hnonzero : ∀ a r, rel a r → r ≠ 0)
    (hty : (stateVar slot).ty layout = some (.mapping [.dynamic])) {key : Bytes}
    (hchain : (Slot.elem (stateVar slot) key 0).chain ⊆ slots) :
    Lists (readUint64s keccak (storageOf keccak (storeCells s admin count))
      (.elem (stateVar slot) key 0)) (rel key) := by
  have hdeclared : (Slot.elem (stateVar slot) key 0).Declared layout := by
    refine ⟨.dynamic, ?_⟩
    rw [Slot.ty, hty]
    rfl
  by_cases hkey : ∃ g ∈ groups, g.1 = key
  · obtain ⟨⟨_, ids⟩, hg, rfl⟩ := hkey
    have hshows := @shows_single _ _ _ _ _ hplaced (stateVar slot) _ (idsEntry ids) hdeclared hchain
      (fun row hrow hplace => by
        obtain ⟨hparent, hkey⟩ := Prod.mk.inj hplace
        obtain ⟨g, hg', rfl⟩ := hkind row hrow hparent
        -- one list for each key
        rw [List.inj_on_of_nodup_map hgroups.keys hg' hg hkey]
        rfl) (.inl (hrows _ hg))
    have hrising := hgroups.rising _ hg
    have hzero : (0 : UInt64) ∉ ids := fun h => hnonzero _ 0 ((hgroups.mem _ hg 0).mp h) rfl
    rw [readUint64s_eq hshows (length_lt_of_nonzero hrising hzero)]
    exact ⟨hrising, hgroups.mem _ hg⟩
  · have hshows := @shows_single _ _ _ _ _ hplaced (stateVar slot) _ (idsEntry []) hdeclared hchain
      (fun row hrow hplace => by
        obtain ⟨hparent, hkey'⟩ := Prod.mk.inj hplace
        obtain ⟨g, hg', rfl⟩ := hkind row hrow hparent
        exact absurd ⟨g, hg', hkey'⟩ hkey) (.inr idsEntry_nil)
    rw [readUint64s_eq hshows (by decide)]
    refine ⟨.nil, fun r => ⟨fun h => absurd h List.not_mem_nil, fun h => ?_⟩⟩
    exact absurd ((hgroups.present key).mpr ⟨r, h⟩) hkey

/-- No registry has the id zero. -/
theorem ne_zero_of_registry (h : StoreInv s) {r : UInt64} (hr : r ∈ s.registries) : r ≠ 0 := by
  obtain ⟨n, -, hdense⟩ := h.registries
  rintro rfl
  exact absurd ((hdense 0).mp hr).1 (by decide)

/-- The list under a name has the registries of that name, rising. -/
theorem lists_names (hplaced : Placed keccak layout (storeCells s admin count) slots) (h : StoreInv s)
    {name : Bytes} (hchain : (nameListSlot name).chain ⊆ slots) :
    Lists (readUint64s keccak (storageOf keccak (storeCells s admin count)) (nameListSlot name))
      fun r => ∃ registry, s.registries[r]? = some registry ∧ asciiLower registry.name = name := by
  refine lists_group hplaced (groups_idsByName s) (fun row hrow hparent => ?_) (fun g hg => ?_)
    (fun _ r hr => ?_) rfl hchain
  · have hkind := listKind_of_mem hrow
    rw [ListKind, hparent] at hkind
    exact hkind
  · simp only [storeRows, rowsBefore, List.mem_append]
    exact .inl (.inl (.inl (.inl (.inl (.inr (List.mem_map.mpr ⟨g, hg, rfl⟩))))))
  · obtain ⟨registry, hget, -⟩ := hr
    exact ne_zero_of_registry h (Map.mem_of_get? hget)

/-- The list under a checksum has the registries that hold it, rising. -/
theorem lists_checksums (hplaced : Placed keccak layout (storeCells s admin count) slots)
    (h : StoreInv s) {c : Bytes} (hchain : (checksumListSlot c).chain ⊆ slots) :
    Lists (readUint64s keccak (storageOf keccak (storeCells s admin count)) (checksumListSlot c))
      fun r => (r, c) ∈ s.recordIdByRegistryAndChecksum := by
  have hrel : ∀ c r, (c, r) ∈ s.recordIdByChecksumAndRegistry ↔
      (r, c) ∈ s.recordIdByRegistryAndChecksum := by
    intro c r
    rw [Map.mem_iff, Map.mem_iff, h.swapped]
  have hruns := Runs.groups_runs_toList s.recordIdByChecksumAndRegistry
  have hgroups : Groups (· < ·) (fun c r => (c, r) ∈ s.recordIdByChecksumAndRegistry)
      (Runs.runs (s.recordIdByChecksumAndRegistry.toList.map Prod.fst)) :=
    ⟨hruns.keys, fun g hg => (hruns.rising g hg).imp Std.compare_eq_lt.mp, hruns.mem, hruns.present⟩
  have hlists : Lists (readUint64s keccak (storageOf keccak (storeCells s admin count))
      (checksumListSlot c)) fun r => (c, r) ∈ s.recordIdByChecksumAndRegistry := by
    refine lists_group hplaced hgroups (fun row hrow hparent => ?_) (fun g hg => ?_)
      (fun c r hr => ?_) rfl hchain
    · have hkind := listKind_of_mem hrow
      rw [ListKind, hparent] at hkind
      exact hkind
    · simp only [storeRows, rowsAfter, List.mem_append]
      exact .inr (.inl (.inl (List.mem_map.mpr ⟨g, hg, rfl⟩)))
    · -- an indexed checksum is of a record, and a record is of a registry
      obtain ⟨k, hk⟩ := Map.mem_iff.mp ((hrel c r).mp hr)
      obtain ⟨n, hn, -⟩ := (h.indices r k).mp ((h.numbered r k).mp ⟨c, hk⟩)
      exact ne_zero_of_registry h ((h.counts r).mp (Map.mem_of_get? hn))
  exact ⟨hlists.rising, fun r => (hlists.mem r).trans (hrel c r)⟩

/-! ## Roles -/

/-- The word of a role admin is the keeper's entry, or zero. -/
theorem load_roleAdmin (hplaced : Placed keccak layout (storeCells s admin count) slots) {role : Role}
    (hchain : (roleAdminSlot role).chain ⊆ slots) :
    (storageOf keccak (storeCells s admin count)).load ((roleAdminSlot role).address keccak) =
      (s.rbac.roleAdmins[role]?.map bytesToHash).getD .zero := by
  refine (shows_single hplaced (x := .value _) ⟨.value, rfl⟩ hchain (fun row hrow hplace => ?_) ?_).head
  · obtain ⟨hparent, hkey⟩ := Prod.mk.inj hplace
    have hkind := listKind_of_mem hrow
    have hroot : row.parent.root = 0 := congrArg Slot.root hparent
    rw [ListKind, hroot] at hkind
    obtain ⟨e, he, rfl⟩ := hkind
    cases Hash.ext_bytes hkey
    rw [Std.ExtTreeMap.mem_toList_iff_getElem?_eq_some.mp he]
    rfl
  · cases hget : s.rbac.roleAdmins[role]? with
    | none => exact .inr rfl
    | some adminRole =>
      left
      have hmem := Std.ExtTreeMap.mem_toList_iff_getElem?_eq_some.mpr hget
      simp only [storeRows, rowsAfter, List.mem_append]
      exact .inr (.inl (.inr (List.mem_map.mpr ⟨_, hmem, rfl⟩)))

/-- A member's slot holds 1 where a member pads to its word. -/
theorem load_member (hplaced : Placed keccak layout (storeCells s admin count) slots) {role : Role}
    {account : Bytes} (hchain : (memberSlot role account).chain ⊆ slots) :
    (storageOf keccak (storeCells s admin count)).load ((memberSlot role account).address keccak) =
      if bytesToHash account ∈ (members s role).map bytesToHash then word 1 else .zero := by
  generalize hx : (if bytesToHash account ∈ (members s role).map bytesToHash then word 1 else Hash.zero) = x
  refine (shows_single hplaced (x := .value x) ⟨.value, rfl⟩ hchain (fun row hrow hplace => ?_) ?_).head
  · obtain ⟨hparent, hkey⟩ := Prod.mk.inj hplace
    have hkind := (storeRow_of_mem hrow).kind
    have hroot : row.parent.root = 1 := congrArg Slot.root hparent
    rw [RowKind, hroot] at hkind
    obtain ⟨role', member, hmember, rfl⟩ := hkind
    cases Hash.ext_bytes (Slot.elem.inj hparent).2.1
    have hhash : bytesToHash member = bytesToHash account := Hash.ext_bytes hkey
    have hin := List.mem_map_of_mem (f := bytesToHash) (mem_members.mpr hmember)
    rw [hhash] at hin
    rw [if_pos hin] at hx
    rw [roleMemberRow, hhash, hx]
  · split at hx
    · rename_i hin
      obtain ⟨member, hmember, hhash⟩ := List.mem_map.mp hin
      have hrow : roleMemberRow role member ∈ storeRows s :=
        mem_storeRows_of_role hmember (List.mem_append_left _ (List.mem_map_of_mem hmember))
      rw [roleMemberRow, hhash, hx] at hrow
      exact .inl hrow
    · rw [← hx]
      exact .inr rfl

/-- A `bool` is set when its word is one. -/
theorem slice_ne_zero_iff {P : Prop} [Decidable P] :
    (if P then word 1 else Hash.zero).slice 31 1 ≠ [0] ↔ P := by
  split
  · rename_i h
    exact iff_of_true (by decide) h
  · rename_i h
    exact iff_of_false (by decide) h

/-- The flag of a member is set where the keeper has a member with that padded address. -/
theorem loadBool_member (hplaced : Placed keccak layout (storeCells s admin count) slots) {role : Role}
    {account : Bytes} (hchain : (memberSlot role account).chain ⊆ slots) :
    (storageOf keccak (storeCells s admin count)).loadBool ((memberSlot role account).address keccak) 0 =
        true ↔
      ∃ member, (role, member) ∈ s.rbac.roleMembers ∧ bytesToHash member = bytesToHash account := by
  rw [Storage.loadBool, decide_eq_true_iff, load_member hplaced hchain, slice_ne_zero_iff, List.mem_map]
  simp only [mem_members]

/-! ## The header -/

theorem length_bytesToAddress (b : Bytes) : (bytesToAddress b).length = 20 := by
  rw [bytesToAddress, List.length_append, List.length_replicate, List.length_drop]
  omega

/-- The admin stands below the count. -/
theorem slice_headerWord (admin : Bytes) (count : UInt64) :
    (headerWord admin count).slice 12 20 = bytesToAddress admin := by
  have hlength := length_bytesToAddress admin
  have hself := @Hash.slice_copyInto_self .zero 12 (bytesToAddress admin) (by omega)
  rw [headerWord, Hash.slice_copyInto_after (by simp [Eth.length_putUint64])
    (by simp [Eth.length_putUint64])]
  rwa [hlength] at hself

/-- The header word is read where it was written. -/
theorem load_header (hplaced : Placed keccak layout (storeCells s admin count) slots) :
    (storageOf keccak (storeCells s admin count)).load ((stateVar slotHeader).address keccak) =
      headerWord admin count := by
  have hheader : headerCell admin count ∈ storeCells s admin count := mem_storeCells.mpr (.inl rfl)
  refine hplaced.load (hplaced.chains _ hheader) (hplaced.declared _ hheader) (fun c hc he => ?_)
    (.inl hheader)
  rcases mem_storeCells.mp hc with rfl | ⟨row, -, hc⟩
  · rfl
  · have howner := Row.owner_of_mem hc
    rw [he] at howner
    cases howner

end Shown

/-! ## The views -/

/-- Padding tells apart addresses of one length. -/
theorem bytesToHash_inj {a b : Bytes} (hlength : a.length = b.length) (hle : b.length ≤ 32)
    (h : bytesToHash a = bytesToHash b) : a = b := by
  have hbytes := congrArg Hash.bytes h
  simp only [bytesToHash, hlength, Nat.sub_eq_zero_of_le hle, List.drop_zero] at hbytes
  exact List.append_cancel_left hbytes

/-- **The contract's lists and roles are the store's.** The migration of a reachable store succeeds;
wherever the hashes in play do not collide, the contract answers for a name, a checksum, a role and an
account what the store does, and its `hasRole` is the keeper's where the members of the role have
addresses of one length. -/
theorem migration_views {env : Env} {s : Store} (h : Reachable env Set.univ s) :
    ∃ params admin writes, s.params = some params ∧
      env.accAddressFromBech32 params.admin = .ok admin ∧ migrate env s collect [] = .ok writes ∧
      ∀ (name c : Bytes) (role : Role) (account : Bytes),
        HashesApart env.keccak256 layout (slotsViewed s name c role account) →
        Answers env.keccak256 (written writes) s admin name c role account ∧
        ((∀ member ∈ members s role, member.length = account.length) → account.length ≤ 32 →
          (written writes).loadBool ((memberSlot role account).address env.keccak256) 0 =
            s.rbac.hasRole role account) := by
  have hinv := h.storeInv
  obtain ⟨count, hcount, hdense⟩ := hinv.registries
  obtain ⟨admin, hm⟩ := migratable_of_storedInv h.any.storedInv ⟨hcount, hdense⟩
  obtain ⟨params, hparams, hadmin⟩ := hm.admin
  refine ⟨params, admin, _, hparams, hadmin, migrate_collect hm, fun name c role account hapart => ?_⟩
  have hplaced : Placed env.keccak256 layout (storeCells s admin count)
      (slotsViewed s name c role account) := by
    refine placed_storeCells hapart (fun t ht => ?_) admin count
    rw [slotsViewed, List.flatMap_append]
    exact List.mem_append_left _ ht
  have hchain : ∀ t ∈ slotsAsked name c role account, t.chain ⊆ slotsViewed s name c role account :=
    fun t ht u hu => List.mem_flatMap.mpr ⟨t, List.mem_append_right _ ht, hu⟩
  have hmember := @loadBool_member _ _ _ _ _ hplaced role account (hchain _ (by simp [slotsAsked]))
  rw [written_kept]
  refine ⟨⟨?_, ?_, ?_, hmember, ?_, ?_⟩, fun hlength hle => ?_⟩
  · exact lists_names hplaced hinv (hchain _ (by simp [slotsAsked]))
  · exact lists_checksums hplaced hinv (hchain _ (by simp [slotsAsked]))
  · exact load_roleAdmin hplaced (hchain _ (by simp [slotsAsked]))
  · have hload := @load_memberCount env s admin count _ role hplaced (hchain _ (by simp [slotsAsked]))
    exact readUint64_eq ⟨hload, fun j w hw => by cases hw⟩
  · rw [load_header hplaced]
    exact slice_headerWord admin count
  · rw [Bool.eq_iff_iff, hmember, Rbac.hasRole_iff]
    constructor
    · rintro ⟨member, hin, hhash⟩
      rwa [← bytesToHash_inj (hlength member (mem_members.mpr hin)) hle hhash]
    · intro hin
      exact ⟨account, hin, rfl⟩

/-- The role of the admins of the first registry. -/
def deedsRole : Role := registryRole cubeEnv 1 roleAdmin

/-- The registry is listed under its name, and its creator is its one admin. -/
theorem migration_views_deeds :
    HashesApart cubeEnv.keccak256 layout (slotsViewed deedsStore (str "deeds") (str "c1") deedsRole [1]) ∧
      ∃ writes, migrate cubeEnv deedsStore collect [] = .ok writes ∧
        1 ∈ readUint64s cubeEnv.keccak256 (written writes) (nameListSlot (str "deeds")) ∧
        readUint64s cubeEnv.keccak256 (written writes) (checksumListSlot (str "c1")) = [] ∧
        (written writes).loadBool ((memberSlot deedsRole [1]).address cubeEnv.keccak256) 0 = true ∧
        readUint64 cubeEnv.keccak256 (written writes) (memberCountSlot deedsRole) 0 = 1 := by
  have hapart : HashesApart cubeEnv.keccak256 layout
      (slotsViewed deedsStore (str "deeds") (str "c1") deedsRole [1]) := by
    decide +kernel
  obtain ⟨params, admin, writes, -, -, hwrites, hviews⟩ := migration_views reachable_deedsStore
  obtain ⟨hanswers, hrole⟩ := hviews _ _ _ _ hapart
  refine ⟨hapart, writes, hwrites, ?_, ?_, ?_, ?_⟩
  · refine (hanswers.names.mem 1).mpr ?_
    have hname : (deedsStore.registries[(1 : UInt64)]?.map fun registry => asciiLower registry.name) =
        some (str "deeds") := by decide +kernel
    exact Option.map_eq_some_iff.mp hname
  · refine List.eq_nil_iff_forall_not_mem.mpr fun r hr => ?_
    have hnone : (deedsStore.recordIdByRegistryAndChecksum.toList.map (·.1.2)).contains (str "c1") =
        false := by decide +kernel
    obtain ⟨k, hk⟩ := Map.mem_iff.mp ((hanswers.checksums.mem r).mp hr)
    have hin := List.mem_map_of_mem (f := (·.1.2)) (Std.ExtTreeMap.mem_toList_iff_getElem?_eq_some.mpr hk)
    rw [List.contains_eq_mem, decide_eq_false_iff_not] at hnone
    exact hnone hin
  · rw [hrole (by decide +kernel) (by decide)]
    decide +kernel
  · rw [hanswers.memberCount]
    decide +kernel

end Nvnmchain.Evmlayout
