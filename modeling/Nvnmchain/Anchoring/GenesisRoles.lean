import Nvnmchain.Anchoring.GenesisValidate

/-!
# The role tables of a genesis

A genesis carries the two role tables as maps from strings, the bytes of a store key. `Validate` asks
only that a string is not empty. `InitGenesis` decodes it: an admin key is the last 32 bytes of its
string, padded on the left with zeros, and a member key is the first 32 bytes and the rest.

So the import can lose what `Validate` accepted. A member key shorter than a role is refused. Two
admin keys that end alike become one table entry, whose value is that of the key the range visits
last: the table then depends on the node. `roles_load_iff` says that nothing else goes wrong.
-/

set_option autoImplicit false

namespace Nvnmchain

open Go (Bytes str)
open Collections

/-! ## Keys that decode apart -/

/-- The last 32 bytes of a key, as if zeros stood before it. -/
def paddedTail (key : Bytes) : Bytes := (List.replicate 32 0 ++ key).drop key.length

/-- Two admin keys name one role just where their last 32 bytes, padded, agree. -/
theorem decodeRoleAdminKey_eq_iff {k k' : Bytes} :
    decodeRoleAdminKey k = decodeRoleAdminKey k' ↔ paddedTail k = paddedTail k' := by
  have hbytes : ∀ key : Bytes, (decodeRoleAdminKey key).bytes = paddedTail key := by
    intro key
    simp only [decodeRoleAdminKey, Eth.bytesToHash, paddedTail, List.drop_append,
      List.drop_replicate, List.length_replicate]
  rw [← hbytes, ← hbytes]
  exact ⟨fun h => congrArg Eth.Hash.bytes h, Eth.Hash.ext_bytes⟩

/-- A member key that holds a role is the role and the account, and nothing is cut off. -/
theorem memberOfKey_inj {k k' : Bytes} (hk : 32 ≤ k.length) (hk' : 32 ≤ k'.length)
    (h : memberOfKey k = memberOfKey k') : k = k' := by
  obtain ⟨hrole, haccount⟩ := Prod.mk.inj h
  have hbytes := congrArg Eth.Hash.bytes hrole
  rw [Eth.bytes_bytesToHash (List.length_take_of_le hk),
    Eth.bytes_bytesToHash (List.length_take_of_le hk')] at hbytes
  rw [← List.take_append_drop 32 k, hbytes, haccount, List.take_append_drop]

/-! ## What loading the tables asks -/

/-- The role maps of a genesis load: the import succeeds, it builds the same tables in every order of
its ranges, and no two keys of a map become one entry of its table. -/
structure GenesisState.RolesLoad (env : Env) (gs : GenesisState) : Prop where
  loads : ∀ order : GenesisOrder gs, ∃ s, initGenesis env gs order Store.empty = .ok s
  sameTables : ∀ (order order' : GenesisOrder gs) (s s' : Store),
    initGenesis env gs order Store.empty = .ok s →
      initGenesis env gs order' Store.empty = .ok s' → s.rbac = s'.rbac
  adminsApart : ∀ k k' : Bytes, k ∈ gs.roleAdmins → k' ∈ gs.roleAdmins →
    decodeRoleAdminKey k = decodeRoleAdminKey k' → k = k'
  membersApart : ∀ (k k' : Bytes) (entry : Role × Bytes), k ∈ gs.roleMembers → k' ∈ gs.roleMembers →
    decodeRoleMemberKey k = .ok entry → decodeRoleMemberKey k' = .ok entry → k = k'
  sizes : ∀ (order : GenesisOrder gs) (s : Store), initGenesis env gs order Store.empty = .ok s →
    s.rbac.roleAdmins.size = gs.roleAdmins.size ∧ s.rbac.roleMembers.size = gs.roleMembers.size

/-- **The role maps of a valid genesis load exactly when their keys decode apart.** Every checksum has
to encode as a key, every member key to hold a role, and no two admin keys may end in the same 32
bytes. -/
theorem roles_load_iff {env : Env} {gs : GenesisState} {order : GenesisOrder gs}
    (hvalid : gs.validate env order = .ok ()) :
    gs.RolesLoad env ↔ (∀ record ∈ gs.records, (0 : UInt8) ∉ record.checksum) ∧
      (∀ k ∈ gs.roleMembers, 32 ≤ k.length) ∧
      ∀ k ∈ gs.roleAdmins, ∀ k' ∈ gs.roleAdmins, k ≠ k' → paddedTail k ≠ paddedTail k' := by
  have hv := validate_eq_ok.mp hvalid
  constructor
  · intro h
    obtain ⟨s, hs⟩ := h.loads order
    obtain ⟨hload, hlong, _⟩ := initGenesis_eq_ok.mp hs
    refine ⟨hload.recordEncodes, fun k hk => ?_, fun k hk k' hk' hne htail => ?_⟩
    · obtain ⟨v, hv⟩ := Map.mem_iff.mp hk
      exact hlong k v hv
    · exact hne (h.adminsApart k k' hk hk' (decodeRoleAdminKey_eq_iff.mpr htail))
  · rintro ⟨hencodes, hlong, htails⟩
    have hadmins : Set.InjOn decodeRoleAdminKey {k | k ∈ gs.roleAdmins} := by
      intro k hk k' hk' hkey
      by_contra hne
      exact htails k hk k' hk' hne (decodeRoleAdminKey_eq_iff.mp hkey)
    have hmembers : Set.InjOn memberOfKey {k | k ∈ gs.roleMembers} :=
      fun k hk k' hk' hkey => memberOfKey_inj (hlong k hk) (hlong k' hk') hkey
    have hstore : ∀ (order : GenesisOrder gs) (s : Store),
        initGenesis env gs order Store.empty = .ok s ↔ s = gs.imported order := by
      intro order s
      rw [initGenesis_eq_ok]
      exact ⟨fun h => h.2.2, fun h => ⟨hv.loadable hencodes,
        fun k v hk => hlong k (Map.mem_of_get? hk), h⟩⟩
    refine ⟨fun order => ⟨_, (hstore order _).mpr rfl⟩, ?_, fun k k' hk hk' e => hadmins hk hk' e, ?_, ?_⟩
    · intro order order' s s' hs hs'
      rw [(hstore order s).mp hs, (hstore order' s').mp hs']
      simp only [GenesisState.imported, order.roleAdmins.assign_congr order'.roleAdmins hadmins,
        order.roleMembers.assign_congr order'.roleMembers hmembers]
    · intro k k' entry hk hk' hentry hentry'
      obtain ⟨_, rfl⟩ := decodeRoleMemberKey_eq_ok.mp hentry
      exact hmembers hk hk' (decodeRoleMemberKey_eq_ok.mp hentry').2
    · intro order s hs
      rw [(hstore order s).mp hs]
      exact ⟨order.roleAdmins.size_assign hadmins, order.roleMembers.size_assign hmembers⟩

/-- The admin keys `01` and `02`, and a member key of 32 bytes and an account. -/
def roledGenesis : GenesisState where
  params := smallParams
  registries := ∅
  records := []
  roleAdmins := Map.assign Prod.fst Prod.snd ∅ [([1], [7]), ([2], [8])]
  roleMembers := Map.assign Prod.fst Prod.snd ∅ [(List.replicate 33 5, [])]

theorem roles_load_roledGenesis : roledGenesis.RolesLoad smallEnv := by
  have hvalid : roledGenesis.validate smallEnv (.sorted _) = .ok () := by decide +kernel
  refine (roles_load_iff hvalid).mpr ⟨nofun, ?_, ?_⟩
  · simp [roledGenesis, Map.mem_assign]
  · have hkeys : ∀ k ∈ roledGenesis.roleAdmins, k = [1] ∨ k = [2] := by
      simp [roledGenesis, Map.mem_assign, eq_comm]
    intro k hk k' hk' hne
    rcases hkeys k hk with rfl | rfl
    · rcases hkeys k' hk' with rfl | rfl
      · exact absurd rfl hne
      · decide
    · rcases hkeys k' hk' with rfl | rfl
      · decide
      · exact absurd rfl hne

/-! ## A genesis whose admin keys end alike -/

/-- Admin keys `01` and `00 01`, with different admin roles. -/
def aliasGenesis : GenesisState where
  params := smallParams
  registries := ∅
  records := []
  roleAdmins := Map.assign Prod.fst Prod.snd ∅ [([1], [7]), ([0, 1], [8])]
  roleMembers := ∅

/-- A member key of one byte. -/
def shortKeyGenesis : GenesisState where
  params := smallParams
  registries := ∅
  records := []
  roleAdmins := ∅
  roleMembers := Map.assign Prod.fst Prod.snd ∅ [([1], [])]

/-- `Validate` accepts both genesis states. The one's role table depends on the order of a range, and
the other is refused. -/
theorem roles_lost :
    aliasGenesis.validate smallEnv (.sorted _) = .ok () ∧
      (initGenesis smallEnv aliasGenesis (.sorted _) Store.empty).map (·.rbac.roleAdmins.toList) =
        .ok [(Eth.bytesToHash [1], [7])] ∧
      (initGenesis smallEnv aliasGenesis { GenesisOrder.sorted _ with roleAdmins := .reversed _ }
        Store.empty).map (·.rbac.roleAdmins.toList) = .ok [(Eth.bytesToHash [1], [8])] ∧
      shortKeyGenesis.validate smallEnv (.sorted _) = .ok () ∧
      (initGenesis smallEnv shortKeyGenesis (.sorted _) Store.empty).map (·.params) =
        .error (.text (str "buffer too small for non-terminal role decode: need 32, got 1")) := by
  decide +kernel

end Nvnmchain
