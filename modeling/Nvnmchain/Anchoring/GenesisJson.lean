import Nvnmchain.Anchoring.GenesisRoundTrip
import Nvnmchain.Lib.Utf8

/-!
# The genesis file

`AppModule.ExportGenesis` writes the exported genesis as JSON and `AppModule.InitGenesis` reads it
back. The JSON codec is outside the repository. It writes numbers, booleans and byte values so that
they read back as they were, and it writes a string with U+FFFD for every byte that is not part of a
UTF-8 sequence. A JSON object is a list of members in the order they are written; when two members
have one name, the last is read.

The role tables are exported under the raw bytes of their keys, as strings, so a role or an account
that is not UTF-8 does not come back. A member's key is decoded from its front and comes back exactly
when it is UTF-8. A role alone is decoded as the last 32 bytes of the string, which also restores a
role that is the end of a cut U+FFFD followed by UTF-8.
-/

set_option autoImplicit false

namespace Nvnmchain

open Go (Bytes str)
open Collections
open Utf8 (toValid)

/-! ## The JSON document -/

/-- A genesis file. -/
structure GenesisJSON where
  params : Params
  registries : List (UInt64 × Registry)
  records : List Record
  roleAdmins : List (Bytes × Bytes)
  roleMembers : List (Bytes × Bytes)

/-- `Params`, as its JSON reads. -/
def Params.json (p : Params) : Params := ⟨toValid p.admin⟩

/-- `Registry`, as its JSON reads. -/
def Registry.json (r : Registry) : Registry :=
  { r with
    name := toValid r.name
    description := toValid r.description
    creator := toValid r.creator
    createdAt := toValid r.createdAt
    metadata := toValid r.metadata }

/-- `Record`, as its JSON reads. -/
def Record.json (r : Record) : Record :=
  { r with
    uri := toValid r.uri
    checksum := toValid r.checksum
    checksumAlgo := toValid r.checksumAlgo
    metadata := toValid r.metadata
    timestamp := toValid r.timestamp
    status := toValid r.status }

/-- The order in which the members of each object are written. -/
structure JSONOrder (gs : GenesisState) where
  registries : Iteration gs.registries
  roleAdmins : Iteration gs.roleAdmins
  roleMembers : Iteration gs.roleMembers

/-- Every object in key order. -/
def JSONOrder.sorted (gs : GenesisState) : JSONOrder gs where
  registries := .sorted _
  roleAdmins := .sorted _
  roleMembers := .sorted _

/-- A `map<string, bytes>`, as its JSON object. -/
def stringMembers (l : List (Bytes × Bytes)) : List (Bytes × Bytes) :=
  l.map fun e => (toValid e.1, e.2)

/-- `cdc.MustMarshalJSON`. -/
def marshalJSON (gs : GenesisState) (order : JSONOrder gs) : GenesisJSON where
  params := gs.params.json
  registries := order.registries.entries.map fun e => (e.1, e.2.json)
  records := gs.records.map Record.json
  roleAdmins := stringMembers order.roleAdmins.entries
  roleMembers := stringMembers order.roleMembers.entries

/-- `cdc.MustUnmarshalJSON`. -/
def unmarshalJSON (doc : GenesisJSON) : GenesisState where
  params := doc.params
  registries := Map.assign Prod.fst Prod.snd ∅ doc.registries
  records := doc.records
  roleAdmins := Map.assign Prod.fst Prod.snd ∅ doc.roleAdmins
  roleMembers := Map.assign Prod.fst Prod.snd ∅ doc.roleMembers

namespace AppModule

/-- `AppModule.ExportGenesis`; the panic on an error is the error. -/
def exportGenesis (s : Store) (order : ∀ gs, JSONOrder gs) : Except Err GenesisJSON := do
  let genState ← Nvnmchain.exportGenesis s
  pure (marshalJSON genState (order genState))

/-- `AppModule.InitGenesis`; the panic on an error is the error. -/
def initGenesis (env : Env) (doc : GenesisJSON) (order : ∀ gs, GenesisOrder gs) (s : Store) :
    Except Err Store :=
  Nvnmchain.initGenesis env (unmarshalJSON doc) (order (unmarshalJSON doc)) s

end AppModule

/-! ## A role table through the file -/

section Table

variable {κ : Type} [Ord κ] [Std.TransOrd κ] [Std.LawfulEqOrd κ] {enc : κ → Bytes}
  {dec : Bytes → κ} {m : Map κ Bytes} (hdec : Function.LeftInverse dec enc)
  (write : Iteration (Map.assign (fun e => enc e.1) Prod.snd ∅ m.toList))
  (read : Iteration (Map.assign Prod.fst Prod.snd ∅ (stringMembers write.entries)))

include hdec

/-- What is read is an entry of the table under its repaired key. -/
theorem of_mem_read {e : Bytes × Bytes} (he : e ∈ read.entries) :
    ∃ k, m[k]? = some e.2 ∧ toValid (enc k) = e.1 := by
  rcases Map.get?_assign_cases (read.mem_entries.mp he) with ⟨_, hx, hkey, hval⟩ | ⟨_, hnone⟩
  · obtain ⟨⟨k', v⟩, hw, rfl⟩ := List.mem_map.mp hx
    obtain ⟨k, rfl, hk⟩ :=
      (Map.get?_encoded hdec.injective m).mp (write.mem_entries.mp hw)
    exact ⟨k, hval ▸ hk, hkey⟩
  · rw [Std.ExtTreeMap.getElem?_empty] at hnone
    cases hnone

/-- Every key of the table is read, repaired. -/
theorem exists_mem_read {k : κ} (hk : k ∈ m) : ∃ e ∈ read.entries, e.1 = toValid (enc k) := by
  obtain ⟨v, hv⟩ := Map.mem_iff.mp hk
  have hw : (enc k, v) ∈ write.entries :=
    write.mem_entries.mpr ((Map.get?_encoded hdec.injective m).mpr ⟨k, rfl, hv⟩)
  have hin : toValid (enc k) ∈ Map.assign Prod.fst Prod.snd ∅ (stringMembers write.entries) :=
    Map.mem_assign.mpr (.inl ⟨_, List.mem_map.mpr ⟨_, hw, rfl⟩, rfl⟩)
  obtain ⟨w, hw'⟩ := Map.mem_iff.mp hin
  exact ⟨(_, w), read.mem_entries.mpr hw', rfl⟩

/-- The keys of the loaded table. -/
theorem mem_loaded {k : κ} :
    k ∈ Map.assign (fun e => dec e.1) Prod.snd ∅ read.entries ↔
      ∃ k₀ ∈ m, dec (toValid (enc k₀)) = k := by
  rw [Map.mem_assign]
  simp only [Std.ExtTreeMap.not_mem_empty, or_false]
  constructor
  · rintro ⟨e, he, rfl⟩
    obtain ⟨k₀, hk₀, hkey⟩ := of_mem_read hdec write read he
    exact ⟨k₀, Map.mem_of_get? hk₀, hkey ▸ rfl⟩
  · rintro ⟨k₀, hk₀, rfl⟩
    obtain ⟨e, he, hkey⟩ := exists_mem_read hdec write read hk₀
    exact ⟨e, he, hkey ▸ rfl⟩

/-- A table whose keys all come back is loaded as it was. -/
theorem loaded_eq (hback : ∀ k ∈ m, dec (toValid (enc k)) = k) :
    Map.assign (fun e => dec e.1) Prod.snd ∅ read.entries = m := by
  refine Map.assign_eq (fun e he => ?_) fun k hk => ?_
  · obtain ⟨k, hk, hkey⟩ := of_mem_read hdec write read he
    rw [← hkey, hback k (Map.mem_of_get? hk)]
    exact hk
  · obtain ⟨e, he, hkey⟩ := exists_mem_read hdec write read hk
    exact ⟨e, he, hkey ▸ hback k hk⟩

end Table

/-! ## Role keys through the file -/

/-- The loaded role is cropped text. -/
theorem bytes_decode_toValid (role : Role) :
    (decodeRoleAdminKey (toValid (encodeRBACRoleAdminKey role))).bytes = Utf8.crop role.bytes := by
  have hlen := (Utf8.valid_toValid role.bytes).2
  rw [role.length_bytes] at hlen
  simp only [decodeRoleAdminKey, encodeRBACRoleAdminKey, Eth.bytesToHash, Utf8.crop,
    role.length_bytes, Nat.sub_eq_zero_of_le hlen, List.replicate_zero, List.nil_append]

/-- A table of roles comes back when each role is UTF-8, or follows the end of a cut U+FFFD. A role
that only another role is read as does not stay: cropping settles after two rounds. -/
theorem roleAdmins_loaded_iff {m : Map Role Bytes}
    (write : Iteration (Map.assign (fun e => encodeRBACRoleAdminKey e.1) Prod.snd ∅ m.toList))
    (read : Iteration (Map.assign Prod.fst Prod.snd ∅ (stringMembers write.entries))) :
    Map.assign (fun e => decodeRoleAdminKey e.1) Prod.snd ∅ read.entries = m ↔
      ∀ role ∈ m, Utf8.Cropped role.bytes := by
  constructor
  · intro heq role hrole
    have hback : ∀ role ∈ m, ∃ role₀ ∈ m, Utf8.crop role₀.bytes = role.bytes := by
      intro role hrole
      rw [← heq] at hrole
      obtain ⟨role₀, h₀, rfl⟩ := (mem_loaded decodeRoleAdminKey_encode write read).mp hrole
      exact ⟨role₀, h₀, (bytes_decode_toValid role₀).symm⟩
    obtain ⟨role₁, h₁, hcrop₁⟩ := hback role hrole
    obtain ⟨role₂, -, hcrop₂⟩ := hback role₁ h₁
    rw [← hcrop₁, ← hcrop₂]
    exact Utf8.cropped_crop_crop _
  · intro h
    refine loaded_eq decodeRoleAdminKey_encode write read fun role hrole => Eth.Hash.ext_bytes ?_
    rw [bytes_decode_toValid]
    exact (h role hrole).crop_eq

/-- A member key reads back as the bytes it was read from. -/
theorem encode_memberOfKey {b : Bytes} (h : 32 ≤ b.length) :
    encodeRBACRoleMemberKey (memberOfKey b) = b := by
  rw [encodeRBACRoleMemberKey, memberOfKey,
    Eth.bytes_bytesToHash (by rw [List.length_take, Nat.min_eq_left h]), List.take_append_drop]

/-- The repaired key of a member still holds a role. -/
theorem length_toValid_encode (key : Role × Bytes) :
    32 ≤ (toValid (encodeRBACRoleMemberKey key)).length :=
  Nat.le_trans (length_encodeRBACRoleMemberKey key) (Utf8.valid_toValid _).2

/-- A table of members comes back when each key is UTF-8. -/
theorem roleMembers_loaded_iff {m : Map (Role × Bytes) Bytes}
    (write : Iteration (Map.assign (fun e => encodeRBACRoleMemberKey e.1) Prod.snd ∅ m.toList))
    (read : Iteration (Map.assign Prod.fst Prod.snd ∅ (stringMembers write.entries))) :
    Map.assign (fun e => memberOfKey e.1) Prod.snd ∅ read.entries = m ↔
      ∀ key ∈ m, Utf8.Valid (encodeRBACRoleMemberKey key) := by
  constructor
  · intro heq key hkey
    rw [← heq] at hkey
    obtain ⟨key₀, -, rfl⟩ := (mem_loaded memberOfKey_encode write read).mp hkey
    rw [encode_memberOfKey (length_toValid_encode key₀)]
    exact (Utf8.valid_toValid _).1
  · intro h
    refine loaded_eq memberOfKey_encode write read fun key hkey => ?_
    rw [(h key hkey).toValid_eq, memberOfKey_encode]

/-! ## The round trip -/

/-- The registries and records of a store, as the file reads, pass the checks of the import. -/
def Store.FileLoadable (env : Env) (s : Store) (params : Params) : Prop :=
  GenesisState.Loadable env
    { params := params.json
      registries := Map.assign Prod.fst Prod.snd ∅
        (s.registries.toList.map fun e => (e.1, e.2.json))
      records := s.records.toList.map fun e => e.2.json
      roleAdmins := ∅
      roleMembers := ∅ }

/-- The conditions under which the role tables come back from the file. -/
structure Store.RolesSurvive (env : Env) (s : Store) : Prop where
  loadable : ∃ params, s.params = some params ∧ s.FileLoadable env params
  roleAdmins : ∀ role ∈ s.rbac.roleAdmins, Utf8.Cropped role.bytes
  roleMembers : ∀ key ∈ s.rbac.roleMembers, Utf8.Valid (encodeRBACRoleMemberKey key)

/-- The registries that are read do not depend on the order in which they were written. -/
theorem registries_read {m : Map UInt64 Registry} (write : Iteration m) :
    Map.assign Prod.fst Prod.snd ∅ (write.entries.map fun e => (e.1, e.2.json)) =
      Map.assign Prod.fst Prod.snd ∅ (m.toList.map fun e => (e.1, e.2.json)) := by
  refine Map.assign_eq (fun x hx => ?_) fun r hr => ?_
  · obtain ⟨⟨r, registry⟩, he, rfl⟩ := List.mem_map.mp hx
    refine Map.get?_assign_of_mem Prod.fst Prod.snd
      (List.mem_map.mpr ⟨(r, registry), write.perm.mem_iff.mp he, rfl⟩) fun y hy e => ?_
    obtain ⟨⟨r', registry'⟩, he', rfl⟩ := List.mem_map.mp hy
    cases (show r' = r from e)
    have hr' := Std.ExtTreeMap.mem_toList_iff_getElem?_eq_some.mp he'
    cases (write.mem_entries.mp he).symm.trans hr'
    rfl
  · rcases Map.mem_assign.mp hr with ⟨x, hx, rfl⟩ | hempty
    · obtain ⟨e, he, rfl⟩ := List.mem_map.mp hx
      exact ⟨_, List.mem_map.mpr ⟨e, write.perm.mem_iff.mpr he, rfl⟩, rfl⟩
    · exact absurd hempty Std.ExtTreeMap.not_mem_empty

/-- The import's checks of registries and records do not read the rest of the genesis. -/
theorem GenesisState.Loadable.congr {env : Env} {gs gs' : GenesisState}
    (hregistries : gs.registries = gs'.registries) (hrecords : gs.records = gs'.records)
    (h : gs.Loadable env) : gs'.Loadable env := by
  obtain ⟨_, _, _, _, _⟩ := gs
  obtain ⟨_, _, _, _, _⟩ := gs'
  cases hregistries
  cases hrecords
  exact ⟨h.registryKey, h.registryValid, h.recordValid, h.recordKnown, h.recordEncodes, h.recordKeys,
    h.oneLatest⟩

section RoundTrip

variable {env : Env} {s : Store} {params : Params}

/-- The genesis read from the file passes the checks exactly when the repaired store does. -/
theorem loadable_read_iff (write : JSONOrder (s.exported params)) :
    (unmarshalJSON (marshalJSON (s.exported params) write)).Loadable env ↔
      s.FileLoadable env params := by
  have hregistries : (unmarshalJSON (marshalJSON (s.exported params) write)).registries =
      Map.assign Prod.fst Prod.snd ∅ (s.registries.toList.map fun e => (e.1, e.2.json)) :=
    registries_read write.registries
  have hrecords : (unmarshalJSON (marshalJSON (s.exported params) write)).records =
      s.records.toList.map fun e => e.2.json := List.map_map
  exact ⟨fun h => h.congr hregistries hrecords, fun h => h.congr hregistries.symm hrecords.symm⟩

/-- The member keys of the file all hold a role. -/
theorem length_read_member (write : JSONOrder (s.exported params)) {k v : Bytes}
    (h : (unmarshalJSON (marshalJSON (s.exported params) write)).roleMembers[k]? = some v) :
    32 ≤ k.length := by
  obtain ⟨key, -, hkey⟩ := of_mem_read memberOfKey_encode write.roleMembers (.sorted _)
    ((Iteration.sorted _).mem_entries.mpr h)
  have hk : toValid (encodeRBACRoleMemberKey key) = k := hkey
  exact hk ▸ length_toValid_encode key

/-- The tables of the store built from the file. -/
theorem rbac_imported_iff (write : JSONOrder (s.exported params))
    (read : GenesisOrder (unmarshalJSON (marshalJSON (s.exported params) write))) :
    ((unmarshalJSON (marshalJSON (s.exported params) write)).imported read).rbac = s.rbac ↔
      (∀ role ∈ s.rbac.roleAdmins, Utf8.Cropped role.bytes) ∧
        ∀ key ∈ s.rbac.roleMembers, Utf8.Valid (encodeRBACRoleMemberKey key) := by
  rw [← roleAdmins_loaded_iff write.roleAdmins read.roleAdmins,
    ← roleMembers_loaded_iff write.roleMembers read.roleMembers]
  constructor
  · intro h
    exact ⟨congrArg Rbac.roleAdmins h, congrArg Rbac.roleMembers h⟩
  · rintro ⟨hadmins, hmembers⟩
    exact congrArg₂ Rbac.mk hadmins hmembers

/-- **The role tables come back from the genesis file** exactly when the file loads and the raw keys
of the tables are text: for every store, every order in which the file is written and every order in
which it is read. -/
theorem roles_survive_file_iff (env : Env) (s : Store) (write : ∀ gs, JSONOrder gs)
    (read : ∀ gs, GenesisOrder gs) :
    (∃ doc s', AppModule.exportGenesis s write = .ok doc ∧
      AppModule.initGenesis env doc read Store.empty = .ok s' ∧
      s'.rbac.roleAdmins = s.rbac.roleAdmins ∧ s'.rbac.roleMembers = s.rbac.roleMembers ∧
      ∀ role account, s'.rbac.hasRole role account = s.rbac.hasRole role account ∧
        s'.rbac.getRoleAdmin role = s.rbac.getRoleAdmin role) ↔ s.RolesSurvive env := by
  constructor
  · rintro ⟨doc, s', hexport, hload, hadmins, hmembers, -⟩
    obtain ⟨gs, hgs, hdoc⟩ := bind_eq_ok.mp hexport
    obtain ⟨params, hparams, -⟩ := bind_eq_ok.mp hgs
    rw [getOrNotFound_eq_ok] at hparams
    cases (exportGenesis_eq hparams).symm.trans hgs
    cases hdoc
    obtain ⟨hloadable, -, rfl⟩ := initGenesis_eq_ok.mp hload
    obtain ⟨hroles, hkeys⟩ := (rbac_imported_iff _ _).mp (congrArg₂ Rbac.mk hadmins hmembers)
    exact ⟨⟨params, hparams, (loadable_read_iff _).mp hloadable⟩, hroles, hkeys⟩
  · rintro ⟨⟨params, hparams, hloadable⟩, hroles, hkeys⟩
    have hback := (rbac_imported_iff (write (s.exported params)) (read _)).mpr ⟨hroles, hkeys⟩
    refine ⟨marshalJSON (s.exported params) (write _), _,
      bind_eq_ok.mpr ⟨_, exportGenesis_eq hparams, rfl⟩, initGenesis_eq_ok.mpr
        ⟨(loadable_read_iff _).mpr hloadable, fun k v => length_read_member _, rfl⟩, ?_⟩
    rw [hback]
    exact ⟨rfl, rfl, fun _ _ => ⟨rfl, rfl⟩⟩

end RoundTrip

/-! ## A registry that loses its admin -/

/-- The Keccak hash of `registry:1:admin`. Its sixth byte is no part of a UTF-8 sequence. -/
def registryOneAdmin : Role :=
  Eth.bytesToHash [0x6b, 0x3d, 0x72, 0x49, 0x13, 0xa5, 0xb5, 0x0b, 0x16, 0x76, 0x8e, 0x04, 0x13,
    0x1c, 0x59, 0x13, 0xe1, 0x1d, 0x02, 0x12, 0xe4, 0x49, 0xe3, 0xb6, 0x62, 0x0e, 0xb2, 0xe4, 0x00,
    0x0b, 0x3d, 0xb8]

/-- The small chain, with Keccak's own hash of the first registry's admin role. -/
def fileEnv : Env :=
  { smallEnv with
    keccak256 := fun name =>
      if name = registryRoleName 1 roleAdmin then registryOneAdmin else Eth.bytesToHash name }

/-- The store after account 1 has created a registry. -/
def fileStore : Store := runMsgs fileEnv (smallMsgs.take 1) (Store.initial smallParams)

/-- What a reload of a store through the file answers to the two role queries. -/
def reloadedRoles (env : Env) (s : Store) (role : Role) (account : Bytes) :
    Except Err (Bool × Except Err Role) := do
  let doc ← AppModule.exportGenesis s JSONOrder.sorted
  let s' ← AppModule.initGenesis env doc GenesisOrder.sorted Store.empty
  pure (s'.rbac.hasRole role account, s'.rbac.getRoleAdmin role)

/-- The reload succeeds, and the creator of the registry is no longer its admin; nor is the admin
role configured. -/
theorem fileStore_loses_admin :
    fileStore.rbac.hasRole registryOneAdmin [1] = true ∧
      fileStore.rbac.getRoleAdmin registryOneAdmin = .ok registryOneAdmin ∧
      reloadedRoles fileEnv fileStore registryOneAdmin [1] =
        .ok (false, .error (.wrap (.sentinel .roleAdminNotConfigured)
          (str "role " ++ registryOneAdmin.hex))) := by
  decide +kernel

end Nvnmchain
