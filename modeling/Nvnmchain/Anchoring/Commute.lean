import Nvnmchain.Lib.Lockstep
import Nvnmchain.Anchoring.Isolation

/-!
# Messages on different registries commute

Adding a record, setting a status, granting and revoking a role each name one registry. What such a
message reads and what it writes both belong to that registry.

- **Reads.** On two stores that agree on the registry and on the params, the message runs in lockstep:
  the same error, or the same answer and stores that still agree (`handle_lockstep`).
- **Writes.** The message leaves everything outside the registry as it was (`onlyRegistry_deliver`).

So two messages on different registries meet the same data in either order and never overwrite each
other (`messages_commute`). Roles are hashes, and the two role tables are shared. Which registry a role
belongs to is known only for the names the run and the two messages use, where the hash tells names
apart. A revocation also follows the admin role that the table names; over a run that is the
registry's own.
-/

set_option autoImplicit false

namespace Nvnmchain

open Go (Bytes str)
open Collections

/-! ## What a message names -/

/-- The registry a message on a registry's contents names; other messages name none. -/
def Msg.registry? : Msg → Option UInt64
  | .addRecord (some m) => m.record.map (·.registryId)
  | .updateRecordStatus (some m) => some m.registryId
  | .grantRole (some m) => some m.registryId
  | .revokeRole (some m) => some m.registryId
  | _ => none

/-! ## Reads -/

namespace SameRegistry

variable {env : Env} {names : Set Bytes} {r : UInt64} {s t : Store}

theorem symm (h : SameRegistry env names r s t) : SameRegistry env names r t s where
  registry := h.registry.symm
  count := h.count.symm
  records k i := (h.records k i).symm
  indices k := (h.indices k).symm
  byRegistry c := (h.byRegistry c).symm
  byChecksum c := (h.byChecksum c).symm
  roleAdmins name hn hs := (h.roleAdmins name hn hs).symm
  roleMembers name hn hs a := (h.roleMembers name hn hs a).symm

/-- Whoever holds a role of the registry in one store holds it in the other. -/
theorem hasRole (h : SameRegistry env names r s t) {name : Bytes} (hname : name ∈ names)
    (hscope : ScopedTo r name) (account : Bytes) :
    t.rbac.hasRole (newRoleHash env name) account = s.rbac.hasRole (newRoleHash env name) account := by
  simp only [Rbac.hasRole, Std.ExtTreeMap.contains_eq_isSome_getElem?,
    h.roleMembers name hname hscope account]

/-- A permission check at the registry gives the same result. -/
theorem checkPermission (h : SameRegistry env names r s t) {checksum : Bytes}
    (hnames : ∀ name ∈ permissionNames r checksum, name ∈ names) (sender : Bytes) :
    checkPermission env t sender r checksum [roleAdmin, roleEditor] =
      checkPermission env s sender r checksum [roleAdmin, roleEditor] := by
  have hrecord : ∀ role ∈ [roleAdmin, roleEditor],
      t.rbac.hasRole (recordRole env r checksum role) sender =
        s.rbac.hasRole (recordRole env r checksum role) sender := by
    intro role hrole
    refine h.hasRole (hnames _ ?_) (.record checksum role) sender
    rcases List.mem_pair.mp hrole with rfl | rfl <;> simp [permissionNames]
  have hregistry : ∀ role ∈ [roleAdmin, roleEditor],
      t.rbac.hasRole (registryRole env r role) sender =
        s.rbac.hasRole (registryRole env r role) sender := by
    intro role hrole
    refine h.hasRole (hnames _ ?_) (.registry role) sender
    rcases List.mem_pair.mp hrole with rfl | rfl <;> simp [permissionNames]
  have hrecords : checkRecordRoles env t sender r checksum [roleAdmin, roleEditor] =
      checkRecordRoles env s sender r checksum [roleAdmin, roleEditor] := by
    simp only [checkRecordRoles, List.any_cons, List.any_nil, hrecord _ List.mem_cons_self,
      hrecord _ (List.mem_cons_of_mem _ List.mem_cons_self)]
  have hregistries : checkRegistryRoles env t sender r [roleAdmin, roleEditor] =
      checkRegistryRoles env s sender r [roleAdmin, roleEditor] := by
    simp only [checkRegistryRoles, List.any_cons, List.any_nil, hregistry _ List.mem_cons_self,
      hregistry _ (List.mem_cons_of_mem _ List.mem_cons_self)]
  simp only [Nvnmchain.checkPermission, hrecords, hregistries]

/-- The scope of a role of the registry exists in both stores or in neither. -/
theorem ensureRoleScopeExists (h : SameRegistry env names r s t) (checksum : Bytes) :
    MsgServer.ensureRoleScopeExists t r checksum = MsgServer.ensureRoleScopeExists s r checksum := by
  simp only [MsgServer.ensureRoleScopeExists, Std.ExtTreeMap.contains_eq_isSome_getElem?, h.registry,
    h.byChecksum]

/-- The members of a role are as many. -/
theorem isSoleAdmin (h : SameRegistry env names r s t) {name : Bytes} (hname : name ∈ names)
    (hscope : ScopedTo r name) :
    t.rbac.isSoleAdmin (newRoleHash env name) = s.rbac.isSoleAdmin (newRoleHash env name) := by
  have hnodup : ∀ m : Map (Role × Bytes) Bytes, (m.prefixed (newRoleHash env name)).Nodup := fun m =>
    (List.Nodup.of_map Prod.fst (by
      rw [Std.ExtTreeMap.map_fst_toList_eq_keys]; exact Std.ExtTreeMap.nodup_keys)).filter _
  have hperm : (t.rbac.roleMembers.prefixed (newRoleHash env name)).Perm
      (s.rbac.roleMembers.prefixed (newRoleHash env name)) := by
    refine (List.perm_ext_iff_of_nodup (hnodup _) (hnodup _)).mpr ?_
    rintro ⟨⟨role, account⟩, v⟩
    simp only [Map.prefixed, List.mem_filter, decide_eq_true_eq,
      Std.ExtTreeMap.mem_toList_iff_getElem?_eq_some]
    refine and_congr_left fun hrole => ?_
    rw [hrole, h.roleMembers name hname hscope account]
  rw [Rbac.isSoleAdmin_eq, Rbac.isSoleAdmin_eq, hperm.length_eq]

end SameRegistry

/-- A guarded operation reads the role's admin, and whether the caller holds it. -/
theorem requireRoleAdmin_congr (env : Env) {k k' : Rbac} {role : Role} (caller : Bytes)
    (hadmin : k'.roleAdmins[role]? = k.roleAdmins[role]?)
    (hcaller : ∀ bz, k.roleAdmins[role]? = some bz →
      k'.hasRole (Eth.bytesToHash bz) caller = k.hasRole (Eth.bytesToHash bz) caller) :
    k'.requireRoleAdmin env role caller = k.requireRoleAdmin env role caller := by
  unfold Rbac.requireRoleAdmin Rbac.getRoleAdmin
  rw [hadmin]
  cases hbz : k.roleAdmins[role]? with
  | none => rfl
  | some bz => exact congrArg (require · _) (hcaller bz hbz)

/-! ## Lockstep -/

section Handlers

variable {env : Env} {names : Set Bytes} {r : UInt64} {s t : Store}

/-- The same answer, and stores that agree on a registry. -/
def SameAnswer (env : Env) (names : Set Bytes) (r : UInt64) {α : Type} (p q : α × Store) : Prop :=
  p.1 = q.1 ∧ SameRegistry env names r p.2 q.2

/-- A checksum gets the same record id in both stores. -/
theorem assignRecordId_lockstep (h : SameRegistry env names r s t) (checksum : Bytes) :
    Lockstep (SameAnswer env names r) (s.assignRecordId r checksum) (t.assignRecordId r checksum) := by
  unfold Store.assignRecordId
  rw [h.byRegistry]
  cases s.recordIdByRegistryAndChecksum[(r, checksum)]? with
  | some recordId => exact .ok ⟨rfl, h⟩
  | none =>
    dsimp only
    rw [h.count]
    refine .bind_same _ fun count _ => .bind_same _ fun _ _ => .ok ⟨rfl, ?_⟩
    exact
      { registry := h.registry
        count := Map.get?_insert_congr h.count _ _
        records := h.records
        indices := h.indices
        byRegistry := fun c => Map.get?_insert_congr (h.byRegistry c) _ _
        byChecksum := fun c => Map.get?_insert_congr (h.byChecksum c) _ _
        roleAdmins := h.roleAdmins
        roleMembers := h.roleMembers }

/-- One record written to both stores. -/
theorem SameRegistry.insertRecord (h : SameRegistry env names r s t) (key : UInt64 × UInt64 × UInt64)
    (record : Record) :
    SameRegistry env names r { s with records := s.records.insert key record }
      { t with records := t.records.insert key record } :=
  { h with records := fun k i => Map.get?_insert_congr (h.records k i) _ _ }

/-- A version is stored alike in both stores. -/
theorem storeVersion_lockstep (h : SameRegistry env names r s t) (ctx : Ctx) (recordId : UInt64)
    {record : Record} (hr : record.registryId = r) :
    Lockstep (SameRegistry env names r) (s.storeVersion ctx recordId record)
      (t.storeVersion ctx recordId record) := by
  subst hr
  have hnext : t.nextIndex record.registryId recordId = s.nextIndex record.registryId recordId := by
    simp only [Store.nextIndex, h.indices]
  unfold Store.storeVersion
  dsimp only
  rw [hnext]
  generalize s.nextIndex record.registryId recordId = index
  have hstored : SameRegistry env names record.registryId
      { s with
        recordIndices := s.recordIndices.insert (record.registryId, recordId) index
        records := s.records.insert (record.registryId, recordId, index)
          (record.versioned ctx recordId index) }
      { t with
        recordIndices := t.recordIndices.insert (record.registryId, recordId) index
        records := t.records.insert (record.registryId, recordId, index)
          (record.versioned ctx recordId index) } :=
    { h with
      records := fun k i => Map.get?_insert_congr (h.records k i) _ _
      indices := fun k => Map.get?_insert_congr (h.indices k) _ _ }
  split
  · have hprev := hstored.records recordId (index - 1)
    dsimp only [Record.versioned] at hprev
    rw [hprev]
    exact .bind_same _ fun prev _ => .ok (hstored.insertRecord _ _)
  · exact .ok hstored

/-- `Keeper.AddRecord` reads and writes its own registry only. -/
theorem addRecord_lockstep (h : SameRegistry env names r s t) (ctx : Ctx) (sender : Bytes)
    {record : Record} (hr : record.registryId = r)
    (hnames : ∀ name ∈ permissionNames r record.checksum, name ∈ names) :
    Lockstep (SameAnswer env names r) (s.addRecord env ctx sender record)
      (t.addRecord env ctx sender record) := by
  subst hr
  unfold Store.addRecord
  dsimp only
  refine .bind_same _ fun _ _ => ?_
  rw [h.registry]
  refine .bind_same _ fun _ _ => ?_
  rw [h.checkPermission hnames]
  refine .bind_same _ fun _ _ => ?_
  refine (assignRecordId_lockstep h record.checksum).bind ?_
  rintro ⟨recordId, s₁⟩ ⟨_, t₁⟩ ⟨rfl, h₁⟩
  exact (storeVersion_lockstep h₁ ctx recordId rfl).bind fun s₂ t₂ h₂ => .ok ⟨rfl, h₂⟩

/-- `Keeper.UpdateRecordStatus` reads and writes its own registry only. -/
theorem updateRecordStatus_lockstep (h : SameRegistry env names r s t) (sender : Bytes)
    (recordId index : UInt64) (status : Bytes)
    (hnames : ∀ record, s.records[(r, recordId, index)]? = some record →
      ∀ name ∈ permissionNames r record.checksum, name ∈ names) :
    Lockstep (SameRegistry env names r) (s.updateRecordStatus env sender r recordId index status)
      (t.updateRecordStatus env sender r recordId index status) := by
  unfold Store.updateRecordStatus
  refine .bind_same _ fun _ _ => ?_
  rw [h.records]
  refine .bind_same _ fun record hrecord => ?_
  rw [h.checkPermission (hnames record (getOrNotFound_eq_ok.mp hrecord))]
  exact .bind_same _ fun _ _ => .ok (h.insertRecord _ _)

/-- One role's admin set in both stores. -/
theorem SameRegistry.setRoleAdmin (h : SameRegistry env names r s t) (role adminRole : Role) :
    SameRegistry env names r { s with rbac := s.rbac.setRoleAdmin role adminRole }
      { t with rbac := t.rbac.setRoleAdmin role adminRole } :=
  { h with roleAdmins := fun name hn hs => Map.get?_insert_congr (h.roleAdmins name hn hs) _ _ }

/-- One role granted in both stores. -/
theorem SameRegistry.grantRoleUnchecked (h : SameRegistry env names r s t) (role : Role)
    (account : Bytes) :
    SameRegistry env names r { s with rbac := s.rbac.grantRoleUnchecked role account }
      { t with rbac := t.rbac.grantRoleUnchecked role account } :=
  { h with
    roleMembers := fun name hn hs a => Map.get?_insert_congr (h.roleMembers name hn hs a) _ _ }

/-- One role revoked in both stores. -/
theorem SameRegistry.revokeRoleUnchecked (h : SameRegistry env names r s t) (role : Role)
    (account : Bytes) :
    SameRegistry env names r { s with rbac := s.rbac.revokeRoleUnchecked role account }
      { t with rbac := t.rbac.revokeRoleUnchecked role account } :=
  { h with roleMembers := fun name hn hs a => Map.get?_erase_congr (h.roleMembers name hn hs a) _ }

theorem isModuleAdmin_congr (hparams : t.params = s.params) (addr : Bytes) :
    MsgServer.isModuleAdmin t addr = MsgServer.isModuleAdmin s addr := by
  rw [MsgServer.isModuleAdmin, MsgServer.isModuleAdmin, hparams]

/-- `GrantRole` reads the module admin beside its own registry. -/
theorem grantRole_lockstep (h : SameRegistry env names r s t) (hparams : t.params = s.params)
    {m : MsgGrantRole} (hr : m.registryId = r)
    (hrole : MsgServer.scopedRoleName r m.checksum m.role ∈ names)
    (hadmin : registryRoleName r roleAdmin ∈ names) :
    Lockstep (SameRegistry env names r) (MsgServer.grantRole env (some m) s)
      (MsgServer.grantRole env (some m) t) := by
  subst hr
  have hscope := scopedTo_scopedRoleName m.registryId m.checksum m.role
  unfold MsgServer.grantRole
  dsimp only
  refine .bind_same _ fun _ _ => .bind_same _ fun granter _ => .bind_same _ fun grantee _ => ?_
  rw [h.ensureRoleScopeExists, MsgServer.scopedRole_eq]
  refine .bind_same _ fun _ _ => ?_
  generalize MsgServer.scopedRoleName m.registryId m.checksum m.role = name at hrole hscope ⊢
  have hset := h.setRoleAdmin (newRoleHash env name) (registryRole env m.registryId roleAdmin)
  -- the admin that is read is the one that was set a line before
  have hrequire := requireRoleAdmin_congr env granter (hset.roleAdmins name hrole hscope)
    fun bz hbz => by
      simp only [Rbac.setRoleAdmin, Std.ExtTreeMap.getElem?_insert_self, Option.some.injEq] at hbz
      rw [← hbz, Eth.bytesToHash_bytes]
      exact hset.hasRole hadmin (.registry roleAdmin) granter
  have hglass := fun rbac rbac' =>
    isModuleAdmin_congr (s := { s with rbac }) (t := { t with rbac := rbac' }) hparams m.admin
  rw [hglass (s.rbac.setRoleAdmin (newRoleHash env name) (registryRole env m.registryId roleAdmin))]
  refine .bind_same _ fun breakGlass _ => ?_
  cases breakGlass with
  | true => exact .ok (hset.grantRoleUnchecked _ _)
  | false =>
    simp only [Bool.false_eq_true, if_false, Rbac.grantRole, hrequire, bind_assoc]
    exact .bind_same _ fun _ _ => .ok (hset.grantRoleUnchecked _ _)

/-- `RevokeRole` follows the admin role that the table names, which is the registry's own. -/
theorem revokeRole_lockstep (hcf : Set.InjOn env.keccak256 names) (hroles : RoleInv env names s)
    (h : SameRegistry env names r s t) {m : MsgRevokeRole} (hr : m.registryId = r)
    (hrole : MsgServer.scopedRoleName r m.checksum m.role ∈ names)
    (hadmin : registryRoleName r roleAdmin ∈ names) :
    Lockstep (SameRegistry env names r) (MsgServer.revokeRole env (some m) s)
      (MsgServer.revokeRole env (some m) t) := by
  subst hr
  have hscope := scopedTo_scopedRoleName m.registryId m.checksum m.role
  unfold MsgServer.revokeRole
  dsimp only
  refine .bind_same _ fun _ _ => .bind_same _ fun revoker _ => .bind_same _ fun revokee _ => ?_
  rw [h.ensureRoleScopeExists]
  refine .bind_same _ fun _ _ => ?_
  rw [MsgServer.scopedRole_eq, h.hasRole hrole hscope]
  refine .bind_same _ fun _ held => ?_
  have hsole : t.rbac.isSoleAdmin (registryRole env m.registryId roleAdmin) =
      s.rbac.isSoleAdmin (registryRole env m.registryId roleAdmin) :=
    h.isSoleAdmin hadmin (.registry roleAdmin)
  rw [hsole]
  refine .bind_same _ fun lastAdmin _ => .bind_same _ fun _ _ => ?_
  -- the admin the table names for a held role is the registry's own
  have hrequire : t.rbac.requireRoleAdmin env
        (newRoleHash env (MsgServer.scopedRoleName m.registryId m.checksum m.role)) revoker =
      s.rbac.requireRoleAdmin env
        (newRoleHash env (MsgServer.scopedRoleName m.registryId m.checksum m.role)) revoker := by
    refine requireRoleAdmin_congr env revoker (h.roleAdmins _ hrole hscope) fun bz hbz => ?_
    have hown := (hroles.admin_of_scopedTo hcf hrole hscope (require_eq_ok.mp held)).2
    cases hbz.symm.trans hown
    rw [Eth.bytesToHash_bytes]
    exact h.hasRole hadmin (.registry roleAdmin) revoker
  simp only [Rbac.revokeRole, hrequire, bind_assoc]
  exact .bind_same _ fun _ _ => .ok (h.revokeRoleUnchecked _ _)

/-- **A message on a registry reads only what belongs to it.** -/
theorem handle_lockstep (hcf : Set.InjOn env.keccak256 names) (hroles : RoleInv env names s)
    (h : SameRegistry env names r s t) (hparams : t.params = s.params) (ctx : Ctx) {msg : Msg}
    (hmsg : msg.registry? = some r) (hnames : ∀ name ∈ msg.namesUsed s, name ∈ names) :
    Lockstep (SameAnswer env names r) (handle env ctx msg s) (handle env ctx msg t) := by
  cases msg with
  | updateParams req => cases hmsg
  | addRegistry req => cases hmsg
  | addRecord req =>
    cases req with
    | none => cases hmsg
    | some m =>
      have hadd : Lockstep (SameAnswer env names r) (MsgServer.addRecord env ctx (some m) s)
          (MsgServer.addRecord env ctx (some m) t) := by
        refine .bind_same _ fun record hrecord => .bind_same _ fun sender _ => ?_
        have hcarries := record_of_validateBasic (wrapInvalidRequest_eq_ok.mp hrecord)
        simp only [Msg.registry?, Msg.namesUsed, hcarries, Option.map_some, Option.some.injEq,
          Option.elim_some] at hmsg hnames
        exact addRecord_lockstep h ctx sender hmsg (hmsg ▸ hnames)
      refine hadd.bind ?_
      rintro ⟨k, s'⟩ ⟨_, t'⟩ ⟨rfl, h'⟩
      exact .ok ⟨rfl, h'⟩
  | updateRecordStatus req =>
    cases req with
    | none => cases hmsg
    | some m =>
      cases hmsg
      have hset : Lockstep (SameRegistry env names m.registryId)
          (MsgServer.updateRecordStatus env (some m) s)
          (MsgServer.updateRecordStatus env (some m) t) := by
        refine .bind_same _ fun _ _ => .bind_same _ fun sender _ => ?_
        refine updateRecordStatus_lockstep h sender m.recordId m.index m.status fun record hrecord => ?_
        simpa only [Msg.namesUsed, hrecord, Option.elim_some] using hnames
      exact hset.bind fun s' t' h' => .ok ⟨rfl, h'⟩
  | grantRole req =>
    cases req with
    | none => cases hmsg
    | some m =>
      cases hmsg
      exact (grantRole_lockstep h hparams rfl (hnames _ List.mem_cons_self)
        (hnames _ (List.mem_cons_of_mem _ List.mem_cons_self))).bind fun s' t' h' => .ok ⟨rfl, h'⟩
  | revokeRole req =>
    cases req with
    | none => cases hmsg
    | some m =>
      cases hmsg
      exact (revokeRole_lockstep hcf hroles h rfl (hnames _ List.mem_cons_self)
        (hnames _ (List.mem_cons_of_mem _ List.mem_cons_self))).bind fun s' t' h' => .ok ⟨rfl, h'⟩

end Handlers

/-! ## Writes -/

/-- The stores agree on everything that does not belong to registry `r`. A role belongs to the registry
when it is the hash of a name in use that is scoped to it. -/
structure OnlyRegistry (env : Env) (names : Set Bytes) (r : UInt64) (s s' : Store) : Prop where
  params : s'.params = s.params
  registryCount : s'.registryCount = s.registryCount
  others : ∀ r' ≠ r, SameRegistry env names r' s s'
  roleAdmins : ∀ role, (∀ name ∈ names, ScopedTo r name → newRoleHash env name ≠ role) →
    s'.rbac.roleAdmins[role]? = s.rbac.roleAdmins[role]?
  roleMembers : ∀ role, (∀ name ∈ names, ScopedTo r name → newRoleHash env name ≠ role) →
    ∀ account : Bytes, s'.rbac.roleMembers[(role, account)]? = s.rbac.roleMembers[(role, account)]?

section Frame

variable {env : Env} {names : Set Bytes} {r : UInt64} {s s' s'' : Store}

theorem OnlyRegistry.refl (s : Store) : OnlyRegistry env names r s s :=
  ⟨rfl, rfl, fun _ _ => .refl s, fun _ _ => rfl, fun _ _ _ => rfl⟩

theorem OnlyRegistry.trans (h : OnlyRegistry env names r s s') (h' : OnlyRegistry env names r s' s'') :
    OnlyRegistry env names r s s'' where
  params := h'.params.trans h.params
  registryCount := h'.registryCount.trans h.registryCount
  others r' hne := (h.others r' hne).trans (h'.others r' hne)
  roleAdmins role hrole := (h'.roleAdmins role hrole).trans (h.roleAdmins role hrole)
  roleMembers role hrole a := (h'.roleMembers role hrole a).trans (h.roleMembers role hrole a)

/-- A write that leaves params, the registry count and the role tables alone. -/
theorem OnlyRegistry.of_others (hparams : s'.params = s.params)
    (hcount : s'.registryCount = s.registryCount) (hrbac : s'.rbac = s.rbac)
    (hothers : ∀ r' ≠ r, SameRegistry env names r' s s') : OnlyRegistry env names r s s' :=
  ⟨hparams, hcount, hothers, fun _ _ => by rw [hrbac], fun _ _ _ => by rw [hrbac]⟩

/-- Both halves of `AddRecord`. -/
theorem onlyRegistry_addRecord {ctx : Ctx} {record : Record} {recordId : UInt64} {s₁ s₂ : Store}
    (assigned : s.assignRecordId record.registryId record.checksum = .ok (recordId, s₁))
    (stored : s₁.storeVersion ctx recordId record = .ok s₂) :
    OnlyRegistry env names record.registryId s s₂ := by
  have hassigned : OnlyRegistry env names record.registryId s s₁ := by
    rcases assignRecordId_eq_ok.mp assigned with ⟨_, rfl⟩ | ⟨_, _, _, _, _, rfl⟩
    · exact .refl _
    · exact .of_others rfl rfl rfl fun r' hne => .withChecksum hne.symm _ _
  have hversion : ∀ i, OnlyRegistry env names record.registryId s₁
      (s₁.withVersion (record.versioned ctx recordId i)) :=
    fun i => .of_others rfl rfl rfl fun r' hne => .withVersion hne.symm
  refine hassigned.trans ?_
  rcases storeVersion_eq_ok.mp stored with ⟨_, rfl⟩ | ⟨_, prev, _, rfl⟩
  · exact hversion _
  · exact (hversion _).trans (.of_others rfl rfl rfl fun r' hne => .withRecord hne.symm _ _ _)

/-- **A message on a registry writes only what belongs to it.** -/
theorem onlyRegistry_deliver (hcf : Set.InjOn env.keccak256 names) (ctx : Ctx) {msg : Msg}
    (hmsg : msg.registry? = some r) (hnames : ∀ name ∈ msg.namesUsed s, name ∈ names) :
    OnlyRegistry env names r s (deliver env ctx msg s) := by
  generalize hs' : deliver env ctx msg s = s'
  have hd := delivered env ctx msg s
  rw [hs'] at hd
  cases hd with
  | refused failed => exact .refl s
  | addRegistry accepted signer valid counted creates => cases hmsg
  | addRecord accepted signer carries valid known permitted assigned stored =>
    simp only [Msg.registry?, carries, Option.map_some, Option.some.injEq] at hmsg
    exact hmsg ▸ onlyRegistry_addRecord assigned stored
  | updateRecordStatus accepted signer valid found permitted =>
    cases hmsg
    exact .of_others rfl rfl rfl fun r' hne => .withRecord hne.symm _ _ _
  | @grantRole m granter grantee signer grants nonzero inScope allowed =>
    cases hmsg
    have hname := hnames _ List.mem_cons_self
    have hscope := scopedTo_scopedRoleName m.registryId m.checksum m.role
    rw [MsgServer.scopedRole_eq]
    refine ⟨rfl, rfl, fun r' hne => .grant hcf hne.symm hname hscope _ _, fun role hrole => ?_,
      fun role hrole account => ?_⟩
    · exact Map.get?_insert_ne _ _ (hrole _ hname hscope)
    · exact Map.get?_insert_ne _ _ fun e => hrole _ hname hscope (congrArg Prod.fst e)
  | @revokeRole m revoker revokee bz signer revokes nonzero inScope held notLast administered
      allowed =>
    cases hmsg
    have hname := hnames _ List.mem_cons_self
    have hscope := scopedTo_scopedRoleName m.registryId m.checksum m.role
    rw [MsgServer.scopedRole_eq]
    refine ⟨rfl, rfl, fun r' hne => .revoke hcf hne.symm hname hscope _, fun _ _ => rfl,
      fun role hrole account => ?_⟩
    exact Map.get?_erase_ne _ fun e => hrole _ hname hscope (congrArg Prod.fst e)
  | updateParams signer stored authorized valid => cases hmsg

/-- Stores that agree on every registry and on what belongs to none are the same. -/
theorem store_eq (env : Env) (names : Set Bytes) {t : Store} (hparams : t.params = s.params)
    (hcount : t.registryCount = s.registryCount) (hall : ∀ r, SameRegistry env names r s t)
    (hadmins : ∀ role, (∀ r, ∀ name ∈ names, ScopedTo r name → newRoleHash env name ≠ role) →
      t.rbac.roleAdmins[role]? = s.rbac.roleAdmins[role]?)
    (hmembers : ∀ role, (∀ r, ∀ name ∈ names, ScopedTo r name → newRoleHash env name ≠ role) →
      ∀ account : Bytes, t.rbac.roleMembers[(role, account)]? = s.rbac.roleMembers[(role, account)]?) :
    s = t := by
  have howned : ∀ role, (∃ r, ∃ name ∈ names, ScopedTo r name ∧ newRoleHash env name = role) ∨
      ∀ r, ∀ name ∈ names, ScopedTo r name → newRoleHash env name ≠ role := by
    intro role
    by_cases h : ∃ r, ∃ name ∈ names, ScopedTo r name ∧ newRoleHash env name = role
    · exact .inl h
    · exact .inr fun r name hn hs e => h ⟨r, name, hn, hs, e⟩
  have hrbac : s.rbac = t.rbac := by
    refine congrArg₂ Rbac.mk (Std.ExtTreeMap.ext_getElem? fun {role} => ?_)
      (Std.ExtTreeMap.ext_getElem? fun {key} => ?_)
    · rcases howned role with ⟨r, name, hn, hs, rfl⟩ | hnone
      · exact ((hall r).roleAdmins name hn hs).symm
      · exact (hadmins role hnone).symm
    · rcases howned key.1 with ⟨r, name, hn, hs, hrole⟩ | hnone
      · have hkey := (hall r).roleMembers name hn hs key.2
        rw [hrole] at hkey
        exact hkey.symm
      · exact (hmembers key.1 hnone key.2).symm
  refine Store.ext hparams.symm ?_ hcount.symm ?_ ?_ ?_ ?_ ?_ hrbac
  · exact Std.ExtTreeMap.ext_getElem? fun {r} => (hall r).registry.symm
  · exact Std.ExtTreeMap.ext_getElem? fun {key} => ((hall key.1).records key.2.1 key.2.2).symm
  · exact Std.ExtTreeMap.ext_getElem? fun {key} => ((hall key.1).byRegistry key.2).symm
  · exact Std.ExtTreeMap.ext_getElem? fun {r} => (hall r).count.symm
  · exact Std.ExtTreeMap.ext_getElem? fun {key} => ((hall key.1).indices key.2).symm
  · exact Std.ExtTreeMap.ext_getElem? fun {key} => ((hall key.2).byChecksum key.1).symm

end Frame

/-! ## Both orders -/

section Orders

variable {env : Env} {names : Set Bytes} {s t : Store} {r : UInt64} {msg : Msg}

/-- A message uses the same names on stores that agree on its registry. -/
theorem namesUsed_congr (h : SameRegistry env names r s t) (hmsg : msg.registry? = some r) :
    msg.namesUsed t = msg.namesUsed s := by
  cases msg with
  | updateParams req => cases hmsg
  | addRegistry req => cases hmsg
  | addRecord req =>
    cases req with
    | none => cases hmsg
    | some m => rfl
  | updateRecordStatus req =>
    cases req with
    | none => cases hmsg
    | some m =>
      cases hmsg
      simp only [Msg.namesUsed, h.records]
  | grantRole req =>
    cases req with
    | none => cases hmsg
    | some m => rfl
  | revokeRole req =>
    cases req with
    | none => cases hmsg
    | some m => rfl

/-- Delivered to stores that agree on its registry, a message leaves stores that do. -/
theorem deliver_lockstep (hcf : Set.InjOn env.keccak256 names) (hroles : RoleInv env names s)
    (h : SameRegistry env names r s t) (hparams : t.params = s.params) (ctx : Ctx)
    (hmsg : msg.registry? = some r) (hnames : ∀ name ∈ msg.namesUsed s, name ∈ names) :
    SameRegistry env names r (deliver env ctx msg s) (deliver env ctx msg t) := by
  have hstep := handle_lockstep hcf hroles h hparams ctx hmsg hnames
  unfold deliver
  generalize handle env ctx msg s = x at hstep
  generalize handle env ctx msg t = y at hstep
  cases hstep with
  | ok related => exact related.2
  | error e => exact h

end Orders

/-- **Messages on different registries commute.** From every store of a run, two messages that each
name a registry of their own give the same store in either order, and each is answered the same in
either order, with its response or its error. The hash has to tell apart the role names of the run and
of the two messages. -/
theorem messages_commute {env : Env} {names : Set Bytes} {s : Store}
    (hcf : Set.InjOn env.keccak256 names) (h : AnyReachable env names s) (ctx : Ctx)
    {msg₁ msg₂ : Msg} {r₁ r₂ : UInt64} (h₁ : msg₁.registry? = some r₁)
    (h₂ : msg₂.registry? = some r₂) (hne : r₁ ≠ r₂)
    (hn₁ : ∀ name ∈ msg₁.namesUsed s, name ∈ names)
    (hn₂ : ∀ name ∈ msg₂.namesUsed s, name ∈ names) :
    deliver env ctx msg₂ (deliver env ctx msg₁ s) = deliver env ctx msg₁ (deliver env ctx msg₂ s) ∧
      (handle env ctx msg₁ s).map Prod.fst =
        (handle env ctx msg₁ (deliver env ctx msg₂ s)).map Prod.fst ∧
      (handle env ctx msg₂ s).map Prod.fst =
        (handle env ctx msg₂ (deliver env ctx msg₁ s)).map Prod.fst := by
  have hroles := h.roleInv
  have hw₁ := onlyRegistry_deliver hcf ctx h₁ hn₁
  have hw₂ := onlyRegistry_deliver hcf ctx h₂ hn₂
  -- each message meets its own registry as it was
  have hsame₁ := hw₂.others r₁ hne
  have hsame₂ := hw₁.others r₂ hne.symm
  have hstep₁ := handle_lockstep hcf hroles hsame₁ hw₂.params ctx h₁ hn₁
  have hstep₂ := handle_lockstep hcf hroles hsame₂ hw₁.params ctx h₂ hn₂
  have hd₁ := deliver_lockstep hcf hroles hsame₁ hw₂.params ctx h₁ hn₁
  have hd₂ := deliver_lockstep hcf hroles hsame₂ hw₁.params ctx h₂ hn₂
  have hw₁₂ := onlyRegistry_deliver hcf ctx h₂ (namesUsed_congr hsame₂ h₂ ▸ hn₂)
  have hw₂₁ := onlyRegistry_deliver hcf ctx h₁ (namesUsed_congr hsame₁ h₁ ▸ hn₁)
  refine ⟨store_eq env names ?_ ?_ (fun r => ?_) (fun role hrole => ?_) (fun role hrole account => ?_),
    hstep₁.map_eq fun _ _ e => e.1, hstep₂.map_eq fun _ _ e => e.1⟩
  · rw [hw₁₂.params, hw₂₁.params, hw₁.params, hw₂.params]
  · rw [hw₁₂.registryCount, hw₂₁.registryCount, hw₁.registryCount, hw₂.registryCount]
  · by_cases hr₁ : r = r₁
    · subst hr₁
      exact ((hw₁₂.others r hne).symm).trans hd₁
    · by_cases hr₂ : r = r₂
      · subst hr₂
        exact hd₂.symm.trans (hw₂₁.others r hr₁)
      · exact ((hw₁.others r hr₁).trans (hw₁₂.others r hr₂)).symm.trans
          ((hw₂.others r hr₂).trans (hw₂₁.others r hr₁))
  · rw [hw₁₂.roleAdmins role (hrole r₂), hw₂₁.roleAdmins role (hrole r₁),
      hw₁.roleAdmins role (hrole r₁), hw₂.roleAdmins role (hrole r₂)]
  · rw [hw₁₂.roleMembers role (hrole r₂), hw₂₁.roleMembers role (hrole r₁),
      hw₁.roleMembers role (hrole r₁), hw₂.roleMembers role (hrole r₂)]

/-- The names of a permission check in registry 1, and the admin role of registry 2. -/
def pairNameList : List Bytes := permissionNames 1 (str "c0") ++ [registryRoleName 2 roleAdmin]

/-- The names as a set. -/
def pairNames : Set Bytes := {name | name ∈ pairNameList}

instance : DecidablePred (· ∈ pairNames) := fun name =>
  inferInstanceAs (Decidable (name ∈ pairNameList))

/-- Account 1 creates two registries. -/
def pairMsgs : List (Ctx × Msg) :=
  [(smallCtx, .addRegistry (some ⟨str "nvnm1qyfcvmjm", str "deeds", [], []⟩)),
   (smallCtx, .addRegistry (some ⟨str "nvnm1qyfcvmjm", str "titles", [], []⟩))]

/-- The store the two leave. -/
def pairStore : Store := runMsgs smallEnv pairMsgs (Store.initial smallParams)

/-- Account 1 anchors a record in registry 1 and makes account 2 an admin of registry 2. -/
theorem messages_commute_pairStore :
    let anchor : Msg := .addRecord (some ⟨str "nvnm1qyfcvmjm", some (smallRecord "c0")⟩)
    let grant : Msg := .grantRole (some ⟨str "nvnm1qyfcvmjm", str "nvnm1qgcx23ru", 2, [], roleAdmin⟩)
    (handle smallEnv smallCtx anchor pairStore).map Prod.fst = .ok (.addRecord 1) ∧
      (handle smallEnv smallCtx grant pairStore).map Prod.fst = .ok .empty ∧
      deliver smallEnv smallCtx grant (deliver smallEnv smallCtx anchor pairStore) =
        deliver smallEnv smallCtx anchor (deliver smallEnv smallCtx grant pairStore) := by
  have hcf : Set.InjOn smallEnv.keccak256 pairNames := by
    have all : ∀ a ∈ pairNameList, ∀ b ∈ pairNameList,
        smallEnv.keccak256 a = smallEnv.keccak256 b → a = b := by decide +kernel
    exact fun a ha b hb => all a ha b hb
  have hrun : Admissible smallEnv pairNames pairMsgs (Store.initial smallParams) := by
    decide +kernel
  have hreach : Reachable smallEnv pairNames pairStore :=
    Reachable.runMsgs (Transition.Reachable.of_init initial_smallParams) hrun
  refine ⟨by decide +kernel, by decide +kernel, ?_⟩
  exact (messages_commute hcf hreach.any smallCtx rfl rfl (by decide)
    (by decide +kernel) (by decide +kernel)).1

end Nvnmchain
