import Nvnmchain.Anchoring.RoleScope

/-!
# Registries are isolated from each other

A message changes what belongs to a registry only when its sender is the module admin or holds one of
the registry's two working roles. Everything that belongs to a registry is `SameRegistry`: the
registry, its counters, its records and indexes, and the two role tables at every role scoped to it.

The proof is one question to each case of `Delivered`: which registry did the message write to, and
what did its sender hold there. A revocation is the case that needs the role invariant, since it
trusts whatever admin role the table names.
-/

set_option autoImplicit false

namespace Nvnmchain

open Go (Bytes str)
open Collections

/-- The two stores agree on everything that belongs to registry `r`, over a set of role names. -/
structure SameRegistry (env : Env) (names : Set Bytes) (r : UInt64) (s s' : Store) : Prop where
  registry : s'.registries[r]? = s.registries[r]?
  count : s'.recordsCountByRegistry[r]? = s.recordsCountByRegistry[r]?
  records : ∀ k i : UInt64, s'.records[(r, k, i)]? = s.records[(r, k, i)]?
  indices : ∀ k : UInt64, s'.recordIndices[(r, k)]? = s.recordIndices[(r, k)]?
  byRegistry : ∀ c : Bytes,
    s'.recordIdByRegistryAndChecksum[(r, c)]? = s.recordIdByRegistryAndChecksum[(r, c)]?
  byChecksum : ∀ c : Bytes,
    s'.recordIdByChecksumAndRegistry[(c, r)]? = s.recordIdByChecksumAndRegistry[(c, r)]?
  roleAdmins : ∀ name ∈ names, ScopedTo r name →
    s'.rbac.roleAdmins[newRoleHash env name]? = s.rbac.roleAdmins[newRoleHash env name]?
  roleMembers : ∀ name ∈ names, ScopedTo r name → ∀ account : Bytes,
    s'.rbac.roleMembers[(newRoleHash env name, account)]? =
      s.rbac.roleMembers[(newRoleHash env name, account)]?

/-- The names of the roles a permission check looks at. -/
def permissionNames (r : UInt64) (checksum : Bytes) : List Bytes :=
  [recordRoleName r checksum roleAdmin, recordRoleName r checksum roleEditor,
    registryRoleName r roleAdmin, registryRoleName r roleEditor]

/-- The names a permission check looks at belong to its registry. -/
theorem scopedTo_permissionNames {r : UInt64} {checksum name : Bytes}
    (h : name ∈ permissionNames r checksum) : ScopedTo r name := by
  simp only [permissionNames, List.mem_cons, List.not_mem_nil, or_false] at h
  rcases h with rfl | rfl | rfl | rfl
  · exact .record checksum roleAdmin
  · exact .record checksum roleEditor
  · exact .registry roleAdmin
  · exact .registry roleEditor

/-- The names of the roles a message reads or writes. -/
def Msg.namesUsed (s : Store) : Msg → List Bytes
  | .addRecord (some m) =>
    m.record.elim [] fun record => permissionNames record.registryId record.checksum
  | .updateRecordStatus (some m) =>
    s.records[(m.registryId, m.recordId, m.index)]?.elim [] fun record =>
      permissionNames m.registryId record.checksum
  | msg => msg.roleNames s

/-- The account holds neither working role on the registry, in either scope. -/
structure HoldsNothing (env : Env) (s : Store) (r : UInt64) (account : Bytes) : Prop where
  registry : ∀ role ∈ [roleAdmin, roleEditor],
    s.rbac.hasRole (registryRole env r role) account = false
  record : ∀ role ∈ [roleAdmin, roleEditor], ∀ checksum,
    s.rbac.hasRole (recordRole env r checksum role) account = false

section Step

variable {env : Env} {names : Set Bytes} {s : Store} {r r' : UInt64} {sender : Bytes}

/-- Without the roles it looks at, a permission check fails. -/
theorem not_permitted {checksum : Bytes} (h : ∀ name ∈ permissionNames r checksum,
      s.rbac.hasRole (newRoleHash env name) sender = false) :
    checkPermission env s sender r checksum [roleAdmin, roleEditor] ≠ .ok () := by
  have hrecord : checkRecordRoles env s sender r checksum [roleAdmin, roleEditor] = false := by
    unfold checkRecordRoles
    split
    · rfl
    · simp only [List.any_eq_false]
      intro role hrole
      have hnone : s.rbac.hasRole (recordRole env r checksum role) sender = false := by
        refine h _ ?_
        rcases List.mem_pair.mp hrole with rfl | rfl <;> simp [permissionNames]
      simp only [hnone, Bool.false_eq_true, not_false_eq_true]
  have hregistry : checkRegistryRoles env s sender r [roleAdmin, roleEditor] = false := by
    unfold checkRegistryRoles
    split
    · rfl
    · simp only [List.any_eq_false]
      intro role hrole
      have hnone : s.rbac.hasRole (registryRole env r role) sender = false := by
        refine h _ ?_
        rcases List.mem_pair.mp hrole with rfl | rfl <;> simp [permissionNames]
      simp only [hnone, Bool.false_eq_true, not_false_eq_true]
  simp only [checkPermission, hrecord, hregistry, Bool.false_eq_true, if_false]
  exact nofun

/-- Of the roles a message looks up, its sender holds none that gives a say on a registry. -/
def Msg.Powerless (env : Env) (s : Store) (r : UInt64) (msg : Msg) : Prop :=
  ∀ sender, env.stringToBytes msg.sender = .ok sender → ∀ checksum, ∀ name ∈ permissionNames r checksum,
    name ∈ msg.namesUsed s → s.rbac.hasRole (newRoleHash env name) sender = false

/-- Who has no say on a registry is not its admin. -/
theorem Msg.Powerless.not_registryAdmin {msg : Msg} (h : msg.Powerless env s r) {sender : Bytes}
    (hsender : env.stringToBytes msg.sender = .ok sender)
    (hused : registryRoleName r roleAdmin ∈ msg.namesUsed s)
    (hhas : s.rbac.hasRole (registryRole env r roleAdmin) sender = true) : False := by
  have hnot := h sender hsender [] (registryRoleName r roleAdmin) (by simp [permissionNames]) hused
  exact Bool.false_ne_true (hnot.symm.trans hhas)

/-- A sender that holds nothing on a registry sends messages that have no say there. -/
theorem Msg.Powerless.of_holdsNothing {msg : Msg}
    (h : ∀ sender, env.stringToBytes msg.sender = .ok sender → HoldsNothing env s r sender) :
    msg.Powerless env s r := by
  intro sender hsender checksum name hname _
  simp only [permissionNames, List.mem_cons, List.not_mem_nil, or_false] at hname
  rcases hname with rfl | rfl | rfl | rfl
  · exact (h sender hsender).record roleAdmin List.mem_cons_self checksum
  · exact (h sender hsender).record roleEditor (List.mem_cons_of_mem _ List.mem_cons_self) checksum
  · exact (h sender hsender).registry roleAdmin List.mem_cons_self
  · exact (h sender hsender).registry roleEditor (List.mem_cons_of_mem _ List.mem_cons_self)

/-- The hash of a name of another registry is another role. -/
theorem newRoleHash_ne (hcf : Set.InjOn env.keccak256 names) {name name' : Bytes}
    (hname : name ∈ names) (hname' : name' ∈ names) (hscope : ScopedTo r name)
    (hscope' : ScopedTo r' name') (hne : r ≠ r') : newRoleHash env name ≠ newRoleHash env name' := by
  intro e
  cases hcf hname hname' e
  exact hne (hscope.unique hscope')

end Step

/-! ## What each write leaves alone -/

namespace SameRegistry

variable {env : Env} {names : Set Bytes} {s s' s'' : Store} {r r' : UInt64}

theorem refl (s : Store) : SameRegistry env names r s s where
  registry := rfl
  count := rfl
  records _ _ := rfl
  indices _ := rfl
  byRegistry _ := rfl
  byChecksum _ := rfl
  roleAdmins _ _ _ := rfl
  roleMembers _ _ _ _ := rfl

theorem trans (h : SameRegistry env names r s s') (h' : SameRegistry env names r s' s'') :
    SameRegistry env names r s s'' where
  registry := h'.registry.trans h.registry
  count := h'.count.trans h.count
  records k i := (h'.records k i).trans (h.records k i)
  indices k := (h'.indices k).trans (h.indices k)
  byRegistry c := (h'.byRegistry c).trans (h.byRegistry c)
  byChecksum c := (h'.byChecksum c).trans (h.byChecksum c)
  roleAdmins name hn hs := (h'.roleAdmins name hn hs).trans (h.roleAdmins name hn hs)
  roleMembers name hn hs a := (h'.roleMembers name hn hs a).trans (h.roleMembers name hn hs a)

/-- The params belong to no registry. -/
theorem otherParams (params : Option Params) : SameRegistry env names r s { s with params } :=
  ⟨rfl, rfl, fun _ _ => rfl, fun _ => rfl, fun _ => rfl, fun _ => rfl, fun _ _ _ => rfl,
    fun _ _ _ _ => rfl⟩

/-- A checksum entered for another registry. -/
theorem withChecksum (hne : r' ≠ r) (c : Bytes) (k : UInt64) :
    SameRegistry env names r s (s.withChecksum r' c k) where
  registry := rfl
  count := Map.get?_insert_ne _ _ hne
  records _ _ := rfl
  indices _ := rfl
  byRegistry _ := Map.get?_insert_ne _ _ (fun e => hne (congrArg Prod.fst e))
  byChecksum _ := Map.get?_insert_ne _ _ (fun e => hne (congrArg Prod.snd e))
  roleAdmins _ _ _ := rfl
  roleMembers _ _ _ _ := rfl

/-- A record changed in another registry. -/
theorem withRecord (hne : r' ≠ r) (k i : UInt64) (record : Record) :
    SameRegistry env names r s (s.withRecord (r', k, i) record) where
  registry := rfl
  count := rfl
  records _ _ := Map.get?_insert_ne _ _ (fun e => hne (congrArg Prod.fst e))
  indices _ := rfl
  byRegistry _ := rfl
  byChecksum _ := rfl
  roleAdmins _ _ _ := rfl
  roleMembers _ _ _ _ := rfl

/-- A version stored in another registry. -/
theorem withVersion {record : Record} (hne : record.registryId ≠ r) :
    SameRegistry env names r s (s.withVersion record) where
  registry := rfl
  count := rfl
  records _ _ := Map.get?_insert_ne _ _ (fun e => hne (congrArg Prod.fst e))
  indices _ := Map.get?_insert_ne _ _ (fun e => hne (congrArg Prod.fst e))
  byRegistry _ := rfl
  byChecksum _ := rfl
  roleAdmins _ _ _ := rfl
  roleMembers _ _ _ _ := rfl

/-- A record anchored in another registry. -/
theorem anchored (hne : r' ≠ r) {ctx : Ctx} {record : Record} {recordId : UInt64}
    (hr : record.registryId = r') (ha : Anchored ctx s record recordId s') :
    SameRegistry env names r s s' := by
  subst hr
  cases ha with
  | first fresh counted encodes => exact (withChecksum hne _ _).trans (withVersion hne)
  | @next _ i _ numbered indexed previous =>
    have hversion : SameRegistry env names r s (s.withVersion (record.versioned ctx recordId (i + 1))) :=
      withVersion hne
    exact hversion.trans (withRecord hne _ _ _)

/-- A grant to a role of another registry. -/
theorem grant (hcf : Set.InjOn env.keccak256 names) (hne : r' ≠ r) {name : Bytes}
    (hname : name ∈ names) (hscope : ScopedTo r' name) (adminRole : Role) (account : Bytes) :
    SameRegistry env names r s { s with
      rbac := (s.rbac.setRoleAdmin (newRoleHash env name) adminRole).grantRoleUnchecked
        (newRoleHash env name) account } where
  registry := rfl
  count := rfl
  records _ _ := rfl
  indices _ := rfl
  byRegistry _ := rfl
  byChecksum _ := rfl
  roleAdmins _ hn hs := Map.get?_insert_ne _ _ (newRoleHash_ne hcf hname hn hscope hs hne)
  roleMembers _ hn hs _ := Map.get?_insert_ne _ _
    (fun e => newRoleHash_ne hcf hname hn hscope hs hne (congrArg Prod.fst e))

/-- A revocation of a role of another registry. -/
theorem revoke (hcf : Set.InjOn env.keccak256 names) (hne : r' ≠ r) {name : Bytes}
    (hname : name ∈ names) (hscope : ScopedTo r' name) (account : Bytes) :
    SameRegistry env names r s
      { s with rbac := s.rbac.revokeRoleUnchecked (newRoleHash env name) account } where
  registry := rfl
  count := rfl
  records _ _ := rfl
  indices _ := rfl
  byRegistry _ := rfl
  byChecksum _ := rfl
  roleAdmins _ _ _ := rfl
  roleMembers _ hn hs _ := Map.get?_erase_ne _
    (fun e => newRoleHash_ne hcf hname hn hscope hs hne (congrArg Prod.fst e))

/-- A new registry. -/
theorem withRegistry (hcf : Set.InjOn env.keccak256 names) {registry : Registry} {creator : Bytes}
    (hne : registry.id ≠ r) (hname : registryRoleName registry.id roleAdmin ∈ names) :
    SameRegistry env names r s (s.withRegistry env registry creator) := by
  have hgrown : SameRegistry env names r s
      { s.withRegistry env registry creator with rbac := s.rbac } :=
    { registry := Map.get?_insert_ne _ _ hne
      count := Map.get?_insert_ne _ _ hne
      records := fun _ _ => rfl
      indices := fun _ => rfl
      byRegistry := fun _ => rfl
      byChecksum := fun _ => rfl
      roleAdmins := fun _ _ _ => rfl
      roleMembers := fun _ _ _ _ => rfl }
  exact hgrown.trans (grant hcf hne hname (.registry roleAdmin) _ _)

end SameRegistry

/-! ## Isolation -/

section Isolation

variable {env : Env} {names : Set Bytes} {s s' : Store} {r : UInt64}

/-- Who may revoke: over a run, the admin role the table names for a held role is the admin role of
the role's own registry. -/
theorem RoleInv.revoker (h : RoleInv env names s) (hcf : Set.InjOn env.keccak256 names)
    {r' : UInt64} {checksum role revokee revoker bz : Bytes}
    (hname : MsgServer.scopedRoleName r' checksum role ∈ names)
    (held : s.rbac.hasRole (MsgServer.scopedRole env r' checksum role) revokee = true)
    (administered : s.rbac.roleAdmins[MsgServer.scopedRole env r' checksum role]? = some bz)
    (allowed : s.rbac.hasRole (Eth.bytesToHash bz) revoker = true) :
    s.rbac.hasRole (registryRole env r' roleAdmin) revoker = true := by
  rw [MsgServer.scopedRole_eq] at held administered
  have hadmin := (h.admin_of_scopedTo hcf hname (scopedTo_scopedRoleName r' checksum role) held).2
  cases administered.symm.trans hadmin
  rwa [Eth.bytesToHash_bytes] at allowed

/-- One message of a sender that is not the module admin and has no say on the registry. -/
theorem sameRegistry_of_delivered (hstore : StoreInv s) (hroles : RoleInv env names s)
    (hmax : s.CountersBelowMax) (hcf : Set.InjOn env.keccak256 names) {ctx : Ctx} {msg : Msg}
    (hnames : ∀ name ∈ msg.roleNames s, name ∈ names) (hr : r ∈ s.registries)
    (hadmin : ∀ params account, s.params = some params →
      env.stringToBytes params.admin = .ok account → env.stringToBytes msg.sender ≠ .ok account)
    (hnone : msg.Powerless env s r) (hd : Delivered env ctx s msg s') :
    SameRegistry env names r s s' := by
  cases hd with
  | refused failed => exact .refl s
  | @addRegistry m sender creator count accepted signer valid counted creates =>
    refine .withRegistry hcf (fun e => ?_) (hnames _ ?_)
    · have hid : count + 1 = r := e
      exact hstore.registry_notMem counted (hmax.registries _ counted) (hid ▸ hr)
    · simp [Msg.roleNames, counted, MsgAddRegistry.registry]
  | @addRecord m record sender recordId s₁ s₂ accepted signer carries valid known permitted assigned
      stored =>
    refine .anchored (fun e => ?_) rfl (hstore.anchored hmax assigned stored)
    subst e
    refine not_permitted (fun name hname => hnone _ signer _ name hname ?_) permitted
    simpa only [Msg.namesUsed, carries, Option.elim_some] using hname
  | @updateRecordStatus m record sender accepted signer valid found permitted =>
    refine .withRecord (fun e => ?_) _ _ _
    subst e
    refine not_permitted (fun name hname => hnone _ signer _ name hname ?_) permitted
    simpa only [Msg.namesUsed, found, Option.elim_some] using hname
  | @grantRole m granter grantee signer grants nonzero inScope allowed =>
    rw [MsgServer.scopedRole_eq]
    refine .grant hcf (fun e => ?_) (hnames _ List.mem_cons_self)
      (scopedTo_scopedRoleName _ _ _) _ _
    subst e
    rcases allowed with ⟨_, _, params, hparams, htext⟩ | hhas
    · -- the break-glass path compares the texts of the two addresses
      exact hadmin params granter hparams (htext ▸ signer) signer
    · exact hnone.not_registryAdmin signer (by simp [Msg.namesUsed, Msg.roleNames]) hhas
  | @revokeRole m revoker revokee bz signer revokes nonzero inScope held notLast administered
      allowed =>
    have hname := hnames _ List.mem_cons_self
    have hhas := hroles.revoker hcf hname held administered allowed
    rw [MsgServer.scopedRole_eq]
    refine .revoke hcf (fun e => ?_) hname (scopedTo_scopedRoleName _ _ _) _
    subst e
    exact hnone.not_registryAdmin signer (by simp [Msg.namesUsed, Msg.roleNames]) hhas
  | updateParams signer stored authorized valid => exact .otherParams _

end Isolation

/-- **Registry isolation.** Over a run whose role names the hash tells apart, a message whose sender
is not the module admin and holds neither working role on a registry leaves everything that belongs
to the registry as it was. -/
theorem registry_isolation {env : Env} {names : Set Bytes} {s : Store}
    (hcf : Set.InjOn env.keccak256 names) (h : Reachable env names s) (hmax : s.CountersBelowMax)
    (ctx : Ctx) (msg : Msg) (hnames : ∀ name ∈ msg.roleNames s, name ∈ names) (r : UInt64)
    (hr : r ∈ s.registries)
    (hadmin : ∀ params account, s.params = some params →
      env.stringToBytes params.admin = .ok account → env.stringToBytes msg.sender ≠ .ok account)
    (hholds : ∀ sender, env.stringToBytes msg.sender = .ok sender → HoldsNothing env s r sender) :
    SameRegistry env names r s (deliver env ctx msg s) :=
  sameRegistry_of_delivered h.storeInv h.roleInv hmax hcf hnames hr hadmin (.of_holdsNothing hholds)
    (delivered env ctx msg s)

/-- The account `[0, 1]`, which holds nothing in the small chain, creates registry 2; registry 1 stays
as it was. -/
theorem registry_isolation_smallRoleStore :
    (handle smallEnv smallCtx (.addRegistry (some ⟨str "nvnm1qqqskyhdqc", str "other", [], []⟩))
      smallRoleStore).map Prod.fst = .ok (.addRegistry 2) ∧
    SameRegistry smallEnv smallNames 1 smallRoleStore (deliver smallEnv smallCtx
      (.addRegistry (some ⟨str "nvnm1qqqskyhdqc", str "other", [], []⟩)) smallRoleStore) := by
  have hsender : ∀ account, smallEnv.stringToBytes (str "nvnm1qqqskyhdqc") = .ok account →
      account = [0, 1] := by
    intro account h
    have hdecoded : smallEnv.stringToBytes (str "nvnm1qqqskyhdqc") = .ok [0, 1] := by decide +kernel
    exact Except.ok.inj (h.symm.trans hdecoded)
  refine ⟨by decide +kernel, registry_isolation injOn_smallNames reachable_smallRoleStore
    (by decide +kernel) smallCtx _ (by decide +kernel) 1 (by decide +kernel) ?_ ?_⟩
  · intro params account hparams haccount hsame
    have hadmin : smallRoleStore.params = some smallParams := by decide +kernel
    cases hparams.symm.trans hadmin
    rw [hsender account hsame] at haccount
    exact absurd haccount (by decide +kernel)
  · intro sender h
    have hnone : ∀ role, smallRoleStore.rbac.hasRole role sender = false := by
      rw [hsender sender h]
      exact Rbac.hasRole_eq_false (by decide +kernel)
    exact ⟨fun _ _ => hnone _, fun _ _ _ => hnone _⟩

end Nvnmchain
