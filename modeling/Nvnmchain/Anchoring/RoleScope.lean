import Nvnmchain.Anchoring.StoreInv

/-!
# Every role belongs to one registry

A role is the hash of a formatted name. The name of a role tells which registry the role is scoped
to (`ScopedTo`), and no name is scoped to two registries (`ScopedTo.unique`): the fields of a name
can be read back, whatever bytes the checksum and the role were (`roles_never_alias`).

Over a run, the two role tables only hold roles of existing registries, administered by their own
registry's admin role (`RoleInv`), and every registry keeps an admin (`AdminInv`). What follows from a
role being one registry's needs that the hash tells the names of the run apart.
-/

set_option autoImplicit false

namespace Nvnmchain

open Go (Bytes str fmtUint fmtHex colon)
open Collections

/-! ## Names -/

theorem registryRoleName_eq (r : UInt64) (role : Bytes) :
    registryRoleName r role = str "registry:" ++ (fmtUint r.toNat ++ colon :: role) := by
  simp only [registryRoleName, List.append_assoc]
  rfl

theorem recordRoleName_eq (r : UInt64) (checksum role : Bytes) :
    recordRoleName r checksum role =
      str "record:" ++ (fmtUint r.toNat ++ colon :: (fmtHex checksum ++ colon :: fmtHex role)) := by
  simp only [recordRoleName, List.append_assoc]
  rfl

/-- The name of a registry's role tells the registry and the role. -/
theorem registryRoleName_inj {r r' : UInt64} {role role' : Bytes}
    (h : registryRoleName r role = registryRoleName r' role') : r = r' ∧ role = role' := by
  rw [registryRoleName_eq, registryRoleName_eq] at h
  obtain ⟨hr, hrole⟩ := Go.split_colon (Go.colon_notMem_fmtUint _) (Go.colon_notMem_fmtUint _)
    (List.append_cancel_left h)
  exact ⟨UInt64.toNat_inj.mp (Go.fmtUint_injective hr), hrole⟩

/-- The name of a record's role tells the registry, the checksum and the role. -/
theorem recordRoleName_inj {r r' : UInt64} {checksum checksum' role role' : Bytes}
    (h : recordRoleName r checksum role = recordRoleName r' checksum' role') :
    r = r' ∧ checksum = checksum' ∧ role = role' := by
  rw [recordRoleName_eq, recordRoleName_eq] at h
  obtain ⟨hr, hrest⟩ := Go.split_colon (Go.colon_notMem_fmtUint _) (Go.colon_notMem_fmtUint _)
    (List.append_cancel_left h)
  obtain ⟨hc, hrole⟩ := Go.split_colon (Go.colon_notMem_fmtHex _) (Go.colon_notMem_fmtHex _) hrest
  exact ⟨UInt64.toNat_inj.mp (Go.fmtUint_injective hr), Go.fmtHex_injective hc,
    Go.fmtHex_injective hrole⟩

/-- The third letters of the two formats differ. -/
theorem registryRoleName_ne_recordRoleName (r r' : UInt64) (checksum role role' : Bytes) :
    registryRoleName r role ≠ recordRoleName r' checksum role' := by
  intro h
  rw [registryRoleName_eq, recordRoleName_eq] at h
  have third := congrArg (fun l : Bytes => l[2]?) h
  rw [List.getElem?_append_left (by decide), List.getElem?_append_left (by decide)] at third
  exact absurd third (by decide)

/-- The names of the roles of a registry, in either scope. -/
inductive ScopedTo (r : UInt64) : Bytes → Prop
  | registry (role : Bytes) : ScopedTo r (registryRoleName r role)
  | record (checksum role : Bytes) : ScopedTo r (recordRoleName r checksum role)

/-- No name is scoped to two registries. -/
theorem ScopedTo.unique {r r' : UInt64} {name : Bytes} (h : ScopedTo r name)
    (h' : ScopedTo r' name) : r = r' := by
  generalize hn : name = name' at h'
  cases h with
  | registry role =>
    cases h' with
    | registry role' => exact (registryRoleName_inj hn).1
    | record checksum' role' => exact absurd hn (registryRoleName_ne_recordRoleName _ _ _ _ _)
  | record checksum role =>
    cases h' with
    | registry role' => exact absurd hn.symm (registryRoleName_ne_recordRoleName _ _ _ _ _)
    | record checksum' role' => exact (recordRoleName_inj hn).1

/-- The name `scopedRole` hashes belongs to its registry. -/
theorem scopedTo_scopedRoleName (r : UInt64) (checksum role : Bytes) :
    ScopedTo r (MsgServer.scopedRoleName r checksum role) := by
  unfold MsgServer.scopedRoleName
  split
  · exact .record checksum role
  · exact .registry role

/-- **The name of a scoped role tells what was asked for**: the registry, the checksum and the role. -/
theorem scopedRoleName_inj {r r' : UInt64} {checksum checksum' role role' : Bytes} (hr : r ≠ 0)
    (h : MsgServer.scopedRoleName r checksum role = MsgServer.scopedRoleName r' checksum' role') :
    r = r' ∧ checksum = checksum' ∧ role = role' := by
  have hscope := scopedTo_scopedRoleName r checksum role
  rw [h] at hscope
  obtain rfl := hscope.unique (scopedTo_scopedRoleName r' checksum' role')
  simp only [MsgServer.scopedRoleName, isRecordRole_eq hr] at h
  by_cases hc : checksum = []
  · by_cases hc' : checksum' = []
    · simp only [hc, hc', ne_eq, not_true_eq_false, decide_false, Bool.false_eq_true, if_false] at h
      exact ⟨rfl, hc.trans hc'.symm, (registryRoleName_inj h).2⟩
    · simp only [hc, hc', ne_eq, not_true_eq_false, not_false_eq_true, decide_false, decide_true,
        Bool.false_eq_true, if_false, if_true] at h
      exact absurd h (registryRoleName_ne_recordRoleName _ _ _ _ _)
  · by_cases hc' : checksum' = []
    · simp only [hc, hc', ne_eq, not_true_eq_false, not_false_eq_true, decide_false, decide_true,
        Bool.false_eq_true, if_false, if_true] at h
      exact absurd h.symm (registryRoleName_ne_recordRoleName _ _ _ _ _)
    · simp only [hc, hc', ne_eq, not_false_eq_true, decide_true, if_true] at h
      exact ⟨rfl, (recordRoleName_inj h).2⟩

/-- The name of a registry's role is the name of no other scoped role. -/
theorem scopedRoleName_eq_registryRoleName {r r' : UInt64} {checksum role role' : Bytes}
    (hr : r ≠ 0) (h : MsgServer.scopedRoleName r checksum role = registryRoleName r' role') :
    r = r' ∧ checksum = [] ∧ role = role' := by
  have hempty : MsgServer.scopedRoleName r' [] role' = registryRoleName r' role' := by
    simp [MsgServer.scopedRoleName, MsgServer.isRecordRole]
  exact scopedRoleName_inj hr (h.trans hempty.symm)

/-- **Role identifiers never alias.** Each of the two formats tells its arguments apart, whatever
bytes the checksum and the role are, and no name has both formats. So where the hash tells the names
in play apart, different requests in a registry's scope are for different roles. -/
theorem roles_never_alias :
    (∀ (r r' : UInt64) (checksum checksum' role role' : Bytes),
      recordRoleName r checksum role = recordRoleName r' checksum' role' →
        r = r' ∧ checksum = checksum' ∧ role = role') ∧
    (∀ (r r' : UInt64) (role role' : Bytes),
      registryRoleName r role = registryRoleName r' role' → r = r' ∧ role = role') ∧
    (∀ (r r' : UInt64) (checksum role role' : Bytes),
      recordRoleName r checksum role ≠ registryRoleName r' role') ∧
    ∀ (env : Env) (names : Set Bytes), Set.InjOn env.keccak256 names →
      Set.InjOn (fun req : UInt64 × Bytes × Bytes => MsgServer.scopedRole env req.1 req.2.1 req.2.2)
        {req | req.1 ≠ 0 ∧ MsgServer.scopedRoleName req.1 req.2.1 req.2.2 ∈ names} := by
  refine ⟨fun _ _ _ _ _ _ => recordRoleName_inj, fun _ _ _ _ => registryRoleName_inj,
    fun r r' checksum role role' => (registryRoleName_ne_recordRoleName r' r checksum role' role).symm,
    ?_⟩
  rintro env names hcf ⟨r, checksum, role⟩ ⟨hr, hname⟩ ⟨r', checksum', role'⟩ ⟨-, hname'⟩ hrole
  have hhash : newRoleHash env (MsgServer.scopedRoleName r checksum role) =
      newRoleHash env (MsgServer.scopedRoleName r' checksum' role') := by
    rw [← MsgServer.scopedRole_eq, ← MsgServer.scopedRole_eq]
    exact hrole
  obtain ⟨rfl, rfl, rfl⟩ := scopedRoleName_inj hr (hcf hname hname' hhash)
  rfl

/-- The names of the small role run. -/
def smallNameList : List Bytes :=
  [registryRoleName 1 roleAdmin, recordRoleName 1 (str "c0") roleEditor, registryRoleName 2 roleAdmin]

/-- The names as a set. -/
def smallNames : Set Bytes := {name | name ∈ smallNameList}

instance : DecidablePred (· ∈ smallNames) := fun name =>
  inferInstanceAs (Decidable (name ∈ smallNameList))

theorem injOn_smallNames : Set.InjOn smallEnv.keccak256 smallNames := by
  have all : ∀ a ∈ smallNameList, ∀ b ∈ smallNameList,
      smallEnv.keccak256 a = smallEnv.keccak256 b → a = b := by decide +kernel
  exact fun a ha b hb => all a ha b hb

/-- The editor of a record is another role than the admin of its registry. -/
theorem roles_never_alias_small :
    MsgServer.scopedRole smallEnv 1 (str "c0") roleEditor ≠
      MsgServer.scopedRole smallEnv 1 [] roleAdmin := by
  intro h
  have heditor : ((1, str "c0", roleEditor) : UInt64 × Bytes × Bytes) ∈
      {req : UInt64 × Bytes × Bytes | req.1 ≠ 0 ∧
        MsgServer.scopedRoleName req.1 req.2.1 req.2.2 ∈ smallNames} := ⟨by decide, by decide +kernel⟩
  have hadmin : ((1, [], roleAdmin) : UInt64 × Bytes × Bytes) ∈
      {req : UInt64 × Bytes × Bytes | req.1 ≠ 0 ∧
        MsgServer.scopedRoleName req.1 req.2.1 req.2.2 ∈ smallNames} := ⟨by decide, by decide +kernel⟩
  have hsame := roles_never_alias.2.2.2 smallEnv smallNames injOn_smallNames heditor hadmin h
  exact absurd hsame (by decide +kernel)

/-! ## The role tables -/

/-- A name of a role that may have members: it is scoped to an existing registry, and a checksum in
it is anchored there. -/
inductive LiveName (s : Store) (r : UInt64) : Bytes → Prop
  | registry (role : Bytes) (known : r ∈ s.registries) : LiveName s r (registryRoleName r role)
  | record (checksum role : Bytes) (known : r ∈ s.registries)
    (present : (checksum, r) ∈ s.recordIdByChecksumAndRegistry) :
    LiveName s r (recordRoleName r checksum role)

namespace LiveName

variable {s s' : Store} {r : UInt64} {name : Bytes}

/-- A live name belongs to an existing registry. -/
theorem known (h : LiveName s r name) : r ∈ s.registries := by
  cases h with
  | registry role known => exact known
  | record checksum role known present => exact known

/-- A live name belongs to its registry. -/
theorem scopedTo (h : LiveName s r name) : ScopedTo r name := by
  cases h with
  | registry role known => exact .registry role
  | record checksum role known present => exact .record checksum role

/-- A store with more registries and more checksums has more live names. -/
theorem mono (h : LiveName s r name) (hr : ∀ r, r ∈ s.registries → r ∈ s'.registries)
    (hc : ∀ c r, (c, r) ∈ s.recordIdByChecksumAndRegistry →
      (c, r) ∈ s'.recordIdByChecksumAndRegistry) : LiveName s' r name := by
  cases h with
  | registry role known => exact .registry role (hr r known)
  | record checksum role known present => exact .record checksum role (hr r known) (hc _ r present)

/-- A role message past the scope check names a live role. -/
theorem of_inScope {checksum role : Bytes} (nonzero : r ≠ 0)
    (inScope : MsgServer.ensureRoleScopeExists s r checksum = .ok ()) :
    LiveName s r (MsgServer.scopedRoleName r checksum role) := by
  obtain ⟨known, hpresent⟩ := (ensureRoleScopeExists_eq_ok nonzero).mp inScope
  unfold MsgServer.scopedRoleName
  rw [isRecordRole_eq nonzero]
  split
  · rename_i hc
    exact .record checksum role known (hpresent (by simpa using hc)).2
  · exact .registry role known

end LiveName

/-- Every role with members is a live one, and is administered by its registry's admin role. -/
def RoleInv (env : Env) (names : Set Bytes) (s : Store) : Prop :=
  ∀ (role : Role) (account : Bytes), (role, account) ∈ s.rbac.roleMembers →
    ∃ r name, LiveName s r name ∧ name ∈ names ∧ role = newRoleHash env name ∧
      s.rbac.roleAdmins[role]? = some (registryRole env r roleAdmin).bytes

namespace RoleInv

variable {env : Env} {names : Set Bytes} {s s' : Store}

/-- Growing the store around the role tables keeps them well-scoped. -/
theorem mono (h : RoleInv env names s) (hrbac : s'.rbac = s.rbac)
    (hr : ∀ r, r ∈ s.registries → r ∈ s'.registries)
    (hc : ∀ c r, (c, r) ∈ s.recordIdByChecksumAndRegistry →
      (c, r) ∈ s'.recordIdByChecksumAndRegistry) : RoleInv env names s' := by
  intro role account hmem
  rw [hrbac] at hmem ⊢
  obtain ⟨r, name, hlive, hname, hrole, hadmin⟩ := h role account hmem
  exact ⟨r, name, hlive.mono hr hc, hname, hrole, hadmin⟩

/-- Granting a live role, with its registry's admin role as its admin. -/
theorem grant (h : RoleInv env names s) {r : UInt64} {name account : Bytes}
    (hlive : LiveName s r name) (hname : name ∈ names) :
    RoleInv env names { s with rbac := (s.rbac.setRoleAdmin (newRoleHash env name)
      (registryRole env r roleAdmin)).grantRoleUnchecked (newRoleHash env name) account } := by
  intro role a hmem
  by_cases hrole : newRoleHash env name = role
  · refine ⟨r, name, hlive.mono (fun _ h => h) (fun _ _ h => h), hname, hrole.symm, ?_⟩
    rw [← hrole]
    exact Std.ExtTreeMap.getElem?_insert_self
  · have hold : (role, a) ∈ s.rbac.roleMembers := by
      rcases Map.mem_insert.mp hmem with e | hold
      · exact absurd (congrArg Prod.fst e) hrole
      · exact hold
    obtain ⟨r', name', hlive', hname', hrole', hadmin⟩ := h role a hold
    exact ⟨r', name', hlive'.mono (fun _ h => h) (fun _ _ h => h), hname', hrole',
      (Map.get?_insert_ne _ _ hrole).trans hadmin⟩

/-- A revocation only removes members. -/
theorem revoke (h : RoleInv env names s) (role : Role) (account : Bytes) :
    RoleInv env names { s with rbac := s.rbac.revokeRoleUnchecked role account } := by
  intro role' account' hmem
  obtain ⟨r, name, hlive, hname, hrole, hadmin⟩ :=
    h role' account' (Std.ExtTreeMap.mem_of_mem_erase hmem)
  exact ⟨r, name, hlive.mono (fun _ h => h) (fun _ _ h => h), hname, hrole, hadmin⟩

/-- **One message keeps the role tables well-scoped.** -/
theorem delivered (h : RoleInv env names s) {ctx : Ctx} {msg : Msg}
    (hnames : ∀ name ∈ msg.roleNames s, name ∈ names) (hd : Delivered env ctx s msg s') :
    RoleInv env names s' := by
  cases hd with
  | refused failed => exact h
  | @addRegistry m sender creator count accepted signer valid counted creates =>
    -- the registry and its counters first, then the grant of its admin role
    have hgrown : RoleInv env names { s.withRegistry env (m.registry env ctx sender (count + 1))
        creator with rbac := s.rbac } :=
      h.mono rfl (fun r hr => Map.mem_insert.mpr (.inr hr)) (fun _ _ hc => hc)
    refine hgrown.grant (.registry roleAdmin (Map.mem_insert.mpr (.inl rfl))) ?_
    exact hnames _ (by simp [Msg.roleNames, counted, MsgAddRegistry.registry])
  | addRecord accepted signer carries valid known permitted assigned stored =>
    obtain ⟨-, hregistries, -, hrbac, hchecksums⟩ := addRecord_frame assigned stored
    exact h.mono hrbac (fun _ hr => hregistries ▸ hr) (fun _ _ hc => hchecksums _ hc)
  | updateRecordStatus accepted signer valid found permitted =>
    exact h.mono rfl (fun _ hr => hr) (fun _ _ hc => hc)
  | @grantRole m granter grantee signer grants nonzero inScope allowed =>
    rw [MsgServer.scopedRole_eq]
    exact h.grant (.of_inScope nonzero inScope) (hnames _ (by simp [Msg.roleNames]))
  | revokeRole signer revokes nonzero inScope held notLast administered allowed =>
    exact h.revoke _ _
  | updateParams signer stored authorized valid => exact h.mono rfl (fun _ hr => hr) (fun _ _ hc => hc)

/-- Where the hash tells the names apart, a role with members is its own registry's. -/
theorem admin_of_scopedTo (h : RoleInv env names s) (hcf : Set.InjOn env.keccak256 names)
    {r : UInt64} {name account : Bytes} (hname : name ∈ names) (hscope : ScopedTo r name)
    (hmem : s.rbac.hasRole (newRoleHash env name) account = true) :
    r ∈ s.registries ∧
      s.rbac.roleAdmins[newRoleHash env name]? = some (registryRole env r roleAdmin).bytes := by
  obtain ⟨r', name', hlive, hname', hrole, hadmin⟩ := h _ account (Rbac.hasRole_iff.mp hmem)
  have hsame : name = name' := hcf hname hname' hrole
  have hr : r = r' := hscope.unique (hsame ▸ hlive.scopedTo)
  exact hr ▸ ⟨hlive.known, hadmin⟩

end RoleInv

/-! ## Every registry keeps an admin -/

/-- Every registry has an account with its admin role. -/
def AdminInv (env : Env) (names : Set Bytes) (s : Store) : Prop :=
  ∀ r ∈ s.registries, registryRoleName r roleAdmin ∈ names ∧
    ∃ account, s.rbac.hasRole (registryRole env r roleAdmin) account = true

namespace AdminInv

variable {env : Env} {names : Set Bytes} {s s' : Store}

/-- Members that stay keep every registry its admin. -/
theorem mono (h : AdminInv env names s) (hregistries : s'.registries = s.registries)
    (hmembers : ∀ key, key ∈ s.rbac.roleMembers → key ∈ s'.rbac.roleMembers) :
    AdminInv env names s' := by
  intro r hr
  rw [hregistries] at hr
  obtain ⟨hname, account, hhas⟩ := h r hr
  exact ⟨hname, account, Rbac.hasRole_iff.mpr (hmembers _ (Rbac.hasRole_iff.mp hhas))⟩

/-- A revocation past its checks leaves every registry an admin. Only the admin role itself, named
as such, maps to an admin role's hash; and then another account holds it. -/
theorem revoke (h : AdminInv env names s) (hcf : Set.InjOn env.keccak256 names) {r : UInt64}
    {checksum role account : Bytes} (hname : MsgServer.scopedRoleName r checksum role ∈ names)
    (nonzero : r ≠ 0)
    (held : s.rbac.hasRole (MsgServer.scopedRole env r checksum role) account = true)
    (notLast : checksum = [] → role = roleAdmin →
      s.rbac.isSoleAdmin (registryRole env r roleAdmin) = .ok false) :
    AdminInv env names { s with
      rbac := s.rbac.revokeRoleUnchecked (MsgServer.scopedRole env r checksum role) account } := by
  intro r' hr'
  obtain ⟨hname', a, hhas⟩ := h r' hr'
  refine ⟨hname', ?_⟩
  have stays : ∀ b, (MsgServer.scopedRole env r checksum role, account) ≠
      (registryRole env r' roleAdmin, b) → s.rbac.hasRole (registryRole env r' roleAdmin) b = true →
      (s.rbac.revokeRoleUnchecked (MsgServer.scopedRole env r checksum role) account).hasRole
        (registryRole env r' roleAdmin) b = true := by
    intro b hne hb
    obtain ⟨v, hv⟩ := Map.mem_iff.mp (Rbac.hasRole_iff.mp hb)
    exact Rbac.hasRole_iff.mpr (Map.mem_of_get? ((Map.get?_erase_ne _ hne).trans hv))
  by_cases hrole : MsgServer.scopedRole env r checksum role = registryRole env r' roleAdmin
  · rw [MsgServer.scopedRole_eq] at hrole
    obtain ⟨rfl, hchecksum, hadmin⟩ :=
      scopedRoleName_eq_registryRoleName nonzero (hcf hname hname' hrole)
    rw [MsgServer.scopedRole_eq, hrole] at held
    obtain ⟨other, hother, hhas'⟩ := Rbac.exists_other_member held (notLast hchecksum hadmin)
    exact ⟨other, stays other (fun e => hother (congrArg Prod.snd e).symm) hhas'⟩
  · exact ⟨a, stays a (fun e => hrole (congrArg Prod.fst e)) hhas⟩

/-- **One message leaves every registry an admin.** -/
theorem delivered (h : AdminInv env names s) (hcf : Set.InjOn env.keccak256 names) {ctx : Ctx}
    {msg : Msg} (hnames : ∀ name ∈ msg.roleNames s, name ∈ names)
    (hd : Delivered env ctx s msg s') : AdminInv env names s' := by
  cases hd with
  | refused failed => exact h
  | @addRegistry m sender creator count accepted signer valid counted creates =>
    intro r hr
    rcases Map.mem_insert.mp hr with rfl | hold
    · exact ⟨hnames _ (by simp [Msg.roleNames, counted, MsgAddRegistry.registry]), creator,
        Rbac.hasRole_iff.mpr (Map.mem_insert.mpr (.inl rfl))⟩
    · obtain ⟨hname, account, hhas⟩ := h r hold
      exact ⟨hname, account,
        Rbac.hasRole_iff.mpr (Map.mem_insert.mpr (.inr (Rbac.hasRole_iff.mp hhas)))⟩
  | addRecord accepted signer carries valid known permitted assigned stored =>
    obtain ⟨-, hregistries, -, hrbac, -⟩ := addRecord_frame assigned stored
    exact h.mono hregistries (fun _ hk => hrbac ▸ hk)
  | updateRecordStatus accepted signer valid found permitted => exact h.mono rfl (fun _ hk => hk)
  | grantRole signer grants nonzero inScope allowed =>
    exact h.mono rfl (fun _ hk => Map.mem_insert.mpr (.inr hk))
  | revokeRole signer revokes nonzero inScope held notLast administered allowed =>
    exact h.revoke hcf (hnames _ (by simp [Msg.roleNames])) nonzero held notLast
  | updateParams signer stored authorized valid => exact h.mono rfl (fun _ hk => hk)

end AdminInv

/-! ## Every run -/

section Run

variable {env : Env} {names : Set Bytes} {s : Store}

/-- The invariant holds over any run, also past the last value of a counter. -/
theorem AnyReachable.roleInv (h : AnyReachable env names s) : RoleInv env names s :=
  h.invariant (fun _ _ _ _ hmem => absurd hmem Std.ExtTreeMap.not_mem_empty)
    (fun _ _ _ _ hinv hnames hd => hinv.delivered hnames hd)

theorem Reachable.roleInv (h : Reachable env names s) : RoleInv env names s := h.any.roleInv

/-- Over a run every registry keeps an admin. -/
theorem Reachable.adminInv (hcf : Set.InjOn env.keccak256 names) (h : Reachable env names s) :
    AdminInv env names s :=
  h.invariant (fun _ _ _ hmem => absurd hmem Std.ExtTreeMap.not_mem_empty)
    (fun _ _ _ _ _ hinv _ hnames hd => hinv.delivered hcf hnames hd)

end Run

/-- **No registry is ever orphaned**: over a run whose role names the hash tells apart, every registry
has an account with its admin role. -/
theorem no_registry_orphaned {env : Env} {names : Set Bytes} {s : Store}
    (hcf : Set.InjOn env.keccak256 names) (h : Reachable env names s) :
    ∀ r ∈ s.registries, ∃ account, s.rbac.hasRole (registryRole env r roleAdmin) account = true :=
  fun r hr => (h.adminInv hcf r hr).2

/-- Account 1 creates registry 1 and anchors a record, makes account 2 its editor, makes account 2
an admin, and gives its own admin role up. -/
def smallRoleMsgs : List (Ctx × Msg) :=
  [(smallCtx, .addRegistry (some ⟨str "nvnm1qyfcvmjm", str "deeds", [], []⟩)),
   (smallCtx, .addRecord (some ⟨str "nvnm1qyfcvmjm", some (smallRecord "c0")⟩)),
   (smallCtx, .grantRole (some ⟨str "nvnm1qyfcvmjm", str "nvnm1qgcx23ru", 1, str "c0", roleEditor⟩)),
   (smallCtx, .grantRole (some ⟨str "nvnm1qyfcvmjm", str "nvnm1qgcx23ru", 1, [], roleAdmin⟩)),
   (smallCtx, .revokeRole (some ⟨str "nvnm1qyfcvmjm", str "nvnm1qyfcvmjm", 1, [], roleAdmin⟩))]

/-- The store the small role run leaves. -/
def smallRoleStore : Store := runMsgs smallEnv smallRoleMsgs (Store.initial smallParams)

theorem admissible_smallRoleMsgs :
    Admissible smallEnv smallNames smallRoleMsgs (Store.initial smallParams) := by decide +kernel

theorem reachable_smallRoleStore : Reachable smallEnv smallNames smallRoleStore := by
  unfold smallRoleStore
  exact Reachable.runMsgs (Transition.Reachable.of_init initial_smallParams) admissible_smallRoleMsgs

/-- The creator of the registry resigned, and another account is its admin. -/
theorem no_registry_orphaned_smallRoleStore :
    smallRoleStore.rbac.hasRole (registryRole smallEnv 1 roleAdmin) [1] = false ∧
      ∃ account, smallRoleStore.rbac.hasRole (registryRole smallEnv 1 roleAdmin) account = true :=
  ⟨by decide +kernel,
    no_registry_orphaned injOn_smallNames reachable_smallRoleStore 1 (by decide +kernel)⟩

/-! ## Roles of a new registry -/

/-- A live name's role is one of the keeper's two kinds. -/
theorem LiveName.role_eq {env : Env} {s : Store} {r : UInt64} {name : Bytes}
    (h : LiveName s r name) :
    (∃ role, newRoleHash env name = registryRole env r role) ∨
      ∃ checksum role, newRoleHash env name = recordRole env r checksum role ∧
        (checksum, r) ∈ s.recordIdByChecksumAndRegistry := by
  cases h with
  | registry role known => exact .inl ⟨role, rfl⟩
  | record checksum role known present => exact .inr ⟨checksum, role, rfl, present⟩

/-- After `AddRegistry`, a role of the new registry has no member but the creator: before, the
registry was none and no role with members was scoped to it. -/
theorem RoleInv.only_creator {env : Env} {names : Set Bytes} {s : Store} (h : RoleInv env names s)
    (hcf : Set.InjOn env.keccak256 names) {registry : Registry} {creator : Bytes}
    (hnew : registry.id ∉ s.registries) {name account : Bytes} (hname : name ∈ names)
    (hscope : ScopedTo registry.id name)
    (hhas : (s.withRegistry env registry creator).rbac.hasRole (newRoleHash env name) account = true) :
    account = creator := by
  rcases Map.mem_insert.mp (Rbac.hasRole_iff.mp hhas) with e | hold
  · exact (congrArg Prod.snd e).symm
  · exact absurd (h.admin_of_scopedTo hcf hname hscope (Rbac.hasRole_iff.mpr hold)).1 hnew

/-- **The role tables are well-scoped.** Every role with members is scoped to an existing registry,
by an anchored checksum if it is a record's, and is administered by that registry's admin role. So a
new registry starts with its creator as the only holder of any of its roles. -/
theorem role_tables_well_scoped {env : Env} {names : Set Bytes} {s : Store}
    (hcf : Set.InjOn env.keccak256 names) (h : Reachable env names s) :
    (∀ (role : Role) (account : Bytes), (role, account) ∈ s.rbac.roleMembers →
      ∃ r ∈ s.registries,
        ((∃ t, role = registryRole env r t) ∨ ∃ c t, role = recordRole env r c t ∧
          (c, r) ∈ s.recordIdByChecksumAndRegistry) ∧
        s.rbac.roleAdmins[role]? = some (registryRole env r roleAdmin).bytes) ∧
    ∀ (ctx : Ctx) (m : MsgAddRegistry) (n : UInt64) (s' : Store), s.CountersBelowMax →
      (∀ name ∈ (Msg.addRegistry (some m)).roleNames s, name ∈ names) →
      handle env ctx (.addRegistry (some m)) s = .ok (.addRegistry n, s') →
      ∃ sender registry creator, env.stringToBytes m.sender = .ok sender ∧
        s'.registries[n]? = some registry ∧ registry.creator = env.accAddressString sender ∧
        env.stringToBytes registry.creator = .ok creator ∧
        s'.rbac.hasRole (registryRole env n roleAdmin) creator = true ∧
        ∀ name ∈ names, ScopedTo n name → ∀ account,
          s'.rbac.hasRole (newRoleHash env name) account = true → account = creator := by
  refine ⟨fun role account hmem => ?_, fun ctx m n s' hmax hnames haccepted => ?_⟩
  · obtain ⟨r, name, hlive, -, rfl, hadmin⟩ := h.roleInv role account hmem
    exact ⟨r, hlive.known, hlive.role_eq, hadmin⟩
  · cases delivered_addRegistry haccepted with
    | refused failed => cases failed.symm.trans haccepted
    | @addRegistry _ sender creator count accepted signer valid counted creates =>
      cases accepted.symm.trans haccepted
      have hnew := h.storeInv.registry_notMem counted (hmax.registries _ counted)
      refine ⟨sender, m.registry env ctx sender (count + 1), creator, signer,
        Std.ExtTreeMap.getElem?_insert_self, rfl, creates,
        Rbac.hasRole_iff.mpr (Map.mem_insert.mpr (.inl rfl)), ?_⟩
      exact fun name hname hscope account hhas => h.roleInv.only_creator hcf hnew hname hscope hhas

/-- In the small chain the editor of a record holds a role of registry 1, which the admins of registry 1
administer; a second registry starts with its creator as its only admin. -/
theorem role_tables_well_scoped_smallRoleStore :
    (∃ r ∈ smallRoleStore.registries,
      smallRoleStore.rbac.roleAdmins[recordRole smallEnv 1 (str "c0") roleEditor]? =
        some (registryRole smallEnv r roleAdmin).bytes) ∧
    ∃ s', handle smallEnv smallCtx
        (.addRegistry (some ⟨str "nvnm1qyfcvmjm", str "wills", [], []⟩)) smallRoleStore =
          .ok (.addRegistry 2, s') ∧
      ∃ creator, s'.rbac.hasRole (registryRole smallEnv 2 roleAdmin) creator = true ∧
        ∀ name ∈ smallNames, ScopedTo 2 name → ∀ account,
          s'.rbac.hasRole (newRoleHash smallEnv name) account = true → account = creator := by
  obtain ⟨hroles, hnew⟩ := role_tables_well_scoped injOn_smallNames reachable_smallRoleStore
  have hheld : smallRoleStore.rbac.hasRole (recordRole smallEnv 1 (str "c0") roleEditor) [2] = true := by
    decide +kernel
  have accepted : (handle smallEnv smallCtx
      (.addRegistry (some ⟨str "nvnm1qyfcvmjm", str "wills", [], []⟩)) smallRoleStore).map Prod.fst =
        .ok (.addRegistry 2) := by decide +kernel
  obtain ⟨r, hr, -, hadmin⟩ := hroles _ _ (Rbac.hasRole_iff.mp hheld)
  obtain ⟨-, -, creator, -, -, -, -, hcreator, honly⟩ := hnew smallCtx _ 2 _ (by decide +kernel)
    (by decide +kernel) (handle_eq_deliver accepted)
  exact ⟨⟨r, hr, hadmin⟩, _, handle_eq_deliver accepted, creator, hcreator, honly⟩

end Nvnmchain
