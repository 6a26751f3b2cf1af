import Nvnmchain.Anchoring.LedgerRefines

/-!
# The table that no one reads

`RoleAdmins` is written by every grant and never cleaned, so two stores that hold the same ledger may
differ there. No message can tell them apart: two stores of runs that agree on every other collection
give every later list of messages the same answers and the same errors (`role_admins_unobserved`).

The proof runs a message on both stores in lockstep. A grant reads the entry that it wrote a line before.
A revocation reads the entry of a role that has a member, and there both tables name the admin role of
the registry.
-/

set_option autoImplicit false

namespace Nvnmchain

open Go (Bytes str)
open Collections

/-- A store with another table of role admins. -/
def Store.withRoleAdmins (s : Store) (roleAdmins : Map Role Bytes) : Store :=
  { s with rbac := { s.rbac with roleAdmins } }

/-- Stores that differ in the table only. -/
def AgreeButAdmins (s t : Store) : Prop := s.withoutRoleAdmins = t.withoutRoleAdmins

/-- The one store is the other with another table. -/
theorem eq_withRoleAdmins {s t : Store} (hst : AgreeButAdmins s t) :
    t = s.withRoleAdmins t.rbac.roleAdmins := by
  have hmembers : s.rbac.roleMembers = t.rbac.roleMembers := congrArg (·.rbac.roleMembers) hst
  refine Store.ext ?_ ?_ ?_ ?_ ?_ ?_ ?_ ?_ ?_
  · exact (congrArg (·.params) hst).symm
  · exact (congrArg (·.registries) hst).symm
  · exact (congrArg (·.registryCount) hst).symm
  · exact (congrArg (·.records) hst).symm
  · exact (congrArg (·.recordIdByRegistryAndChecksum) hst).symm
  · exact (congrArg (·.recordsCountByRegistry) hst).symm
  · exact (congrArg (·.recordIndices) hst).symm
  · exact (congrArg (·.recordIdByChecksumAndRegistry) hst).symm
  · show t.rbac = ⟨t.rbac.roleAdmins, s.rbac.roleMembers⟩
    rw [hmembers]

/-- The same answer, and stores that differ in the table only. -/
def SameButAdmins {α : Type} (p q : α × Store) : Prop := p.1 = q.1 ∧ AgreeButAdmins p.2 q.2

/-! ## The handlers in lockstep -/

section Handlers

variable {env : Env} {names : Set Bytes}

/-- A checksum gets its record id. -/
theorem assignRecordId_unread (s : Store) (roleAdmins : Map Role Bytes) (r : UInt64) (checksum : Bytes) :
    Lockstep SameButAdmins (s.assignRecordId r checksum)
      ((s.withRoleAdmins roleAdmins).assignRecordId r checksum) := by
  unfold Store.assignRecordId
  dsimp only [Store.withRoleAdmins]
  cases s.recordIdByRegistryAndChecksum[(r, checksum)]? with
  | some recordId => exact .ok ⟨rfl, rfl⟩
  | none => exact .bind_same _ fun count _ => .bind_same _ fun _ _ => .ok ⟨rfl, rfl⟩

/-- A version is stored. -/
theorem storeVersion_unread (s : Store) (roleAdmins : Map Role Bytes) (ctx : Ctx) (recordId : UInt64)
    (record : Record) :
    Lockstep AgreeButAdmins (s.storeVersion ctx recordId record)
      ((s.withRoleAdmins roleAdmins).storeVersion ctx recordId record) := by
  unfold Store.storeVersion
  have hnext : (s.withRoleAdmins roleAdmins).nextIndex record.registryId recordId =
      s.nextIndex record.registryId recordId := rfl
  dsimp only
  rw [hnext]
  split
  · exact .bind_same _ fun prev _ => .ok rfl
  · exact .ok rfl

/-- A new registry writes to the table and reads nothing of it. -/
theorem addRegistry_unread (s : Store) (roleAdmins : Map Role Bytes) (ctx : Ctx) (m : MsgAddRegistry) :
    Lockstep SameButAdmins (MsgServer.addRegistry env ctx (some m) s)
      (MsgServer.addRegistry env ctx (some m) (s.withRoleAdmins roleAdmins)) := by
  refine .bind_same _ fun _ _ => .bind_same _ fun sender _ => ?_
  refine .bind_same _ fun _ _ => .bind_same _ fun count _ => .bind_same _ fun creator _ => ?_
  exact .ok ⟨rfl, rfl⟩

/-- A permission is looked up among the members. -/
theorem addRecord_unread (s : Store) (roleAdmins : Map Role Bytes) (ctx : Ctx) (m : MsgAddRecord) :
    Lockstep SameButAdmins (MsgServer.addRecord env ctx (some m) s)
      (MsgServer.addRecord env ctx (some m) (s.withRoleAdmins roleAdmins)) := by
  refine .bind_same _ fun record _ => .bind_same _ fun sender _ => ?_
  refine .bind_same _ fun _ _ => .bind_same _ fun _ _ => .bind_same _ fun _ _ => ?_
  refine (assignRecordId_unread s roleAdmins record.registryId record.checksum).bind ?_
  rintro ⟨recordId, s₁⟩ ⟨_, t₁⟩ ⟨rfl, h₁⟩
  have ht₁ : t₁ = s₁.withRoleAdmins t₁.rbac.roleAdmins := eq_withRoleAdmins h₁
  rw [ht₁]
  exact (storeVersion_unread s₁ _ ctx recordId record).bind fun s₂ t₂ h₂ => .ok ⟨rfl, h₂⟩

theorem updateRecordStatus_unread (s : Store) (roleAdmins : Map Role Bytes) (m : MsgUpdateRecordStatus) :
    Lockstep AgreeButAdmins (MsgServer.updateRecordStatus env (some m) s)
      (MsgServer.updateRecordStatus env (some m) (s.withRoleAdmins roleAdmins)) := by
  refine .bind_same _ fun _ _ => .bind_same _ fun sender _ => ?_
  exact .bind_same _ fun _ _ => .bind_same _ fun record _ => .bind_same _ fun _ _ => .ok rfl

theorem updateParams_unread (s : Store) (roleAdmins : Map Role Bytes) (m : MsgUpdateParams) :
    Lockstep AgreeButAdmins (MsgServer.updateParams env m s)
      (MsgServer.updateParams env m (s.withRoleAdmins roleAdmins)) := by
  refine .bind_same _ fun _ _ => .bind_same _ fun params _ => .bind_same _ fun _ _ => ?_
  exact .bind_same _ fun current _ => .bind_same _ fun _ _ => .ok rfl

/-- A grant reads the admin that it set. -/
theorem grantRole_unread (s : Store) (roleAdmins : Map Role Bytes) (m : MsgGrantRole) :
    Lockstep AgreeButAdmins (MsgServer.grantRole env (some m) s)
      (MsgServer.grantRole env (some m) (s.withRoleAdmins roleAdmins)) := by
  refine .bind_same _ fun _ _ => .bind_same _ fun granter _ => .bind_same _ fun grantee _ => ?_
  refine .bind_same _ fun _ _ => .bind_same _ fun breakGlass _ => ?_
  cases breakGlass with
  | true => exact .ok rfl
  | false =>
    have hset : ∀ (k : Rbac) (role adminRole : Role),
        (k.setRoleAdmin role adminRole).roleAdmins[role]? = some adminRole.bytes :=
      fun k role adminRole => Std.ExtTreeMap.getElem?_insert_self
    have hrequire : ∀ role adminRole : Role,
        ((s.withRoleAdmins roleAdmins).rbac.setRoleAdmin role adminRole).requireRoleAdmin env role
            granter =
          (s.rbac.setRoleAdmin role adminRole).requireRoleAdmin env role granter :=
      fun role adminRole => requireRoleAdmin_congr env granter
        ((hset _ role adminRole).trans (hset _ role adminRole).symm) fun _ _ => rfl
    simp only [Bool.false_eq_true, if_false, Rbac.grantRole, hrequire, bind_assoc]
    exact .bind_same _ fun _ _ => .ok rfl

/-- A revocation reads the admin of a role that is held, which over a run is the registry's own. -/
theorem revokeRole_unread (hcf : Set.InjOn env.keccak256 names) {s : Store}
    {roleAdmins : Map Role Bytes} (hs : RoleInv env names s)
    (ht : RoleInv env names (s.withRoleAdmins roleAdmins)) {m : MsgRevokeRole}
    (hrole : MsgServer.scopedRoleName m.registryId m.checksum m.role ∈ names) :
    Lockstep AgreeButAdmins (MsgServer.revokeRole env (some m) s)
      (MsgServer.revokeRole env (some m) (s.withRoleAdmins roleAdmins)) := by
  have hscope := scopedTo_scopedRoleName m.registryId m.checksum m.role
  unfold MsgServer.revokeRole
  dsimp only
  rw [MsgServer.scopedRole_eq]
  refine .bind_same _ fun _ _ => .bind_same _ fun revoker _ => .bind_same _ fun revokee _ => ?_
  refine .bind_same _ fun _ _ => .bind_same _ fun _ held => ?_
  refine .bind_same _ fun lastAdmin _ => .bind_same _ fun _ _ => ?_
  have hheld := require_eq_ok.mp held
  have hown := (hs.admin_of_scopedTo hcf hrole hscope hheld).2
  have hown' := (ht.admin_of_scopedTo hcf hrole hscope hheld).2
  have hrequire := requireRoleAdmin_congr env revoker (hown'.trans hown.symm) fun _ _ => rfl
  simp only [Rbac.revokeRole, hrequire, bind_assoc]
  exact .bind_same _ fun _ _ => .ok rfl

/-- An empty answer beside a store that differs in the table only. -/
theorem lockstep_empty {x y : Except Err Store} (h : Lockstep AgreeButAdmins x y) :
    Lockstep SameButAdmins (do pure (Response.empty, ← x)) (do pure (Response.empty, ← y)) :=
  h.bind fun _ _ h' => .ok ⟨rfl, h'⟩

/-- **A message does not read the table.** Where only the table differs, it fails with the same error,
or gives the same answer and leaves stores that differ there only. -/
theorem handle_unread (hcf : Set.InjOn env.keccak256 names) {s t : Store} (hs : RoleInv env names s)
    (ht : RoleInv env names t) (hst : AgreeButAdmins s t) (ctx : Ctx) (msg : Msg)
    (hnames : ∀ name ∈ msg.roleNames s, name ∈ names) :
    Lockstep SameButAdmins (handle env ctx msg s) (handle env ctx msg t) := by
  have hsame := eq_withRoleAdmins hst
  generalize t.rbac.roleAdmins = roleAdmins at hsame
  subst hsame
  cases msg with
  | updateParams m => exact lockstep_empty (updateParams_unread s roleAdmins m)
  | addRegistry req =>
    cases req with
    | none => exact .error _
    | some m =>
      refine (addRegistry_unread s roleAdmins ctx m).bind ?_
      rintro ⟨r, s'⟩ ⟨_, t'⟩ ⟨rfl, h'⟩
      exact .ok ⟨rfl, h'⟩
  | addRecord req =>
    cases req with
    | none => exact .error _
    | some m =>
      refine (addRecord_unread s roleAdmins ctx m).bind ?_
      rintro ⟨k, s'⟩ ⟨_, t'⟩ ⟨rfl, h'⟩
      exact .ok ⟨rfl, h'⟩
  | updateRecordStatus req =>
    cases req with
    | none => exact .error _
    | some m => exact lockstep_empty (updateRecordStatus_unread s roleAdmins m)
  | grantRole req =>
    cases req with
    | none => exact .error _
    | some m => exact lockstep_empty (grantRole_unread s roleAdmins m)
  | revokeRole req =>
    cases req with
    | none => exact .error _
    | some m => exact lockstep_empty (revokeRole_unread hcf hs ht (hnames _ List.mem_cons_self))

end Handlers

/-! ## Runs -/

section Runs

variable {env : Env} {names : Set Bytes} {s t : Store}

/-- What the senders of some messages are told, answers and errors. -/
def responses (env : Env) : List (Ctx × Msg) → Store → List (Except Err Response)
  | [], _ => []
  | (ctx, msg) :: rest, s =>
    (handle env ctx msg s).map Prod.fst :: responses env rest (deliver env ctx msg s)

/-- Stores that agree go on to stores that agree. -/
theorem deliver_unread {ctx : Ctx} {msg : Msg} (hst : AgreeButAdmins s t)
    (h : Lockstep SameButAdmins (handle env ctx msg s) (handle env ctx msg t)) :
    AgreeButAdmins (deliver env ctx msg s) (deliver env ctx msg t) := by
  unfold deliver
  generalize handle env ctx msg s = x at h ⊢
  generalize handle env ctx msg t = y at h ⊢
  cases h with
  | ok related => exact related.2
  | error e => exact hst

/-- A message is as much within its limits where only the table differs. -/
theorem within_congr (hst : AgreeButAdmins s t) {input : Ctx × Msg} (h : Within names input s) :
    Within names input t := by
  rw [eq_withRoleAdmins hst]
  obtain ⟨ctx, msg⟩ := input
  refine ⟨⟨h.1.registries, h.1.records, h.1.versions⟩, ?_⟩
  rcases msg with m | m | (_ | m) | (_ | m) | (_ | m) | (_ | m) <;> exact h.2

/-- **The table of role admins is never observed.** Two stores of runs that agree on every other
collection give every later list of messages the same answers and the same errors, and agree
afterwards. -/
theorem role_admins_unobserved {msgs : List (Ctx × Msg)} (hcf : Set.InjOn env.keccak256 names)
    (hs : Reachable env names s) (ht : Reachable env names t)
    (hst : s.withoutRoleAdmins = t.withoutRoleAdmins)
    (hmsgs : Simulation.Along (server env) (Within names) msgs s) :
    responses env msgs s = responses env msgs t ∧
      (runMsgs env msgs s).withoutRoleAdmins = (runMsgs env msgs t).withoutRoleAdmins := by
  induction msgs generalizing s t with
  | nil => exact ⟨rfl, hst⟩
  | cons input rest ih =>
    obtain ⟨ctx, msg⟩ := input
    obtain ⟨hwithin, hrest⟩ := hmsgs
    rw [next_server] at hrest
    have hstep := handle_unread hcf hs.roleInv ht.roleInv hst ctx msg fun name hname =>
      hwithin.2 name (roleNames_subset msg s hname)
    obtain ⟨hresponses, hafter⟩ := ih (hs.deliver hwithin) (ht.deliver (within_congr hst hwithin))
      (deliver_unread hst hstep) hrest
    refine ⟨?_, hafter⟩
    rw [responses, responses, hresponses, hstep.map_eq fun _ _ h => h.1]

end Runs

/-- Account 1 creates a registry, makes account 2 its editor, and takes that back. -/
def triedMsgs : List (Ctx × Msg) := openedMsgs ++
  [(smallCtx, .grantRole (some ⟨str "nvnm1qyfcvmjm", str "nvnm1qgcx23ru", 1, [], roleEditor⟩)),
   (smallCtx, .revokeRole (some ⟨str "nvnm1qyfcvmjm", str "nvnm1qgcx23ru", 1, [], roleEditor⟩))]

def triedStore : Store := runMsgs smallEnv triedMsgs (Store.initial smallParams)

/-- The editor is revoked once more, and then the run goes on. -/
def laterMsgs : List (Ctx × Msg) :=
  (smallCtx, .revokeRole (some ⟨str "nvnm1qyfcvmjm", str "nvnm1qgcx23ru", 1, [], roleEditor⟩)) ::
    smallRoleMsgs.drop 1

/-- The editor that was taken back is left in the table; it cannot be taken back again, with the same
error whether the table names its admin or not, and the record is added all the same. -/
theorem role_admins_unobserved_small :
    triedStore.rbac.roleAdmins.contains (registryRole smallEnv 1 roleEditor) = true ∧
      openedStore.rbac.roleAdmins.contains (registryRole smallEnv 1 roleEditor) = false ∧
      responses smallEnv laterMsgs openedStore = responses smallEnv laterMsgs triedStore ∧
      responses smallEnv laterMsgs openedStore =
        [.error (.wrap (.sentinel .invalidRequest) (str "address does not have the specified role")),
          .ok (.addRecord 1), .ok .empty, .ok .empty, .ok .empty] := by
  have hopened : Holds smallEnv ledgerNames openedStore _ := holds_smallRun (by decide +kernel)
  have htried : Holds smallEnv ledgerNames triedStore _ := holds_smallRun (by decide +kernel)
  have hsame : Simulation.after (Ledger.machine smallEnv) openedMsgs (.initial smallParams) =
      Simulation.after (Ledger.machine smallEnv) triedMsgs (.initial smallParams) := by decide +kernel
  rw [hsame] at hopened
  exact ⟨by decide +kernel, by decide +kernel,
    (role_admins_unobserved injOn_ledgerNames hopened.1 htried.1 (hopened.2.determines htried.2)
      (by decide +kernel)).1, by decide +kernel⟩

end Nvnmchain
