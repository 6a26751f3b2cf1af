import Nvnmchain.Anchoring.MsgServer

/-!
# What a message can do

A handler is a long sequence of checks and writes. This module says once, for each of the six, what
a successful run checked and which store it left; every invariant of the module is proved from
these cases and never from a handler's text.

`Delivered env ctx s msg s'` lists the cases: a message that was refused leaves the store alone, and
each accepted message leaves one of the stores `withRegistry`, `withVersion`, ... describe.
`delivered` says that `deliver` always is one of the cases.
-/

set_option autoImplicit false

namespace Nvnmchain

open Go (Bytes)
open Collections

/-! ## The stores a handler leaves -/

/-- A registry entered under its id, with its creator as the admin role's member. -/
def Store.withRegistry (env : Env) (registry : Registry) (creator : Bytes) (s : Store) : Store :=
  { s with
    registries := s.registries.insert registry.id registry
    recordsCountByRegistry := s.recordsCountByRegistry.insert registry.id 0
    registryCount := some registry.id
    rbac := (s.rbac.setRoleAdmin (registryRole env registry.id roleAdmin)
      (registryRole env registry.id roleAdmin)).grantRoleUnchecked
        (registryRole env registry.id roleAdmin) creator }

/-- A checksum entered in both indexes under a new record id. -/
def Store.withChecksum (registryId : UInt64) (checksum : Bytes) (recordId : UInt64) (s : Store) :
    Store :=
  { s with
    recordsCountByRegistry := s.recordsCountByRegistry.insert registryId recordId
    recordIdByChecksumAndRegistry :=
      s.recordIdByChecksumAndRegistry.insert (checksum, registryId) recordId
    recordIdByRegistryAndChecksum :=
      s.recordIdByRegistryAndChecksum.insert (registryId, checksum) recordId }

/-- A version entered under its own key, as its record's latest. -/
def Store.withVersion (record : Record) (s : Store) : Store :=
  { s with
    recordIndices := s.recordIndices.insert (record.registryId, record.recordId) record.index
    records := s.records.insert (record.registryId, record.recordId, record.index) record }

/-- One record rewritten in place. -/
def Store.withRecord (key : UInt64 × UInt64 × UInt64) (record : Record) (s : Store) : Store :=
  { s with records := s.records.insert key record }

/-- The fields `AddRecord` fills in. -/
def Record.versioned (record : Record) (ctx : Ctx) (recordId index : UInt64) : Record :=
  { record with recordId, index, timestamp := ctx.blockTime, isLatest := true }

/-- The registry `AddRegistry` stores. -/
def MsgAddRegistry.registry (env : Env) (ctx : Ctx) (m : MsgAddRegistry) (sender : Bytes)
    (registryId : UInt64) : Registry where
  id := registryId
  name := m.name
  description := m.description
  creator := env.accAddressString sender
  createdAt := ctx.blockTime
  metadata := m.metadata

/-! ## The cases -/

/-- The cases of `deliver`: which checks passed, and the store that was left. -/
inductive Delivered (env : Env) (ctx : Ctx) (s : Store) : Msg → Store → Prop
  | refused {msg : Msg} {e : Err} (failed : handle env ctx msg s = .error e) :
    Delivered env ctx s msg s
  | addRegistry {m : MsgAddRegistry} {sender creator : Bytes} {count : UInt64}
    (accepted : handle env ctx (.addRegistry (some m)) s = .ok (.addRegistry (count + 1),
      s.withRegistry env (m.registry env ctx sender (count + 1)) creator))
    (signer : env.stringToBytes m.sender = .ok sender)
    (valid : validateRegistryForCreate m.name m.description m.metadata = .ok ())
    (counted : s.registryCount = some count)
    (creates : env.stringToBytes (env.accAddressString sender) = .ok creator) :
    Delivered env ctx s (.addRegistry (some m))
      (s.withRegistry env (m.registry env ctx sender (count + 1)) creator)
  | addRecord {m : MsgAddRecord} {record : Record} {sender : Bytes} {recordId : UInt64}
    {s₁ s₂ : Store}
    (accepted : handle env ctx (.addRecord (some m)) s = .ok (.addRecord recordId, s₂))
    (signer : env.stringToBytes m.sender = .ok sender)
    (carries : m.record = some record)
    (valid : validateRecordForCreate record = .ok ())
    (known : record.registryId ∈ s.registries)
    (permitted : checkPermission env s sender record.registryId record.checksum
      [roleAdmin, roleEditor] = .ok ())
    (assigned : s.assignRecordId record.registryId record.checksum = .ok (recordId, s₁))
    (stored : s₁.storeVersion ctx recordId record = .ok s₂) :
    Delivered env ctx s (.addRecord (some m)) s₂
  | updateRecordStatus {m : MsgUpdateRecordStatus} {record : Record} {sender : Bytes}
    (accepted : handle env ctx (.updateRecordStatus (some m)) s = .ok (.empty,
      s.withRecord (m.registryId, m.recordId, m.index) { record with status := m.status }))
    (signer : env.stringToBytes m.editor = .ok sender)
    (valid : validateRecordStatus m.status = .ok ())
    (found : s.records[(m.registryId, m.recordId, m.index)]? = some record)
    (permitted : checkPermission env s sender m.registryId record.checksum
      [roleAdmin, roleEditor] = .ok ()) :
    Delivered env ctx s (.updateRecordStatus (some m))
      (s.withRecord (m.registryId, m.recordId, m.index) { record with status := m.status })
  | grantRole {m : MsgGrantRole} {granter grantee : Bytes}
    (signer : env.stringToBytes m.admin = .ok granter)
    (grants : env.stringToBytes m.address = .ok grantee)
    (nonzero : m.registryId ≠ 0)
    (inScope : MsgServer.ensureRoleScopeExists s m.registryId m.checksum = .ok ())
    (allowed : (m.checksum = [] ∧ m.role = roleAdmin ∧
        ∃ params, s.params = some params ∧ params.admin = m.admin) ∨
      s.rbac.hasRole (registryRole env m.registryId roleAdmin) granter = true) :
    Delivered env ctx s (.grantRole (some m)) { s with
      rbac := (s.rbac.setRoleAdmin (MsgServer.scopedRole env m.registryId m.checksum m.role)
        (registryRole env m.registryId roleAdmin)).grantRoleUnchecked
          (MsgServer.scopedRole env m.registryId m.checksum m.role) grantee }
  | revokeRole {m : MsgRevokeRole} {revoker revokee bz : Bytes}
    (signer : env.stringToBytes m.admin = .ok revoker)
    (revokes : env.stringToBytes m.address = .ok revokee)
    (nonzero : m.registryId ≠ 0)
    (inScope : MsgServer.ensureRoleScopeExists s m.registryId m.checksum = .ok ())
    (held : s.rbac.hasRole (MsgServer.scopedRole env m.registryId m.checksum m.role) revokee = true)
    (notLast : m.checksum = [] → m.role = roleAdmin →
      s.rbac.isSoleAdmin (registryRole env m.registryId roleAdmin) = .ok false)
    (administered : s.rbac.roleAdmins[MsgServer.scopedRole env m.registryId m.checksum m.role]? =
      some bz)
    (allowed : s.rbac.hasRole (Eth.bytesToHash bz) revoker = true) :
    Delivered env ctx s (.revokeRole (some m)) { s with
      rbac := s.rbac.revokeRoleUnchecked
        (MsgServer.scopedRole env m.registryId m.checksum m.role) revokee }
  | updateParams {m : MsgUpdateParams} {sender : Bytes} {current params : Params}
    (signer : env.stringToBytes m.authority = .ok sender)
    (stored : s.params = some current)
    (authorized : m.authority = current.admin)
    (valid : params.validate env = .ok ()) :
    Delivered env ctx s (.updateParams m) { s with params := some params }

/-! ## The halves of `AddRecord` -/

/-- A checksum keeps its record id; a new one gets the next id, entered in both checksum indexes. -/
theorem assignRecordId_eq_ok {registryId recordId : UInt64} {checksum : Bytes} {s s' : Store} :
    s.assignRecordId registryId checksum = .ok (recordId, s') ↔
      (s.recordIdByRegistryAndChecksum[(registryId, checksum)]? = some recordId ∧ s' = s) ∨
      (s.recordIdByRegistryAndChecksum[(registryId, checksum)]? = none ∧
        ∃ count, s.recordsCountByRegistry[registryId]? = some count ∧ (0 : UInt8) ∉ checksum ∧
          recordId = count + 1 ∧ s' = s.withChecksum registryId checksum recordId) := by
  unfold Store.assignRecordId
  cases h : s.recordIdByRegistryAndChecksum[(registryId, checksum)]? with
  | some k =>
    constructor
    · intro e
      cases e
      exact .inl ⟨rfl, rfl⟩
    · rintro (⟨hk, rfl⟩ | ⟨hk, _⟩)
      · cases hk; rfl
      · exact nomatch hk
  | none =>
    constructor
    · intro e
      obtain ⟨count, hcount, e⟩ := bind_eq_ok.mp e
      obtain ⟨_, hnul, e⟩ := bind_eq_ok.mp e
      cases e
      exact .inr ⟨rfl, count, getOrNotFound_eq_ok.mp hcount, encodeNonTerminal_eq_ok.mp hnul, rfl, rfl⟩
    · rintro (⟨hk, _⟩ | ⟨_, count, hcount, hnul, rfl, rfl⟩)
      · exact nomatch hk
      · refine bind_eq_ok.mpr ⟨count, getOrNotFound_eq_ok.mpr hcount, ?_⟩
        exact bind_eq_ok.mpr ⟨(), encodeNonTerminal_eq_ok.mpr hnul, rfl⟩

/-- The previous version is read after the new one was written, one index below it. -/
theorem storeVersion_eq_ok {ctx : Ctx} {recordId : UInt64} {record : Record} {s s' : Store} :
    s.storeVersion ctx recordId record = .ok s' ↔
      (¬ s.nextIndex record.registryId recordId > 1 ∧ s' = s.withVersion
        (record.versioned ctx recordId (s.nextIndex record.registryId recordId))) ∨
      (s.nextIndex record.registryId recordId > 1 ∧ ∃ prev,
        s.records[(record.registryId, recordId, s.nextIndex record.registryId recordId - 1)]? =
            some prev ∧
          s' = (s.withVersion (record.versioned ctx recordId
            (s.nextIndex record.registryId recordId))).withRecord
              (record.registryId, recordId, s.nextIndex record.registryId recordId - 1)
              { prev with isLatest := false }) := by
  unfold Store.storeVersion
  dsimp only
  generalize hi : s.nextIndex record.registryId recordId = i
  by_cases h : i > 1
  · rw [if_pos h]
    have hne : (record.registryId, recordId, i) ≠ (record.registryId, recordId, i - 1) := by
      intro e
      simp only [Prod.mk.injEq, true_and] at e
      have := congrArg UInt64.toNat e
      have h1 : 1 < i.toNat := UInt64.lt_iff_toNat_lt.mp h
      rw [UInt64.toNat_sub_of_le _ _ (UInt64.le_iff_toNat_le.mpr (by simpa using h1.le))] at this
      simp only [UInt64.toNat_one] at this
      omega
    rw [Map.get?_insert_ne _ _ hne]
    constructor
    · intro e
      obtain ⟨prev, hprev, e⟩ := bind_eq_ok.mp e
      cases e
      exact .inr ⟨h, prev, getOrNotFound_eq_ok.mp hprev, rfl⟩
    · rintro (⟨hn, _⟩ | ⟨_, prev, hprev, rfl⟩)
      · exact absurd h hn
      · exact bind_eq_ok.mpr ⟨prev, getOrNotFound_eq_ok.mpr hprev, rfl⟩
  · rw [if_neg h]
    constructor
    · intro e
      cases e
      exact .inl ⟨h, rfl⟩
    · rintro (⟨_, rfl⟩ | ⟨hg, _⟩)
      · rfl
      · exact absurd hg h

/-- What `AddRecord` leaves alone, and that it never forgets a checksum. -/
theorem addRecord_frame {ctx : Ctx} {recordId : UInt64} {record : Record} {s s₁ s₂ : Store}
    (assigned : s.assignRecordId record.registryId record.checksum = .ok (recordId, s₁))
    (stored : s₁.storeVersion ctx recordId record = .ok s₂) :
    s₂.params = s.params ∧ s₂.registries = s.registries ∧ s₂.registryCount = s.registryCount ∧
      s₂.rbac = s.rbac ∧ ∀ key, key ∈ s.recordIdByChecksumAndRegistry →
        key ∈ s₂.recordIdByChecksumAndRegistry := by
  have hfirst : s₁.params = s.params ∧ s₁.registries = s.registries ∧
      s₁.registryCount = s.registryCount ∧ s₁.rbac = s.rbac ∧
        ∀ key, key ∈ s.recordIdByChecksumAndRegistry → key ∈ s₁.recordIdByChecksumAndRegistry := by
    rcases assignRecordId_eq_ok.mp assigned with ⟨_, e⟩ | ⟨_, count, _, _, _, e⟩
    · rw [e]
      exact ⟨rfl, rfl, rfl, rfl, fun _ h => h⟩
    · rw [e]
      exact ⟨rfl, rfl, rfl, rfl, fun _ h => Map.mem_insert.mpr (.inr h)⟩
  rcases storeVersion_eq_ok.mp stored with ⟨_, rfl⟩ | ⟨_, prev, _, rfl⟩
  · exact hfirst
  · exact hfirst

/-! ## The scope of a role message -/

/-- A registry's id is not zero, so the checksum alone decides the scope. -/
theorem isRecordRole_eq {registryId : UInt64} {checksum : Bytes} (h : registryId ≠ 0) :
    MsgServer.isRecordRole registryId checksum = decide (checksum ≠ []) := by
  simp only [MsgServer.isRecordRole, ne_eq, h, not_false_eq_true, decide_true, Bool.true_and]

/-- The scope of a role exists: the registry does, and the checksum is anchored there if one is named. -/
theorem ensureRoleScopeExists_eq_ok {s : Store} {registryId : UInt64} {checksum : Bytes} {u : Unit}
    (h : registryId ≠ 0) :
    MsgServer.ensureRoleScopeExists s registryId checksum = .ok u ↔
      registryId ∈ s.registries ∧ (checksum ≠ [] →
        (0 : UInt8) ∉ checksum ∧ (checksum, registryId) ∈ s.recordIdByChecksumAndRegistry) := by
  unfold MsgServer.ensureRoleScopeExists
  rw [bind_eq_ok, isRecordRole_eq h]
  by_cases hc : checksum = []
  · simp only [hc, ne_eq, not_true_eq_false, decide_false, Bool.false_eq_true, if_false,
      require_eq_ok, Std.ExtTreeMap.contains_iff_mem, false_imp_iff, and_true]
    constructor
    · intro accepted
      obtain ⟨_, known, _⟩ := accepted
      exact known
    · intro known
      exact ⟨(), known, rfl⟩
  · simp only [hc, ne_eq, not_false_eq_true, decide_true, if_true, require_eq_ok, bind_eq_ok,
      Std.ExtTreeMap.contains_iff_mem, encodeNonTerminal_eq_ok, true_imp_iff]
    constructor
    · intro accepted
      obtain ⟨_, known, _, encodes, anchored⟩ := accepted
      exact ⟨known, encodes, anchored⟩
    · intro present
      obtain ⟨known, encodes, anchored⟩ := present
      exact ⟨(), known, (), encodes, anchored⟩

/-! ## Every message is one of the cases -/

section Cases

variable {env : Env} {ctx : Ctx} {s s' : Store} {r : Response}

/-- What an accepted `AddRegistry` checked, and did. -/
theorem delivered_addRegistry {req : Option MsgAddRegistry}
    (h : handle env ctx (.addRegistry req) s = .ok (r, s')) :
    Delivered env ctx s (.addRegistry req) s' := by
  have accepted := h
  obtain ⟨⟨id, s₂⟩, h, e⟩ := bind_eq_ok.mp h
  cases e
  cases req with
  | none => exact nomatch h
  | some m =>
    obtain ⟨_, _, h⟩ := bind_eq_ok.mp h
    obtain ⟨sender, signer, h⟩ := bind_eq_ok.mp h
    obtain ⟨_, valid, h⟩ := bind_eq_ok.mp h
    obtain ⟨count, counted, h⟩ := bind_eq_ok.mp h
    obtain ⟨creator, creates, h⟩ := bind_eq_ok.mp h
    cases h
    exact .addRegistry accepted signer (wrapInvalidRequest_eq_ok.mp valid)
      (getOrNotFound_eq_ok.mp counted) creates

/-- What an accepted `AddRecord` checked, and did. -/
theorem delivered_addRecord {req : Option MsgAddRecord}
    (h : handle env ctx (.addRecord req) s = .ok (r, s')) :
    Delivered env ctx s (.addRecord req) s' := by
  have accepted := h
  obtain ⟨⟨id, s₂⟩, h, e⟩ := bind_eq_ok.mp h
  cases e
  cases req with
  | none => exact nomatch h
  | some m =>
    obtain ⟨record, basic, h⟩ := bind_eq_ok.mp h
    obtain ⟨sender, signer, h⟩ := bind_eq_ok.mp h
    obtain ⟨_, valid, h⟩ := bind_eq_ok.mp h
    obtain ⟨_, known, h⟩ := bind_eq_ok.mp h
    obtain ⟨_, permitted, h⟩ := bind_eq_ok.mp h
    obtain ⟨⟨recordId, s₁⟩, assigned, h⟩ := bind_eq_ok.mp h
    obtain ⟨s₂, stored, h⟩ := bind_eq_ok.mp h
    cases h
    have carries := record_of_validateBasic (wrapInvalidRequest_eq_ok.mp basic)
    exact .addRecord accepted signer carries (wrapInvalidRequest_eq_ok.mp valid)
      (Map.mem_of_get? (getOrNotFound_eq_ok.mp known)) permitted assigned stored

/-- What an accepted `UpdateRecordStatus` checked, and did. -/
theorem delivered_updateRecordStatus {req : Option MsgUpdateRecordStatus}
    (h : handle env ctx (.updateRecordStatus req) s = .ok (r, s')) :
    Delivered env ctx s (.updateRecordStatus req) s' := by
  have accepted := h
  obtain ⟨s₂, h, e⟩ := bind_eq_ok.mp h
  cases e
  cases req with
  | none => exact nomatch h
  | some m =>
    obtain ⟨_, _, h⟩ := bind_eq_ok.mp h
    obtain ⟨sender, signer, h⟩ := bind_eq_ok.mp h
    obtain ⟨_, valid, h⟩ := bind_eq_ok.mp h
    obtain ⟨record, found, h⟩ := bind_eq_ok.mp h
    obtain ⟨_, permitted, h⟩ := bind_eq_ok.mp h
    cases h
    exact .updateRecordStatus accepted signer (wrapInvalidRequest_eq_ok.mp valid)
      (getOrNotFound_eq_ok.mp found) permitted

/-- What an accepted `GrantRole` checked, and did. -/
theorem delivered_grantRole {req : Option MsgGrantRole}
    (h : handle env ctx (.grantRole req) s = .ok (r, s')) :
    Delivered env ctx s (.grantRole req) s' := by
  obtain ⟨s₂, h, e⟩ := bind_eq_ok.mp h
  cases e
  cases req with
  | none => exact nomatch h
  | some m =>
    obtain ⟨_, basic, h⟩ := bind_eq_ok.mp h
    obtain ⟨granter, signer, h⟩ := bind_eq_ok.mp h
    obtain ⟨grantee, grants, h⟩ := bind_eq_ok.mp h
    obtain ⟨_, inScope, h⟩ := bind_eq_ok.mp h
    obtain ⟨breakGlass, glass, h⟩ := bind_eq_ok.mp h
    have nonzero := registryId_ne_zero_of_validateRoleMsg (wrapInvalidRequest_eq_ok.mp basic)
    rw [isRecordRole_eq nonzero] at glass
    cases breakGlass with
    | true =>
      cases h
      refine .grantRole signer grants nonzero inScope (.inl ?_)
      split at glass
      · rename_i hcond
        obtain ⟨params, hparams, e⟩ := bind_eq_ok.mp glass
        simp only [Bool.and_eq_true, Bool.not_eq_true', decide_eq_false_iff_not, decide_eq_true_eq,
          ne_eq, not_not] at hcond
        refine ⟨hcond.1, hcond.2, params, getOrNotFound_eq_ok.mp hparams, ?_⟩
        simpa using Except.ok.inj e
      · exact nomatch glass
    | false =>
      obtain ⟨rbac, hgrant, e⟩ := bind_eq_ok.mp h
      cases e
      obtain ⟨⟨bz, hbz, hhas⟩, rfl⟩ := Rbac.grantRole_eq_ok.mp hgrant
      refine .grantRole signer grants nonzero inScope (.inr ?_)
      simp only [Rbac.setRoleAdmin, Std.ExtTreeMap.getElem?_insert_self, Option.some.injEq] at hbz
      rw [← hbz, Eth.bytesToHash_bytes] at hhas
      exact hhas

/-- What an accepted `RevokeRole` checked, and did. -/
theorem delivered_revokeRole {req : Option MsgRevokeRole}
    (h : handle env ctx (.revokeRole req) s = .ok (r, s')) :
    Delivered env ctx s (.revokeRole req) s' := by
  obtain ⟨s₂, h, e⟩ := bind_eq_ok.mp h
  cases e
  cases req with
  | none => exact nomatch h
  | some m =>
    obtain ⟨_, basic, h⟩ := bind_eq_ok.mp h
    obtain ⟨revoker, signer, h⟩ := bind_eq_ok.mp h
    obtain ⟨revokee, revokes, h⟩ := bind_eq_ok.mp h
    obtain ⟨_, inScope, h⟩ := bind_eq_ok.mp h
    obtain ⟨_, held, h⟩ := bind_eq_ok.mp h
    obtain ⟨lastAdmin, last, h⟩ := bind_eq_ok.mp h
    obtain ⟨_, notLast, h⟩ := bind_eq_ok.mp h
    obtain ⟨rbac, hrevoke, e⟩ := bind_eq_ok.mp h
    cases e
    obtain ⟨⟨bz, hbz, hhas⟩, rfl⟩ := Rbac.revokeRole_eq_ok.mp hrevoke
    have nonzero := registryId_ne_zero_of_validateRoleMsg (wrapInvalidRequest_eq_ok.mp basic)
    rw [isRecordRole_eq nonzero] at last
    refine .revokeRole signer revokes nonzero inScope (require_eq_ok.mp held) ?_ hbz hhas
    intro hchecksum hrole
    simp only [hchecksum, hrole, ne_eq, not_true_eq_false, decide_false, Bool.not_false,
      decide_true, Bool.and_self, if_true] at last
    have hfalse : lastAdmin = false := by simpa using require_eq_ok.mp notLast
    rw [last, hfalse]

/-- What an accepted `UpdateParams` checked, and did. -/
theorem delivered_updateParams {req : MsgUpdateParams}
    (h : handle env ctx (.updateParams req) s = .ok (r, s')) :
    Delivered env ctx s (.updateParams req) s' := by
  obtain ⟨s₂, h, e⟩ := bind_eq_ok.mp h
  cases e
  obtain ⟨_, signer, h⟩ := bind_eq_ok.mp h
  obtain ⟨_, stored, h⟩ := bind_eq_ok.mp h
  obtain ⟨_, authorized, h⟩ := bind_eq_ok.mp h
  obtain ⟨_, _, h⟩ := bind_eq_ok.mp h
  obtain ⟨_, valid, h⟩ := bind_eq_ok.mp h
  cases h
  exact .updateParams (mapError_eq_ok.mp signer) (getOrNotFound_eq_ok.mp stored)
    (by simpa using require_eq_ok.mp authorized) valid

end Cases

/-- **Every message is one of the cases**, whatever the store it meets. -/
theorem delivered (env : Env) (ctx : Ctx) (msg : Msg) (s : Store) :
    Delivered env ctx s msg (deliver env ctx msg s) := by
  unfold deliver
  cases h : handle env ctx msg s with
  | error e => exact .refused h
  | ok out =>
    obtain ⟨r, s'⟩ := out
    cases msg with
    | updateParams req => exact delivered_updateParams h
    | addRegistry req => exact delivered_addRegistry h
    | addRecord req => exact delivered_addRecord h
    | updateRecordStatus req => exact delivered_updateRecordStatus h
    | grantRole req => exact delivered_grantRole h
    | revokeRole req => exact delivered_revokeRole h

/-- A message leaves the registries alone, or adds the one the counter names next. -/
theorem Delivered.registries_cases {env : Env} {ctx : Ctx} {msg : Msg} {s s' : Store}
    (hd : Delivered env ctx s msg s') :
    (s'.registries = s.registries ∧ s'.registryCount = s.registryCount) ∨
      ∃ n registry, s.registryCount = some n ∧ registry.id = n + 1 ∧
        s'.registries = s.registries.insert (n + 1) registry ∧ s'.registryCount = some (n + 1) := by
  cases hd with
  | refused failed => exact .inl ⟨rfl, rfl⟩
  | addRegistry accepted signer valid counted creates => exact .inr ⟨_, _, counted, rfl, rfl, rfl⟩
  | addRecord accepted signer carries valid known permitted assigned stored =>
    obtain ⟨-, hregistries, hcount, -⟩ := addRecord_frame assigned stored
    exact .inl ⟨hregistries, hcount⟩
  | updateRecordStatus accepted signer valid found permitted => exact .inl ⟨rfl, rfl⟩
  | grantRole signer grants nonzero inScope allowed => exact .inl ⟨rfl, rfl⟩
  | revokeRole signer revokes nonzero inScope held notLast administered allowed =>
    exact .inl ⟨rfl, rfl⟩
  | updateParams signer stored authorized valid => exact .inl ⟨rfl, rfl⟩

/-- No message removes a registry. -/
theorem Delivered.mem_registries {env : Env} {ctx : Ctx} {msg : Msg} {s s' : Store} {r : UInt64}
    (hd : Delivered env ctx s msg s') (hr : r ∈ s.registries) : r ∈ s'.registries := by
  rcases hd.registries_cases with ⟨hregistries, -⟩ | ⟨n, registry, -, -, hregistries, -⟩
  · exact hregistries ▸ hr
  · exact hregistries ▸ Map.mem_insert.mpr (.inr hr)

end Nvnmchain
