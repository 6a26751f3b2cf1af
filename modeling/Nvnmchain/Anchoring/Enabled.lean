import Nvnmchain.Anchoring.LedgerRefines

/-!
# No registry is ever stuck

That every registry keeps an admin says who is left, not what they can do. Here is what they can do:
whatever has happened on the chain, there is an account, with an address that can be written, whose
messages to the registry the module accepts. `Sound` says which: those that pass the checks that read no
state, and that name what exists. A record may be added under any checksum that can be a key, any status
set, any role of the registry and its documents granted, and any role that is held revoked, but for the
last admin's own (`registry_never_stuck`).

The argument goes through the ledger, whose rules say in one line each what is accepted.
-/

set_option autoImplicit false

namespace Nvnmchain

open Go (Bytes str)
open Collections
open NumberedList
open Ledger

/-! ## Accounts that can sign -/

/-- Every account that holds a role has an address that can be written. -/
def MembersWritten (env : Env) (s : Store) : Prop :=
  ∀ role account, (role, account) ∈ s.rbac.roleMembers → ∃ text, env.stringToBytes text = .ok account

theorem MembersWritten.insert {env : Env} {s s' : Store} (h : MembersWritten env s) {account text : Bytes}
    (htext : env.stringToBytes text = .ok account) {role : Role}
    (hs' : s'.rbac.roleMembers = s.rbac.roleMembers.insert (role, account) []) :
    MembersWritten env s' := by
  intro role' account' hmem
  rw [hs'] at hmem
  rcases Map.mem_insert.mp hmem with e | hold
  · cases e
    exact ⟨text, htext⟩
  · exact h role' account' hold

/-- A message adds no member but an account that it names by its text. -/
theorem MembersWritten.delivered {env : Env} {ctx : Ctx} {msg : Msg} {s s' : Store}
    (h : MembersWritten env s) (hd : Delivered env ctx s msg s') : MembersWritten env s' := by
  cases hd with
  | refused failed => exact h
  | addRegistry accepted signer valid counted creates => exact h.insert creates rfl
  | addRecord accepted signer carries valid known permitted assigned stored =>
    obtain ⟨-, -, -, hrbac, -⟩ := addRecord_frame assigned stored
    intro role account hmem
    rw [hrbac] at hmem
    exact h role account hmem
  | updateRecordStatus accepted signer valid found permitted => exact h
  | grantRole signer grants nonzero inScope allowed => exact h.insert grants rfl
  | revokeRole signer revokes nonzero inScope held notLast administered allowed =>
    intro role account hmem
    exact h role account (Std.ExtTreeMap.mem_of_mem_erase hmem)
  | updateParams signer stored authorized valid => exact h

/-- Over a run, every member of a role has a text. -/
theorem Reachable.membersWritten {env : Env} {names : Set Bytes} {s : Store} (h : Reachable env names s) :
    MembersWritten env s := by
  refine h.invariant (fun params _ role account hmem => ?_) ?_
  · exact absurd hmem Std.ExtTreeMap.not_mem_empty
  · intro s s' ctx msg _ hs _ _ hd
    exact hs.delivered hd

/-! ## What an admin may do -/

/-- A message to a registry that passes the checks that read no state and names what exists. -/
inductive Sound (env : Env) (s : Store) (r : UInt64) : Msg → Prop
  | addRecord {m : MsgAddRecord} {record : Record} (valid : m.validateBasic env = .ok record)
    (inRegistry : record.registryId = r) (keyable : (0 : UInt8) ∉ record.checksum) :
    Sound env s r (.addRecord (some m))
  | updateRecordStatus {m : MsgUpdateRecordStatus} (valid : m.validateBasic env = .ok ())
    (inRegistry : m.registryId = r) (found : (r, m.recordId, m.index) ∈ s.records) :
    Sound env s r (.updateRecordStatus (some m))
  | grantRole {m : MsgGrantRole} {grantee : Bytes} (valid : m.validateBasic env = .ok ())
    (inRegistry : m.registryId = r) (grants : env.stringToBytes m.address = .ok grantee)
    (inScope : m.checksum ≠ [] → (r, m.checksum) ∈ s.recordIdByRegistryAndChecksum) :
    Sound env s r (.grantRole (some m))
  | revokeRole {m : MsgRevokeRole} {revokee : Bytes} (valid : m.validateBasic env = .ok ())
    (inRegistry : m.registryId = r) (revokes : env.stringToBytes m.address = .ok revokee)
    (inScope : m.checksum ≠ [] → (r, m.checksum) ∈ s.recordIdByRegistryAndChecksum)
    (held : s.rbac.hasRole (MsgServer.scopedRole env r m.checksum m.role) revokee = true)
    (notLast : m.checksum = [] → m.role = roleAdmin →
      ∃ other, other ≠ revokee ∧ s.rbac.hasRole (registryRole env r roleAdmin) other = true) :
    Sound env s r (.revokeRole (some m))

namespace Ledger

variable {L : Ledger} {r : UInt64} {account : Bytes}

/-- An admin of a registry may edit all its documents. -/
theorem IsAdmin.mayEdit (h : L.IsAdmin r account) (c : Bytes) : L.MayEdit r c account :=
  ⟨roleAdmin, by simp, .inr h⟩

end Ledger

section Enabled

variable {env : Env} {names : Set Bytes} {s : Store} {L : Ledger} {r : UInt64}

/-- No registry has the id zero. -/
theorem Represents.registryId_ne_zero (h : Represents env names s L) (hr : r ∈ s.registries) :
    r ≠ 0 := by
  rintro rfl
  have hsome := h.mem_registries.mp hr
  rw [numbered_zero] at hsome
  cases hsome

/-- A role of a registry, or of a checksum anchored there, is in scope. -/
theorem Represents.inScope (h : Represents env names s L) (hr : r ∈ s.registries) {g : Grant}
    (hg : g.registryId = r)
    (hscope : g.checksum ≠ [] → (r, g.checksum) ∈ s.recordIdByRegistryAndChecksum) : L.InScope g := by
  obtain ⟨b, hb⟩ := Option.isSome_iff_exists.mp (h.mem_registries.mp hr)
  rw [Ledger.InScope, hg]
  exact ⟨b, hb, fun hc => (h.mem_checksums hb).mp (hscope hc)⟩

/-- A version that is stored is a version of a document. -/
theorem Represents.document_of_mem (h : Represents env names s L) {k i : UInt64}
    (hmem : (r, k, i) ∈ s.records) : ∃ d ∈ L.document? r k, (numbered d.versions i).isSome := by
  obtain ⟨record, hrecord⟩ := Map.mem_iff.mp hmem
  rw [h.records] at hrecord
  obtain ⟨d, hd, hversion⟩ := Option.bind_eq_some_iff.mp hrecord
  obtain ⟨v, hv, -⟩ := Option.map_eq_some_iff.mp hversion
  exact ⟨d, hd, Option.isSome_iff_exists.mpr ⟨v, hv⟩⟩

/-- **The ledger takes every sound request of an admin.** -/
theorem Sound.accepted {msg : Msg} (hsound : Sound env s r msg) (ctx : Ctx) (h : Represents env names s L)
    (hcf : Set.InjOn env.keccak256 names) (hr : r ∈ s.registries)
    (hadminName : registryRoleName r roleAdmin ∈ names)
    (hnames : ∀ name ∈ msg.namesUsed s, name ∈ names) {account : Bytes}
    (hsigner : env.stringToBytes msg.sender = .ok account) (hadmin : L.IsAdmin r account) :
    ∃ q, msg.request env ctx = some q ∧ L.Accepts q := by
  have hpos : r ≠ 0 := h.registryId_ne_zero hr
  cases hsound with
  | @addRecord m record valid inRegistry keyable =>
    refine ⟨.anchor account record.registryId record.checksum (record.version ctx), ?_, ?_⟩
    · simp only [Msg.request, Option.bind_eq_bind, Option.bind_eq_some_iff, toOption_eq_some]
      exact ⟨record, valid, account, hsigner, rfl⟩
    · rw [inRegistry]
      exact ⟨h.mem_registries.mp hr, hadmin.mayEdit _, keyable⟩
  | @updateRecordStatus m valid inRegistry found =>
    refine ⟨.setStatus account m.registryId m.recordId m.index m.status, ?_, ?_⟩
    · simp only [Msg.request, Option.bind_eq_bind, Option.bind_eq_some_iff, toOption_eq_some]
      exact ⟨(), valid, account, hsigner, rfl⟩
    · rw [inRegistry]
      obtain ⟨d, hd, hversion⟩ := h.document_of_mem found
      exact ⟨d, hd, hversion, hadmin.mayEdit _⟩
  | @grantRole m grantee valid inRegistry grants inScope =>
    refine ⟨.grant m.admin account ⟨m.registryId, m.checksum, m.role, grantee⟩, ?_, ?_, .inr ?_⟩
    · simp only [Msg.request, Option.bind_eq_bind, Option.bind_eq_some_iff, toOption_eq_some]
      exact ⟨(), valid, account, hsigner, grantee, grants, rfl⟩
    · exact h.inScope hr inRegistry inScope
    · exact inRegistry ▸ hadmin
  | @revokeRole m revokee valid inRegistry revokes inScope held notLast =>
    subst inRegistry
    have hname : MsgServer.scopedRoleName m.registryId m.checksum m.role ∈ names :=
      hnames _ (by simp [Msg.namesUsed, Msg.roleNames])
    refine ⟨.revoke account ⟨m.registryId, m.checksum, m.role, revokee⟩, ?_, ?_, ?_, hadmin, ?_⟩
    · simp only [Msg.request, Option.bind_eq_bind, Option.bind_eq_some_iff, toOption_eq_some]
      exact ⟨(), valid, account, hsigner, revokee, revokes, rfl⟩
    · exact h.inScope hr rfl inScope
    · rw [MsgServer.scopedRole_eq] at held
      exact (h.hasRole_iff (g := ⟨m.registryId, m.checksum, m.role, revokee⟩) hcf hname hpos).mp held
    · intro hlast
      have hchecksum : m.checksum = [] := congrArg Grant.checksum hlast
      have hrole : m.role = roleAdmin := congrArg Grant.role hlast
      obtain ⟨other, hne, hother⟩ := notLast hchecksum hrole
      refine ⟨adminGrant m.registryId other, ?_, fun e => hne (congrArg Grant.account e), rfl⟩
      exact (h.isAdmin_iff hcf hpos hadminName).mp hother

/-- **No registry is ever stuck.** In every state of a run every registry has an account, with an
address that can be written, whose sound messages to the registry are all accepted. -/
theorem registry_never_stuck (hcf : Set.InjOn env.keccak256 names) (h : Reachable env names s)
    (hr : r ∈ s.registries) :
    ∃ account text, env.stringToBytes text = .ok account ∧
      ∀ (ctx : Ctx) (msg : Msg), env.stringToBytes msg.sender = .ok account →
        Within names (ctx, msg) s → Sound env s r msg → ∃ out, handle env ctx msg s = .ok out := by
  obtain ⟨hname, account, hhas⟩ := h.adminInv hcf r hr
  obtain ⟨text, htext⟩ := h.membersWritten _ _ (Rbac.hasRole_iff.mp hhas)
  obtain ⟨L, hL⟩ := h.exists_ledger hcf
  refine ⟨account, text, htext, fun ctx msg hsigner hwithin hsound => ?_⟩
  have hadmin : L.IsAdmin r account := (hL.isAdmin_iff hcf (hL.registryId_ne_zero hr) hname).mp hhas
  obtain ⟨q, hq, haccepts⟩ :=
    hsound.accepted ctx hL hcf hr hname hwithin.2 hsigner hadmin
  have hmachine : Ledger.machine env (ctx, msg) L = some (L.answer q, L.apply q) :=
    Ledger.machine_eq_some.mpr ⟨q, hq, haccepts, rfl, rfl⟩
  have halike : Simulation.Alike _ _ (Ledger.machine env (ctx, msg) L) :=
    handle_alike hcf hL h hwithin.1 msg hwithin.2
  have hanswered := halike.answer_eq
  rw [hmachine, Option.map_some] at hanswered
  obtain ⟨out, hout, -⟩ := Option.map_eq_some_iff.mp hanswered
  exact ⟨out, toOption_eq_some.mp hout⟩

end Enabled

/-- The admin who opened the registry has left it to another account, which goes on adding records. -/
theorem registry_never_stuck_smallRoleStore :
    (∃ account text, smallEnv.stringToBytes text = .ok account ∧
      ∀ (ctx : Ctx) (msg : Msg), smallEnv.stringToBytes msg.sender = .ok account →
        Within ledgerNames (ctx, msg) smallRoleStore → Sound smallEnv smallRoleStore 1 msg →
          ∃ out, handle smallEnv ctx msg smallRoleStore = .ok out) ∧
      Sound smallEnv smallRoleStore 1
        (.addRecord (some ⟨str "nvnm1qgcx23ru", some (smallRecord "c0")⟩)) := by
  have hholds : Holds smallEnv ledgerNames smallRoleStore _ := holds_smallRun (by decide +kernel)
  refine ⟨registry_never_stuck injOn_ledgerNames hholds.1 (by decide +kernel), ?_⟩
  have hvalid : MsgAddRecord.validateBasic smallEnv ⟨str "nvnm1qgcx23ru", some (smallRecord "c0")⟩ =
      .ok (smallRecord "c0") := by rfl
  exact .addRecord hvalid rfl (by decide +kernel)

end Nvnmchain
