import Nvnmchain.Anchoring.Types

/-!
# Role-based access control

`x/anchoring/rbac`: two tables, from a role to the role that administers it and from a role to its
members. A role is a hash; what it is the hash of is the keeper's business. The guarded operations
ask that the caller holds the administering role; the unchecked ones only write.

The events the operations emit are left out: no function of the module reads them.
-/

set_option autoImplicit false

namespace Nvnmchain

open Go (Bytes str)
open Eth (Hash bytesToHash)
open Collections

/-- `rbac.Role`. -/
abbrev Role := Hash

instance transOrdRoleMember : Std.TransOrd (Role × Bytes) := inferInstance

/-- `RBACKeeper`: `RoleAdmins` and `RoleMembers`. -/
structure Rbac where
  roleAdmins : Map Role Bytes
  roleMembers : Map (Role × Bytes) Bytes

namespace Rbac

/-- `HasRole`. -/
def hasRole (k : Rbac) (role : Role) (addr : Bytes) : Bool := k.roleMembers.contains (role, addr)

/-- `IsSoleAdmin`: a walk over the role's members that stops at the second. -/
def isSoleAdmin (k : Rbac) (adminRole : Role) : Except Err Bool := do
  let seen ← walk (fun (seen : UInt64) (_ : Role × Bytes) (_ : Bytes) =>
    .ok (decide (seen + 1 ≥ 2), seen + 1)) 0 (k.roleMembers.prefixed adminRole)
  pure (seen = 1)

/-- `GetRoleAdmin`. -/
def getRoleAdmin (k : Rbac) (role : Role) : Except Err Role :=
  match k.roleAdmins[role]? with
  | none => .error (.wrap (.sentinel .roleAdminNotConfigured) (str "role " ++ role.hex))
  | some bz => .ok (bytesToHash bz)

/-- `SetRoleAdmin`. -/
def setRoleAdmin (k : Rbac) (role adminRole : Role) : Rbac :=
  { k with roleAdmins := k.roleAdmins.insert role adminRole.bytes }

/-- `GrantRoleUnchecked`. -/
def grantRoleUnchecked (k : Rbac) (role : Role) (addr : Bytes) : Rbac :=
  { k with roleMembers := k.roleMembers.insert (role, addr) [] }

/-- `RevokeRoleUnchecked`. -/
def revokeRoleUnchecked (k : Rbac) (role : Role) (addr : Bytes) : Rbac :=
  { k with roleMembers := k.roleMembers.erase (role, addr) }

/-- The check `GrantRole` and `RevokeRole` make of their caller. -/
def requireRoleAdmin (env : Env) (k : Rbac) (role : Role) (caller : Bytes) : Except Err Unit := do
  let adminRole ← k.getRoleAdmin role
  require (k.hasRole adminRole caller) (.wrap (.sentinel .missingRole) (str "account " ++
    env.accAddressString caller ++ str " is missing role " ++ adminRole.hex))

/-- `GrantRole`. -/
def grantRole (env : Env) (k : Rbac) (role : Role) (addr granter : Bytes) : Except Err Rbac := do
  k.requireRoleAdmin env role granter
  pure (k.grantRoleUnchecked role addr)

/-- `RevokeRole`. -/
def revokeRole (env : Env) (k : Rbac) (role : Role) (addr revoker : Bytes) : Except Err Rbac := do
  k.requireRoleAdmin env role revoker
  pure (k.revokeRoleUnchecked role addr)

/-! ## What the operations do -/

/-- The members of a role are the keys of the table. -/
theorem hasRole_iff {k : Rbac} {role : Role} {addr : Bytes} :
    k.hasRole role addr = true ↔ (role, addr) ∈ k.roleMembers := Std.ExtTreeMap.mem_iff_contains.symm

/-- An account that no entry of the table names holds no role. -/
theorem hasRole_eq_false {k : Rbac} {addr : Bytes}
    (h : ∀ e ∈ k.roleMembers.toList, e.1.2 ≠ addr) (role : Role) : k.hasRole role addr = false := by
  rw [← Bool.not_eq_true, hasRole_iff]
  intro hmem
  obtain ⟨v, hv⟩ := Map.mem_iff.mp hmem
  exact h _ (Std.ExtTreeMap.mem_toList_iff_getElem?_eq_some.mpr hv) rfl

/-- The caller of a guarded operation holds the role's configured admin role. -/
theorem requireRoleAdmin_eq_ok {env : Env} {k : Rbac} {role : Role} {caller : Bytes} {u : Unit} :
    k.requireRoleAdmin env role caller = .ok u ↔
      ∃ bz, k.roleAdmins[role]? = some bz ∧ k.hasRole (bytesToHash bz) caller = true := by
  unfold requireRoleAdmin getRoleAdmin
  cases hbz : k.roleAdmins[role]? with
  | none => exact ⟨(fun h => nomatch h), fun ⟨_, h, _⟩ => nomatch h⟩
  | some bz =>
    rw [bind_eq_ok]
    constructor
    · rintro ⟨adminRole, hadmin, hhas⟩
      cases hadmin
      exact ⟨bz, rfl, require_eq_ok.mp hhas⟩
    · rintro ⟨bz', hbz', hhas⟩
      cases hbz'
      exact ⟨bytesToHash bz, rfl, require_eq_ok.mpr hhas⟩

/-- A guarded grant was allowed, and made the member. -/
theorem grantRole_eq_ok {env : Env} {k k' : Rbac} {role : Role} {addr granter : Bytes} :
    k.grantRole env role addr granter = .ok k' ↔
      (∃ bz, k.roleAdmins[role]? = some bz ∧ k.hasRole (bytesToHash bz) granter = true) ∧
        k' = k.grantRoleUnchecked role addr := by
  unfold grantRole
  rw [bind_eq_ok]
  constructor
  · rintro ⟨u, hu, hk⟩
    cases hk
    exact ⟨requireRoleAdmin_eq_ok.mp hu, rfl⟩
  · rintro ⟨hu, rfl⟩
    exact ⟨(), requireRoleAdmin_eq_ok.mpr hu, rfl⟩

/-- A guarded revocation was allowed, and removed the member. -/
theorem revokeRole_eq_ok {env : Env} {k k' : Rbac} {role : Role} {addr revoker : Bytes} :
    k.revokeRole env role addr revoker = .ok k' ↔
      (∃ bz, k.roleAdmins[role]? = some bz ∧ k.hasRole (bytesToHash bz) revoker = true) ∧
        k' = k.revokeRoleUnchecked role addr := by
  unfold revokeRole
  rw [bind_eq_ok]
  constructor
  · rintro ⟨u, hu, hk⟩
    cases hk
    exact ⟨requireRoleAdmin_eq_ok.mp hu, rfl⟩
  · rintro ⟨hu, rfl⟩
    exact ⟨(), requireRoleAdmin_eq_ok.mpr hu, rfl⟩

/-- The walk of `IsSoleAdmin` answers `true` exactly when the role has one member. -/
theorem isSoleAdmin_eq (k : Rbac) (adminRole : Role) :
    k.isSoleAdmin adminRole = .ok (decide ((k.roleMembers.prefixed adminRole).length = 1)) := by
  unfold isSoleAdmin
  generalize k.roleMembers.prefixed adminRole = members
  match members with
  | [] => rfl
  | [_] => rfl
  | _ :: _ :: _ => rfl

/-- A role that has a member and is not a sole admin's has another member. -/
theorem exists_other_member {k : Rbac} {role : Role} {addr : Bytes}
    (hmem : k.hasRole role addr = true) (hsole : k.isSoleAdmin role = .ok false) :
    ∃ other, other ≠ addr ∧ k.hasRole role other = true := by
  rw [isSoleAdmin_eq] at hsole
  have hlen : (k.roleMembers.prefixed role).length ≠ 1 := by
    simpa using hsole
  obtain ⟨v, hv⟩ := Map.mem_iff.mp (hasRole_iff.mp hmem)
  have hin : ((role, addr), v) ∈ k.roleMembers.prefixed role :=
    List.mem_filter.mpr ⟨Std.ExtTreeMap.mem_toList_iff_getElem?_eq_some.mpr hv, by simp⟩
  -- were every entry of the role at `addr`, the walk would have met one entry
  by_contra hnone
  have hno : ∀ a, a ≠ addr → ¬ k.hasRole role a = true := fun a ha h => hnone ⟨a, ha, h⟩
  have hall : ∀ e ∈ k.roleMembers.prefixed role, e = ((role, addr), v) := by
    rintro ⟨⟨r, a⟩, w⟩ he
    obtain ⟨hlist, hr⟩ := List.mem_filter.mp he
    have hget := Std.ExtTreeMap.mem_toList_iff_getElem?_eq_some.mp hlist
    have hrole : r = role := by simpa using hr
    subst hrole
    by_cases ha : a = addr
    · subst ha
      rw [hv] at hget
      cases hget
      rfl
    · exact absurd (hasRole_iff.mpr (Map.mem_of_get? hget)) (hno a ha)
  have hnodup : (k.roleMembers.prefixed role).Nodup :=
    (List.Nodup.of_map Prod.fst (by
      rw [Std.ExtTreeMap.map_fst_toList_eq_keys]; exact Std.ExtTreeMap.nodup_keys)).filter _
  exact hlen (congrArg List.length (eq_singleton_of_nodup hnodup hin hall))

end Rbac

end Nvnmchain
