import Trustgraphs.ZkCore.Words

/-!
# OpenZeppelin's `AccessControl`

The contracts that inherit it read and write its storage of roles through the functions below. It is not
part of the repository: it is a parameter, and what is documented of it a hypothesis.
-/

namespace Trustgraphs

/-- The storage of `AccessControl`: who holds a role, and which role administers it. -/
structure AccessControl where
  Storage : Type
  empty : Storage
  hasRole : Storage → B256 → Address → Bool
  getRoleAdmin : Storage → B256 → B256
  setRoleAdmin : Storage → (role adminRole : B256) → Storage
  /-- `_grantRole`: the storage after, and whether the account did not hold the role before. -/
  grantRole : Storage → (role : B256) → (account : Address) → Storage × Bool
  /-- `_revokeRole`: the storage after, and whether the account held the role before. -/
  revokeRole : Storage → (role : B256) → (account : Address) → Storage × Bool

namespace AccessControl

/-- The role that administers a role for which no other one is set. -/
def DEFAULT_ADMIN_ROLE : B256 := 0

/-- What the storage does to the holders of the roles. -/
structure Documented (O : AccessControl) : Prop where
  hasRole_empty : ∀ role a, O.hasRole O.empty role a = false
  hasRole_setRoleAdmin : ∀ s r admin role a, O.hasRole (O.setRoleAdmin s r admin) role a = O.hasRole s role a
  granted : ∀ s r account, (O.grantRole s r account).2 = !O.hasRole s r account
  hasRole_grantRole : ∀ s r account role a,
    O.hasRole (O.grantRole s r account).1 role a = (O.hasRole s role a || decide (role = r ∧ a = account))
  revoked : ∀ s r account, (O.revokeRole s r account).2 = O.hasRole s r account
  hasRole_revokeRole : ∀ s r account role a,
    O.hasRole (O.revokeRole s r account).1 role a = (O.hasRole s role a && !decide (role = r ∧ a = account))

/-- The mappings that the contract stores. -/
structure RoleData where
  hasRole : B256 → Address → Bool
  adminRole : B256 → B256

/-- The storage as two mappings. -/
def mappings : AccessControl where
  Storage := RoleData
  empty := ⟨fun _ _ => false, fun _ => DEFAULT_ADMIN_ROLE⟩
  hasRole s := s.hasRole
  getRoleAdmin s := s.adminRole
  setRoleAdmin s role adminRole := { s with adminRole := fun r => if r = role then adminRole else s.adminRole r }
  grantRole s role account :=
    ({ s with hasRole := fun r a => s.hasRole r a || decide (r = role ∧ a = account) }, !s.hasRole role account)
  revokeRole s role account :=
    ({ s with hasRole := fun r a => s.hasRole r a && !decide (r = role ∧ a = account) }, s.hasRole role account)

theorem mappings_documented : mappings.Documented where
  hasRole_empty _ _ := rfl
  hasRole_setRoleAdmin _ _ _ _ _ := rfl
  granted _ _ _ := rfl
  hasRole_grantRole _ _ _ _ _ := rfl
  revoked _ _ _ := rfl
  hasRole_revokeRole _ _ _ _ _ := rfl

end AccessControl

end Trustgraphs
