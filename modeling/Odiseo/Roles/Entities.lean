import Odiseo.Database.Graph
import Odiseo.Database.Program
import Odiseo.Database.Table

/-!
# Roles of a tenant

The tables of roles, role inheritance and role assignments in one tenant schema,
and the recursive queries on them. A role is the child of the roles it inherits:
it confers its own permissions and those of every ancestor.
-/

namespace Odiseo.Roles

open Database

/-- `uuid` of a `Role`. -/
abbrev RoleId := ℕ

/-- `uuid` of a `User`. -/
abbrev UserId := ℕ

/-- A value of `PERMISSIONS`. -/
abbrev Permission := String

/-- `Role`. -/
structure Role where
  id : RoleId
  name : String
  description : Option String
  isSystemDefault : Bool
  /-- The `jsonb` column, which the schema lets be null. -/
  permissions : Option (List Permission)
  deriving DecidableEq, Repr

/-- `role_inheritance`: the child inherits the parent. -/
structure RoleInheritance where
  parentRoleId : RoleId
  childRoleId : RoleId
  deriving DecidableEq, Repr

/-- `UserRole`. -/
structure UserRole where
  userId : UserId
  roleId : RoleId
  deriving DecidableEq, Repr

instance : Keyed RoleId Role := ⟨Role.id⟩

/-- The role tables of one tenant, and the users that assignments refer to. -/
structure RoleDb where
  roles : Table RoleId Role
  inheritance : List RoleInheritance
  userRoles : List UserRole
  users : List UserId

/-- What a lock is held on. -/
inductive Row
  | role (id : RoleId)
  /-- The entry of a name in the unique index. -/
  | roleName (name : String)
  | inheritance (edge : RoleInheritance)
  | userRole (assignment : UserRole)
  /-- The advisory lock on the key `role_inheritance:` of the schema. -/
  | roleInheritance
  deriving DecidableEq, Repr

/-- The exceptions that leave the service. -/
inductive RoleError
  /-- `ForbiddenException`. -/
  | forbidden (message : String)
  /-- `NotFoundException`. -/
  | notFound (message : String)
  /-- `ConflictException`. -/
  | conflict (message : String)
  /-- `BadRequestException`. -/
  | badRequest (message : String)
  /-- A statement that the database refused. -/
  | queryFailed
  deriving DecidableEq, Repr

/-- A transaction of `runInTenant`; what it leaves to do is the revocation of the
tokens of users. -/
abbrev RoleTx := Program RoleDb Row UserId RoleError

/-- `flattenPermissions`: the permissions of some roles without repetitions. -/
def flattenPermissions (rows : List Role) : List Permission :=
  (rows.flatMap fun row => row.permissions.getD []).eraseDups

namespace RoleDb

variable (db : RoleDb)

/-- The edges from children to parents. -/
def parentEdges : List (RoleId × RoleId) :=
  db.inheritance.map fun e => (e.childRoleId, e.parentRoleId)

/-- The edges from parents to children. -/
def childEdges : List (RoleId × RoleId) :=
  db.inheritance.map fun e => (e.parentRoleId, e.childRoleId)

/-- `ROLE_SET_CLOSURE_CTE`: some roles and all their ancestors. -/
def effectiveRoleIds (roleIds : List RoleId) : List RoleId := Graph.closure db.parentEdges roleIds

/-- The roles assigned to a user. -/
def assignedRoleIds (userId : UserId) : List RoleId :=
  (db.userRoles.filter fun ur => ur.userId = userId).map (·.roleId)

/-- The rows of some roles and their ancestors. -/
def effectiveRoles (roleIds : List RoleId) : List Role :=
  db.roles.filter fun r => r.id ∈ db.effectiveRoleIds roleIds

/-- `findEffectivePermissionsForRoleIds`. -/
def effectivePermissionsForRoleIds (roleIds : List RoleId) : List Permission :=
  flattenPermissions (db.effectiveRoles roleIds)

/-- `findEffectivePermissions` of a user. -/
def effectivePermissions (userId : UserId) : List Permission :=
  flattenPermissions (db.effectiveRoles (db.assignedRoleIds userId))

/-- `roleSetInheritsRole`: one of the roles is the given one, or has it as an ancestor. -/
def roleSetInheritsRole (roleIds : List RoleId) (roleId : RoleId) : Bool :=
  decide (roleId ∈ db.effectiveRoleIds roleIds)

/-- `findDependentRoleHolderIds`: the users who hold a role or one of its descendants. -/
def dependentRoleHolderIds (roleId : RoleId) : List UserId :=
  ((db.userRoles.filter fun ur => ur.roleId ∈ Graph.closure db.childEdges [roleId]).map
    (·.userId)).eraseDups

/-- The parents of a role, as `inheritedRoles` loads them. -/
def inheritedRoles (id : RoleId) : List RoleId :=
  (db.inheritance.filter fun e => e.childRoleId = id).map (·.parentRoleId)

/-- The inheritance graph has no cycle. -/
def Acyclic : Prop := Graph.Acyclic db.parentEdges

variable {db}

/-- An edge of the graph is a row of `role_inheritance`. -/
theorem edge_parentEdges {c p : RoleId} :
    Graph.Edge db.parentEdges c p ↔ ⟨p, c⟩ ∈ db.inheritance := by
  simp only [Graph.Edge, parentEdges, List.mem_map, Prod.mk.injEq]
  constructor
  · rintro ⟨e, he, rfl, rfl⟩
    exact he
  · exact fun h => ⟨⟨p, c⟩, h, rfl, rfl⟩

/-- The ancestors that the recursive query finds. -/
theorem mem_effectiveRoleIds {roleIds : List RoleId} {id : RoleId} :
    id ∈ db.effectiveRoleIds roleIds ↔ ∃ s ∈ roleIds, Graph.Leads db.parentEdges s id :=
  Graph.mem_closure

/-- A permission that some roles confer is one of a role that they are or inherit. -/
theorem mem_effectivePermissionsForRoleIds {roleIds : List RoleId} {p : Permission} :
    p ∈ db.effectivePermissionsForRoleIds roleIds ↔
      ∃ s ∈ roleIds, ∃ r ∈ db.roles.rows, Graph.Leads db.parentEdges s r.id ∧
        p ∈ r.permissions.getD [] := by
  simp only [effectivePermissionsForRoleIds, flattenPermissions, List.mem_eraseDups,
    List.mem_flatMap, effectiveRoles, Table.filter, List.mem_filter, decide_eq_true_eq,
    mem_effectiveRoleIds]
  constructor
  · rintro ⟨r, ⟨hr, s, hs, hlead⟩, hp⟩
    exact ⟨s, hs, r, hr, hlead, hp⟩
  · rintro ⟨s, hs, r, hr, hlead, hp⟩
    exact ⟨r, ⟨hr, s, hs, hlead⟩, hp⟩

/-- The parents of a role are those that its rows name. -/
theorem mem_inheritedRoles {id p : RoleId} :
    p ∈ db.inheritedRoles id ↔ ⟨p, id⟩ ∈ db.inheritance := by
  simp only [inheritedRoles, List.mem_map, List.mem_filter, decide_eq_true_eq]
  constructor
  · rintro ⟨⟨p', c⟩, ⟨he, rfl⟩, rfl⟩
    exact he
  · exact fun h => ⟨⟨p, id⟩, ⟨h, rfl⟩, rfl⟩

/-- A user is given a role by a row of `user_roles`. -/
theorem mem_assignedRoleIds {userId : UserId} {id : RoleId} :
    id ∈ db.assignedRoleIds userId ↔ ⟨userId, id⟩ ∈ db.userRoles := by
  simp only [assignedRoleIds, List.mem_map, List.mem_filter, decide_eq_true_eq]
  constructor
  · rintro ⟨⟨u, r⟩, ⟨h, rfl⟩, rfl⟩
    exact h
  · exact fun h => ⟨⟨userId, id⟩, ⟨h, rfl⟩, rfl⟩

end RoleDb

end Odiseo.Roles
