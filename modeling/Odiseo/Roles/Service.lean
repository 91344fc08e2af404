import Odiseo.Roles.Entities
import Odiseo.Database.System

/-!
# The operations on roles

`RolesService`: creating, changing and removing roles and assigning them to users.
Each operation first checks that the acting user holds every permission that it
hands out, and then runs one transaction. The checks against cycles are part of the
transaction of `update`, under an advisory lock that only `update` with
`inheritedRoleIds` takes.
-/

namespace Odiseo.Roles

open Database

/-- The acting user, as the request context and the token give it. -/
structure Actor where
  companyId : Option ℕ
  userId : Option UserId
  deriving DecidableEq, Repr

/-- `CreateRoleDto`. -/
structure CreateRole where
  name : String
  description : Option String := none
  permissions : Option (List Permission) := none
  inheritedRoleIds : Option (List RoleId) := none
  deriving DecidableEq, Repr

/-- `UpdateRoleDto`. -/
structure UpdateRole where
  name : Option String := none
  description : Option String := none
  permissions : Option (List Permission) := none
  inheritedRoleIds : Option (List RoleId) := none
  deriving DecidableEq, Repr

/-- The answer of an operation, with the users whose tokens it revokes. -/
inductive Outcome
  | created (role : Role)
  | updated (role : Role) (holderIds : List UserId)
  | removed (holderIds : List UserId)
  | assigned (targetUserId : UserId)
  deriving DecidableEq, Repr

/-- The users that `invalidateUsers` is called for after the commit. -/
def Outcome.revoked : Outcome → List UserId
  | .created _ => []
  | .updated _ holderIds | .removed holderIds => holderIds
  | .assigned targetUserId => [targetUserId]

/-- `getEffectivePermissionsForRoleIds`; no role needs no query. -/
def getEffectivePermissionsForRoleIds (roleIds : List RoleId) : RoleTx (List Permission) :=
  if roleIds.isEmpty then pure []
  else Program.select fun v => v.effectivePermissionsForRoleIds roleIds

/-- `assertCanGrant`. -/
def assertCanGrant (actor : Actor) (permissions : List Permission) : RoleTx Unit :=
  if permissions.isEmpty then pure ()
  else
    match actor.companyId, actor.userId with
    | some _, some userId => do
      let actorPermissions ← Program.select fun v => v.effectivePermissions userId
      let notGrantable := permissions.filter fun p => p ∉ actorPermissions
      let names := String.intercalate ", " notGrantable
      if notGrantable.isEmpty then pure ()
      else Program.throw (.forbidden s!"You cannot grant permissions you do not hold: {names}")
    | _, _ => Program.throw (.forbidden "Cannot verify the acting user permissions for this tenant")

/-- `grantedPermissions`: what a role with these permissions and parents would confer. -/
def grantedPermissions (directPermissions : Option (List Permission))
    (inheritedRoleIds : Option (List RoleId)) : RoleTx (List Permission) := do
  let inherited ← getEffectivePermissionsForRoleIds (inheritedRoleIds.getD [])
  pure (directPermissions.getD [] ++ inherited).eraseDups

/-- `findOneWith`: a role with the roles that it inherits. -/
def findOneWith (id : RoleId) : RoleTx (Role × List RoleId) := do
  let role ← Program.select fun v => (v.roles.find id).map fun r => (r, v.inheritedRoles id)
  match role with
  | none => Program.throw (.notFound s!"Role with ID {id} not found")
  | some role => pure role

/-- `findBy({ id: In(ids) })`. -/
def findBy (ids : List RoleId) : RoleTx (List RoleId) :=
  Program.select fun v => (v.roles.filter fun r => r.id ∈ ids).map (·.id)

/-- The database refuses a role of this name beside the others. -/
def nameTaken (role : Role) (db : RoleDb) : Bool :=
  db.roles.rows.any fun r => r.name == role.name && r.id != role.id

/-- The database refuses a new role: its key or its name is taken. -/
def roleTaken (role : Role) (db : RoleDb) : Bool :=
  (db.roles.find role.id).isSome || nameTaken role db

/-- The database after a role has been inserted. -/
def insertRoleIn (role : Role) (db : RoleDb) : RoleDb :=
  { db with roles := db.roles.insert role }

/-- `INSERT` of a role. -/
def insertRole (role : Role) : RoleTx Unit :=
  Program.attempt (fun _ => [.role role.id, .roleName role.name]) (roleTaken role)
    (insertRoleIn role) .queryFailed

/-- The rows that make `child` inherit `parents`. -/
def inheritanceRows (child : RoleId) (parents : List RoleId) : List RoleInheritance :=
  parents.map fun parent => { parentRoleId := parent, childRoleId := child }

/-- The database refuses new rows of `role_inheritance`: one is there already, or names
a role that does not exist. -/
def inheritanceRefused (child : RoleId) (parents : List RoleId) (db : RoleDb) : Bool :=
  (inheritanceRows child parents).any fun e =>
    e ∈ db.inheritance || (db.roles.find e.parentRoleId).isNone ||
      (db.roles.find e.childRoleId).isNone

/-- The database after `child` has been made to inherit `parents`. -/
def inheritIn (child : RoleId) (parents : List RoleId) (db : RoleDb) : RoleDb :=
  { db with inheritance := db.inheritance ++ inheritanceRows child parents }

/-- `INSERT` into `role_inheritance`, when there is a row to insert. -/
def insertInheritance (child : RoleId) (parents : List RoleId) : RoleTx Unit :=
  if parents.isEmpty then pure ()
  else
    Program.attempt (fun _ => (inheritanceRows child parents).map .inheritance)
      (inheritanceRefused child parents) (inheritIn child parents) .queryFailed

/-- The database after `child` has ceased to inherit `parents`. -/
def disinheritIn (child : RoleId) (parents : List RoleId) (db : RoleDb) : RoleDb :=
  { db with inheritance := db.inheritance.filter fun e => e ∉ inheritanceRows child parents }

/-- `DELETE` from `role_inheritance`, when there is a row to delete. -/
def deleteInheritance (child : RoleId) (parents : List RoleId) : RoleTx Unit :=
  if parents.isEmpty then pure ()
  else
    Program.write (fun _ => (inheritanceRows child parents).map .inheritance)
      (fun _ => disinheritIn child parents) fun _ => ()

/-- The columns that `save` writes into the row of a role. -/
def saveRoleColumns (entity reread row : Role) : Role :=
  { row with
    name := saved entity.name reread.name row.name
    description := saved entity.description reread.description row.description
    permissions := saved entity.permissions reread.permissions row.permissions }

/-- The database after `save` has updated the row of a role. -/
def updateRoleIn (entity reread : Role) (db : RoleDb) : RoleDb :=
  { db with roles := db.roles.modify entity.id (saveRoleColumns entity reread) (by intro; rfl) }

/-- `UPDATE` of the row of a role, when a column differs. -/
def updateRoleRow (entity reread : Role) : RoleTx Unit :=
  if entity = reread then pure ()
  else
    Program.attempt
      (fun _ => if entity.name = reread.name then [.role entity.id]
        else [.role entity.id, .roleName entity.name])
      (fun v => entity.name != reread.name && nameTaken entity v)
      (updateRoleIn entity reread) .queryFailed

/-- `save` of a role with its inherited roles: the rows are read again; afterwards the
stored parents are those in memory. A role that is gone is inserted. -/
def saveRole (entity : Role) (inheritedRoles : List RoleId) : RoleTx Unit := do
  let reread ← Program.select fun v =>
    (v.roles.find entity.id).map fun r => (r, v.inheritedRoles entity.id)
  match reread with
  | none => do
    insertRole entity
    insertInheritance entity.id inheritedRoles
  | some (row, parents) => do
    insertInheritance entity.id (inheritedRoles.filter fun p => p ∉ parents)
    updateRoleRow entity row
    deleteInheritance entity.id (parents.filter fun p => p ∉ inheritedRoles)

/-- The role that a `CreateRoleDto` describes; `id` is drawn by the database. -/
def CreateRole.role (dto : CreateRole) (id : RoleId) : Role :=
  { id := id
    name := dto.name
    description := dto.description
    isSystemDefault := false
    permissions := some (dto.permissions.getD []) }

/-- The parents of a new role. -/
def parentsToCreate (inheritedRoleIds : List RoleId) : RoleTx (List RoleId) :=
  if inheritedRoleIds.isEmpty then pure [] else findBy inheritedRoleIds

/-- The transaction of `create`. -/
def createRole (dto : CreateRole) (newId : RoleId) : RoleTx Outcome := do
  let inheritedRoles ← parentsToCreate (dto.inheritedRoleIds.getD [])
  insertRole (dto.role newId)
  insertInheritance newId inheritedRoles
  pure (.created (dto.role newId))

/-- What a system default role does not let an update change. -/
def checkSystemDefault (role : Role) (dto : UpdateRole) : RoleTx Unit :=
  if role.isSystemDefault then
    if dto.name.isSome then Program.throw (.conflict "Cannot rename a system default role")
    else if dto.permissions.isSome then
      Program.throw (.conflict "Cannot alter the permissions of a system default role")
    else if dto.inheritedRoleIds.isSome then
      Program.throw (.conflict "Cannot alter the inheritance of a system default role")
    else pure ()
  else pure ()

/-- `Object.assign(role, roleData)`. -/
def UpdateRole.assign (dto : UpdateRole) (role : Role) : Role :=
  { role with
    name := dto.name.getD role.name
    description := dto.description.or role.description
    permissions := dto.permissions.or role.permissions }

/-- `lockRoleInheritance`. -/
def lockRoleInheritance : RoleTx Unit :=
  Program.selectForUpdate (fun _ => [.roleInheritance]) fun _ => ()

/-- The new parents of a role: under the advisory lock, and only when no cycle closes. -/
def changeInheritance (id : RoleId) (inheritedRoleIds : List RoleId) : RoleTx (List RoleId) :=
  if inheritedRoleIds.contains id then
    Program.throw (.conflict "A role cannot inherit from itself")
  else do
    lockRoleInheritance
    let inherits ← Program.select fun v => v.roleSetInheritsRole inheritedRoleIds id
    if inherits then
      Program.throw (.badRequest
        "Role inheritance cannot form a cycle: an inherited role already inherits this role")
    else findBy inheritedRoleIds

/-- The parents that an update saves: the ones it loaded, unless it names others. -/
def parentsToSave (id : RoleId) (inheritedRoleIds : Option (List RoleId))
    (loaded : List RoleId) : RoleTx (List RoleId) :=
  match inheritedRoleIds with
  | none => pure loaded
  | some ids => changeInheritance id ids

/-- The transaction of `update`. -/
def updateRole (id : RoleId) (dto : UpdateRole) : RoleTx Outcome := do
  let found ← findOneWith id
  checkSystemDefault found.1 dto
  let inheritedRoles ← parentsToSave id dto.inheritedRoleIds found.2
  let holderIds ← Program.select fun v => v.dependentRoleHolderIds id
  saveRole (dto.assign found.1) inheritedRoles
  pure (.updated (dto.assign found.1) holderIds)

/-- A foreign key that restricts forbids the removal of the role. -/
def inUse (id : RoleId) (db : RoleDb) : Bool :=
  (db.userRoles.any fun ur => ur.roleId == id) || db.inheritance.any fun e => e.parentRoleId == id

/-- The database after a role has been deleted, and its own inheritance with it. -/
def deleteRoleIn (id : RoleId) (db : RoleDb) : RoleDb :=
  { db with
    roles := db.roles.delete fun r => r.id == id
    inheritance := db.inheritance.filter fun e => e.childRoleId ≠ id }

/-- `DELETE` of a role. -/
def deleteRole (id : RoleId) : RoleTx Unit :=
  Program.attempt (fun _ => [.role id]) (inUse id) (deleteRoleIn id) (.conflict
    "Cannot delete role because it is assigned to users or inherited by other roles")

/-- The transaction of `remove`. -/
def removeRole (id : RoleId) : RoleTx Outcome := do
  let found ← findOneWith id
  if found.1.isSystemDefault then
    Program.throw (.conflict "Cannot delete a system default role")
  else do
    let holderIds ← Program.select fun v => v.dependentRoleHolderIds id
    deleteRole id
    pure (.removed holderIds)

/-- The assignments of some roles to a user. -/
def newUserRoles (targetUserId : UserId) (roleIds : List RoleId) : List UserRole :=
  roleIds.map fun roleId => { userId := targetUserId, roleId := roleId }

/-- The database refuses new assignments: one is there twice, or names a role or a user
that does not exist. -/
def assignmentRefused (targetUserId : UserId) (roleIds : List RoleId) (db : RoleDb) : Bool :=
  !decide roleIds.Nodup || !db.users.contains targetUserId ||
    (newUserRoles targetUserId roleIds).any fun ur =>
      ur ∈ db.userRoles || (db.roles.find ur.roleId).isNone

/-- The database after the assignments of a user have been deleted. -/
def clearUserRolesIn (targetUserId : UserId) (db : RoleDb) : RoleDb :=
  { db with userRoles := db.userRoles.filter fun ur => ur.userId ≠ targetUserId }

/-- The database after roles have been assigned to a user. -/
def assignIn (targetUserId : UserId) (roleIds : List RoleId) (db : RoleDb) : RoleDb :=
  { db with userRoles := db.userRoles ++ newUserRoles targetUserId roleIds }

/-- The transaction of `assignRolesToUser`: the assignments of the user are replaced. -/
def replaceUserRoles (targetUserId : UserId) (roleIds : List RoleId) : RoleTx Outcome := do
  Program.write
    (fun v => (v.userRoles.filter fun ur => ur.userId = targetUserId).map .userRole)
    (fun _ => clearUserRolesIn targetUserId) fun _ => ()
  if roleIds.isEmpty then pure (.assigned targetUserId)
  else do
    Program.attempt (fun _ => (newUserRoles targetUserId roleIds).map .userRole)
      (assignmentRefused targetUserId roleIds) (assignIn targetUserId roleIds) .queryFailed
    pure (.assigned targetUserId)

/-- `RolesService.create`. -/
def create (dto : CreateRole) (newId : RoleId) (actor : Actor) : RoleTx Outcome := do
  let granted ← grantedPermissions dto.permissions dto.inheritedRoleIds
  assertCanGrant actor granted
  createRole dto newId

/-- `RolesService.update`. -/
def update (id : RoleId) (dto : UpdateRole) (actor : Actor) : RoleTx Outcome := do
  let granted ← grantedPermissions dto.permissions dto.inheritedRoleIds
  assertCanGrant actor granted
  updateRole id dto

/-- `RolesService.remove`. -/
def remove (id : RoleId) : RoleTx Outcome := removeRole id

/-- `RolesService.assignRolesToUser`. -/
def assignRolesToUser (actor : Actor) (targetUserId : UserId) (roleIds : List RoleId) :
    RoleTx Outcome := do
  let granted ← getEffectivePermissionsForRoleIds roleIds
  assertCanGrant actor granted
  replaceUserRoles targetUserId roleIds

end Odiseo.Roles
