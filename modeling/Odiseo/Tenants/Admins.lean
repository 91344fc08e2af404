import Odiseo.Database.System
import Odiseo.Database.Table

/-!
# The administrators of a tenant

`TenantAdminsService.create` and `softDelete` on the schema of one tenant, statement by
statement, and `createSuperAdminInSchema`, which the provisioning of a tenant calls. A
removal first counts the active administrators and then deactivates one; it locks only
the row that it deactivates.
-/

namespace Odiseo.Tenants

open Database

/-- `uuid` of a row of the tenant schema. -/
abbrev RowId := ℕ

/-- `User`. -/
structure User where
  id : RowId
  email : String
  passwordHash : String
  name : String
  companyId : ℕ
  isActive : Bool
  forcePasswordReset : Bool
  deriving DecidableEq, Repr

/-- `roles`, as this service writes them. -/
structure AdminRole where
  id : RowId
  name : String
  description : String
  isSystemDefault : Bool
  permissions : List String
  deriving DecidableEq, Repr

/-- `user_roles`. -/
structure UserRole where
  userId : RowId
  roleId : RowId
  deriving DecidableEq, Repr

instance : Keyed RowId User := ⟨User.id⟩
instance : Keyed RowId AdminRole := ⟨AdminRole.id⟩
instance : Keyed UserRole UserRole := ⟨id⟩

/-- The name of the role of an administrator. -/
def superAdministrador : String := "Super Administrador"

/-- `TENANT_SUPER_ADMIN_PERMISSIONS`. -/
def tenantSuperAdminPermissions : List String :=
  ["MANAGE_ROLES", "MANAGE_USERS", "LIST_TENANT_ADMINS", "CREATE_TENANT_ADMINS",
    "EDIT_TENANT_ADMINS", "CHANGE_PASSWORD_TENANT_ADMINS", "DELETE_TENANT_ADMINS",
    "VIEW_SYLLABUS", "EDIT_SYLLABUS", "VIEW_ACADEMIC_TIME", "MANAGE_ACADEMIC_TIME",
    "VIEW_CATALOGS", "EDIT_CATALOGS", "VIEW_MATERIALS", "EDIT_MATERIALS"]

/-- The company of the tenant, and the tables of its schema that name administrators. -/
structure AdminDb where
  /-- `public.companies` has a row of the tenant. -/
  company : Bool
  users : Table RowId User
  roles : Table RowId AdminRole
  userRoles : Table UserRole UserRole
  /-- `roles.name` is unique. -/
  roleNames : (roles.rows.map AdminRole.name).Nodup

/-- What a lock is held on. -/
inductive AdminRow
  | user (id : RowId)
  /-- The entry of an address in the unique index. -/
  | email (address : String)
  | role (id : RowId)
  /-- The entry of a name in the unique index. -/
  | roleName (name : String)
  | userRole (assignment : UserRole)
  deriving DecidableEq, Repr

/-- The exceptions that leave the service. -/
inductive AdminError
  /-- `NotFoundException`. -/
  | notFound (message : String)
  /-- `ConflictException`. -/
  | conflict (message : String)
  /-- A statement that the database refused. -/
  | queryFailed
  deriving DecidableEq, Repr

/-- The answer of a call. -/
inductive AdminOutcome
  | created (user : User)
  | removed (userId : RowId)
  deriving DecidableEq, Repr

/-- The users whose tokens are revoked after the commit. -/
def AdminOutcome.revoked : AdminOutcome → List RowId
  | .created _ => []
  | .removed userId => [userId]

/-- A transaction of `runInSchema`. -/
abbrev AdminTx := Program AdminDb AdminRow RowId AdminError

/-- The data of a new administrator. The hash is salted, so it is given with the call, and so
are the identifiers that the database draws. -/
structure NewAdmin where
  email : String
  name : String
  passwordHash : String
  newUserId : RowId
  newRoleId : RowId
  deriving DecidableEq, Repr

namespace AdminDb

variable (db : AdminDb)

/-- A user is active. -/
def isActive (id : RowId) : Bool := (db.users.find id).any (·.isActive)

/-- A role is that of an administrator. -/
def isAdminRole (id : RowId) : Bool := (db.roles.find id).any (·.name = superAdministrador)

/-- A row of the join that selects the active administrators. -/
def joins (ur : UserRole) : Bool := db.isActive ur.userId && db.isAdminRole ur.roleId

/-- `SELECT count(1)` of the active administrators. -/
def countActive : ℕ := (db.userRoles.filter db.joins).length

/-- The user is an active administrator. -/
def IsAdmin (id : RowId) : Prop := ∃ ur ∈ db.userRoles.rows, ur.userId = id ∧ db.joins ur = true

instance (id : RowId) : Decidable (db.IsAdmin id) :=
  inferInstanceAs (Decidable (∃ ur ∈ db.userRoles.rows, _))

/-- The tenant has an active administrator. -/
def HasAdmin : Prop := ∃ id, db.IsAdmin id

/-- The database after a role has been inserted; its name has to be free. -/
def insertRole (role : AdminRole) : AdminDb :=
  if h : role.name ∈ db.roles.rows.map AdminRole.name then db
  else { db with
    roles := db.roles.insert role
    roleNames := by
      unfold Table.insert
      split
      · exact db.roleNames
      · rw [List.map_append, List.nodup_append]
        refine ⟨db.roleNames, by simp, ?_⟩
        intro a ha b hb hab
        obtain rfl : b = role.name := by simpa using hb
        exact h (hab ▸ ha) }

/-- The database after a user has been inserted. -/
def insertUser (user : User) : AdminDb := { db with users := db.users.insert user }

/-- The database after a user has been given a role. -/
def assign (ur : UserRole) : AdminDb := { db with userRoles := db.userRoles.insert ur }

/-- The database after an active user has been deactivated. -/
def deactivate (id : RowId) : AdminDb :=
  { db with users := db.users.modify id fun u => { u with isActive := false } }

end AdminDb

/-- The role that `insertSuperAdmin` inserts. -/
def adminRole (id : RowId) : AdminRole where
  id := id
  name := superAdministrador
  description := "Administrador Principal de la Institución"
  isSystemDefault := true
  permissions := tenantSuperAdminPermissions

/-- The user that `insertSuperAdmin` inserts. -/
def NewAdmin.user (data : NewAdmin) (tenantId : ℕ) : User where
  id := data.newUserId
  email := data.email
  passwordHash := data.passwordHash
  name := data.name
  companyId := tenantId
  isActive := true
  forcePasswordReset := true

/-- `validateCompanyExists`. -/
def validateCompanyExists : AdminTx Unit := do
  let company ← Program.select fun v => v.company
  if company then pure ()
  else Program.throw (.notFound "Empresa no encontrada.")

/-- The database refuses a new role. -/
def roleTaken (role : AdminRole) (db : AdminDb) : Bool :=
  (db.roles.find role.id).isSome || db.roles.rows.any fun r => r.name == role.name

/-- The database refuses a new user. -/
def userTaken (user : User) (db : AdminDb) : Bool :=
  (db.users.find user.id).isSome || db.users.rows.any fun u => u.email == user.email

/-- The database refuses a new assignment. -/
def assignmentRefused (ur : UserRole) (db : AdminDb) : Bool :=
  (db.userRoles.find ur).isSome || (db.users.find ur.userId).isNone ||
    (db.roles.find ur.roleId).isNone

/-- The role of an administrator: the one that is there, or a new one. -/
def ensureRole (newRoleId : RowId) : AdminTx RowId := do
  let role ← Program.select fun v => (v.roles.filter fun r => r.name = superAdministrador).head?
  match role with
  | some role => pure role.id
  | none => do
    Program.attempt (fun _ => [.role newRoleId, .roleName superAdministrador])
      (roleTaken (adminRole newRoleId)) (·.insertRole (adminRole newRoleId)) .queryFailed
    pure newRoleId

/-- The `INSERT` of a user and its role. -/
def insertWithRole (user : User) (roleId : RowId) : AdminTx User := do
  Program.attempt (fun _ => [.user user.id, .email user.email]) (userTaken user)
    (·.insertUser user) .queryFailed
  Program.attempt (fun _ => [.userRole ⟨user.id, roleId⟩]) (assignmentRefused ⟨user.id, roleId⟩)
    (·.assign ⟨user.id, roleId⟩) .queryFailed
  pure user

/-- `insertSuperAdmin`. -/
def insertSuperAdmin (tenantId : ℕ) (data : NewAdmin) (idempotent : Bool) :
    AdminTx (Option User) := do
  let existing ← Program.select fun v => v.users.rows.any fun u => u.email == data.email
  if existing then
    if idempotent then pure none
    else Program.throw (.conflict "Ya existe un usuario con ese correo.")
  else do
    let roleId ← ensureRole data.newRoleId
    let user ← insertWithRole (data.user tenantId) roleId
    pure (some user)

/-- `create`; the insert that is not idempotent never skips. -/
def create (tenantId : ℕ) (data : NewAdmin) : AdminTx AdminOutcome := do
  validateCompanyExists
  let created ← insertSuperAdmin tenantId data false
  pure (.created (created.getD (data.user tenantId)))

/-- The `UPDATE` of `softDelete`: it locks the row of a user who is active. -/
def removeActive (userId : RowId) : AdminTx AdminOutcome := do
  let found ← Program.write (fun v => if v.isActive userId then [.user userId] else [])
    (fun _ db => db.deactivate userId) fun v => v.isActive userId
  if found then pure (.removed userId)
  else Program.throw (.notFound "Administrador activo no encontrado.")

/-- The guard of `softDelete`, and what follows it. -/
def guardedRemoval (userId : RowId) : AdminTx AdminOutcome := do
  let count ← Program.select AdminDb.countActive
  if count ≤ 1 then
    Program.throw (.conflict "La empresa debe conservar al menos un administrador activo.")
  else removeActive userId

/-- `softDelete`. -/
def softDelete (userId : RowId) : AdminTx AdminOutcome := do
  validateCompanyExists
  guardedRemoval userId

/-- A call for the tenant. -/
inductive AdminCall
  | create (data : NewAdmin)
  | softDelete (userId : RowId)
  deriving DecidableEq, Repr

/-- The calls in any interleaving of their statements; after the commit of a removal the tokens
of the user are revoked. -/
def admins (tenantId : ℕ) : Machine AdminCall AdminDb AdminRow RowId AdminError AdminOutcome where
  program
    | .create data => create tenantId data
    | .softDelete userId => softDelete userId
  dispatched := AdminOutcome.revoked

/-- A state of a run. -/
abbrev AdminState := System AdminCall AdminDb AdminRow RowId AdminError AdminOutcome

/-- An open transaction. -/
abbrev AdminTransaction := Transaction AdminCall AdminDb AdminRow RowId AdminError AdminOutcome

end Odiseo.Tenants
