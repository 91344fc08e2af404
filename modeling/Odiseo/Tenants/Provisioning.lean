import Odiseo.Database.Transition
import Odiseo.Tenancy.Migrations
import Odiseo.Tenants.Admins
import Odiseo.Tenants.Lookup

/-!
# The provisioning of tenants

`TenantsAdminService.create` and `updateStatus` and the jobs of `TenantProvisioningProcessor`,
for any number of tenants. Whatever commits on its own is a step of its own: the row of the
company, the schema, each migration, the role, the administrator, the activation. A job may
fail between any two steps, is retried, may be handed out twice, and ends in the handler of
failed jobs.
-/

namespace Odiseo.Tenants

open Database Tenancy

/-- `uuid` of a company. -/
abbrev CompanyId := ℕ

/-- `adminEmail` and `adminPassword`. -/
structure AdminCredentials where
  adminEmail : String
  adminPassword : String
  deriving DecidableEq, Repr

/-- `companies`, the columns that this service reads and writes to serve a tenant. -/
structure CompanyRow where
  id : CompanyId
  subdomain : Subdomain
  status : CompanyStatus
  isActive : Bool
  deriving DecidableEq, Repr

instance : Keyed CompanyId CompanyRow := ⟨CompanyRow.id⟩

/-- The arguments of `create` that provisioning depends on. -/
structure NewTenant where
  subdomain : Subdomain
  adminEmail : Option String
  adminPassword : Option String
  deriving DecidableEq, Repr

/-- A job of the queue: `TenantProvisioningJobData` and the attempts that have failed. -/
structure ProvisioningJob where
  companyId : CompanyId
  credentials : Option AdminCredentials
  attemptsMade : ℕ
  deriving DecidableEq, Repr

/-- `attempts` of `TENANT_PROVISIONING_JOB_OPTIONS`. -/
def provisioningAttempts : ℕ := 3

/-- What a running job does next. -/
inductive JobStage
  /-- `createTenantSchema`. -/
  | creatingSchema
  /-- The lock of the schema, the table of the migrations and what it has recorded. -/
  | preparing
  /-- The migrations that are left, with those that had been recorded. -/
  | migrating (applied pending : List String)
  /-- The role of the administrators. -/
  | seedingRole
  /-- `createSuperAdminInSchema`. -/
  | creatingAdmin
  /-- `isActive: true`. -/
  | activating
  /-- The job returns. -/
  | activated
  deriving DecidableEq, Repr

/-- A job that a worker runs. -/
structure Execution where
  job : ProvisioningJob
  stage : JobStage
  deriving DecidableEq, Repr

/-- A call of `create` whose company has been inserted. -/
structure Creation where
  job : ProvisioningJob
  /-- The job could not be added, and the company is about to be suspended. -/
  refused : Bool
  deriving DecidableEq, Repr

/-- How far a call of `updateStatus` has come. -/
inductive UpdateStage
  /-- The company was loaded inactive, to be activated. -/
  | checking (entity : CompanyRow)
  /-- The entity is about to be saved. -/
  | saving (entity : CompanyRow)
  /-- `save` has read the row again. -/
  | writing (entity reread : CompanyRow)
  deriving DecidableEq, Repr

/-- A call of `updateStatus`. -/
structure StatusUpdate where
  companyId : CompanyId
  status : CompanyStatus
  stage : UpdateStage
  deriving DecidableEq, Repr

/-- All tenants, the queue, and what is under way. -/
structure Onboarding where
  companies : Table CompanyId CompanyRow
  schemas : CompanyId → Option (SchemaState AdminDb)
  /-- The credentials with which each tenant was created. -/
  createdWith : CompanyId → Option AdminCredentials
  creations : List Creation
  jobs : List ProvisioningJob
  executions : List Execution
  /-- The failures that `handleFailed` has not seen yet. -/
  failed : List ProvisioningJob
  updates : List StatusUpdate

/-- No tenant has been created. -/
def Onboarding.start : Onboarding where
  companies := .empty
  schemas := fun _ => none
  createdWith := fun _ => none
  creations := []
  jobs := []
  executions := []
  failed := []
  updates := []

/-- What the database and the hash function draw in one step of a job. -/
structure JobInputs where
  newUserId : RowId
  newRoleId : RowId
  passwordHash : String
  deriving DecidableEq, Repr

/-- What happens next. -/
inductive OnboardingAction
  /-- `create`, up to the insert of the company. -/
  | create (data : NewTenant) (newId : CompanyId)
  /-- `queue.add` of a creation. -/
  | enqueue (k : ℕ) (accepted : Bool)
  /-- A creation whose job was refused suspends the company. -/
  | suspend (k : ℕ)
  /-- A worker takes a job. -/
  | startJob (k : ℕ)
  /-- The next step of a running job. -/
  | jobStep (k : ℕ) (inputs : JobInputs)
  /-- A running job counts as stalled: the queue hands it out again. -/
  | jobStalls (k : ℕ)
  /-- A running job fails. -/
  | jobFails (k : ℕ)
  /-- `handleFailed` sees a failure. -/
  | handleFailed (k : ℕ)
  /-- `updateStatus` loads the company. -/
  | load (id : CompanyId) (status : CompanyStatus)
  /-- `updateStatus` checks the schema of an inactive company. -/
  | check (k : ℕ) (accepted : Bool)
  /-- `save` reads the row again. -/
  | reread (k : ℕ)
  /-- `save` writes the columns that differ. -/
  | write (k : ℕ)
  deriving DecidableEq, Repr

/-- `Boolean` of an optional text. -/
def given (text : Option String) : Bool := text.any fun t => t ≠ ""

/-- The credentials of a new tenant. -/
def NewTenant.credentials (data : NewTenant) : Option AdminCredentials :=
  match data.adminEmail, data.adminPassword with
  | some email, some password =>
    if given (some email) && given (some password) then some ⟨email, password⟩ else none
  | _, _ => none

/-- The tables of a schema before the first row. -/
def emptyAdminDb : AdminDb where
  company := true
  users := .empty
  roles := .empty
  userRoles := .empty
  roleNames := List.nodup_nil

/-- `0003_reconcile_super_admin_permissions`. -/
def AdminDb.reconcilePermissions (db : AdminDb) : AdminDb :=
  { db with
    roles := db.roles.modifyAll fun role =>
      if role.isSystemDefault then { role with permissions := tenantSuperAdminPermissions }
      else role
    roleNames := by
      have hname : ∀ role : AdminRole, (if role.isSystemDefault then
          { role with permissions := tenantSuperAdminPermissions } else role).name = role.name := by
        intro role
        split <;> rfl
      have hnames : ((db.roles.modifyAll fun role => if role.isSystemDefault then
          { role with permissions := tenantSuperAdminPermissions } else role).rows.map
            AdminRole.name) = db.roles.rows.map AdminRole.name := by
        rw [Table.modifyAll, List.map_map]
        exact List.map_congr_left fun role _ => hname role
      rw [hnames]
      exact db.roleNames }

/-- What the migrations do to the rows of users and roles. -/
def tenantDdl : Ddl AdminDb := fun id db =>
  if id = "0003_reconcile_super_admin_permissions" then some db.reconcilePermissions else some db

/-- The identifier of the initial migration. -/
def initialMigration : String := "0001_initial_tenant_schema"

/-- The schema exists, and its initial migration has been recorded. -/
def seeded : Option (SchemaState AdminDb) → Bool
  | none => false
  | some s => s.markerTable && decide (initialMigration ∈ s.recorded)

/-- The administrator of a job. -/
def AdminCredentials.newAdmin (credentials : AdminCredentials) (inputs : JobInputs) : NewAdmin where
  email := credentials.adminEmail
  name := credentials.adminEmail
  passwordHash := inputs.passwordHash
  newUserId := inputs.newUserId
  newRoleId := inputs.newRoleId

namespace Onboarding

/-- The schema of a company becomes another one. -/
def setSchema (w : Onboarding) (id : CompanyId) (s : SchemaState AdminDb) : Onboarding :=
  { w with schemas := Function.update w.schemas id (some s) }

/-- A running job goes on. -/
def setJobStage (w : Onboarding) (k : ℕ) (e : Execution) (stage : JobStage) : Onboarding :=
  { w with executions := w.executions.set k { e with stage := stage } }

/-- A call of `updateStatus` goes on. -/
def setUpdateStage (w : Onboarding) (k : ℕ) (u : StatusUpdate) (stage : UpdateStage) : Onboarding :=
  { w with updates := w.updates.set k { u with stage := stage } }

/-- `update(companyId, { isActive: false, status: 'SUSPENDED' })`. -/
def suspendCompany (w : Onboarding) (id : CompanyId) : Onboarding :=
  { w with companies := w.companies.modify id fun row =>
      { row with isActive := false, status := .suspended } }

/-- `update(companyId, { isActive: true })`. -/
def activateCompany (w : Onboarding) (id : CompanyId) : Onboarding :=
  { w with companies := w.companies.modify id fun row => { row with isActive := true } }

/-- `create`, up to the insert of the company. -/
def create (w : Onboarding) (data : NewTenant) (newId : CompanyId) : Onboarding :=
  if given data.adminEmail != given data.adminPassword then w
  else if w.companies.rows.any fun row => row.subdomain = data.subdomain then w
  else if (w.companies.find newId).isSome then w
  else { w with
    companies := w.companies.insert ⟨newId, data.subdomain, .active, false⟩
    createdWith := Function.update w.createdWith newId data.credentials
    creations := w.creations ++ [⟨⟨newId, data.credentials, 0⟩, false⟩] }

/-- `queue.add` of a creation. -/
def enqueue (w : Onboarding) (k : ℕ) (x : Creation) (accepted : Bool) : Onboarding :=
  if accepted then
    { w with creations := w.creations.eraseIdx k, jobs := w.jobs ++ [x.job] }
  else { w with creations := w.creations.set k { x with refused := true } }

/-- Another execution migrates the schema of a company. -/
def migrates (w : Onboarding) (id : CompanyId) : Bool :=
  w.executions.any fun e => decide (e.job.companyId = id) &&
    match e.stage with
    | .migrating _ _ => true
    | _ => false

/-- What follows the seeding of the role. -/
def afterRole (job : ProvisioningJob) : JobStage :=
  match job.credentials with
  | some _ => .creatingAdmin
  | none => .activating

/-- The next step of a running job; `none` when it has to fail or to wait. -/
def jobStep (w : Onboarding) (k : ℕ) (e : Execution) (inputs : JobInputs) : Option Onboarding :=
  let id := e.job.companyId
  match e.stage, w.schemas id with
  | .creatingSchema, schema =>
    some ((w.setSchema id (schema.getD (freshSchema emptyAdminDb))).setJobStage k e .preparing)
  | .preparing, some s =>
    if w.migrates id then none
    else some ((w.setSchema id { s with markerTable := true }).setJobStage k e
      (.migrating s.recorded tenantMigrationIds))
  | .migrating _ [], some _ => some (w.setJobStage k e .seedingRole)
  | .migrating applied (migration :: pending), some s =>
    if migration ∈ applied then some (w.setJobStage k e (.migrating applied pending))
    else
      match applyMigration tenantDdl migration .commits s with
      | (s', true) => some ((w.setSchema id s').setJobStage k e (.migrating applied pending))
      | (_, false) => none
  | .seedingRole, some s =>
    some ((w.setSchema id { s with content := s.content.insertRole (adminRole inputs.newRoleId) }
      ).setJobStage k e (afterRole e.job))
  | .creatingAdmin, some s =>
    match e.job.credentials with
    | none => none
    | some credentials =>
      match (insertSuperAdmin id (credentials.newAdmin inputs) true).run s.content with
      | .error _ => none
      | .ok (_, content, _) =>
        some ((w.setSchema id { s with content := content }).setJobStage k e .activating)
  | .activating, _ => some ((w.activateCompany id).setJobStage k e .activated)
  | .activated, _ => some { w with executions := w.executions.eraseIdx k }
  | _, none => none

/-- A running job fails; the queue retries it until its attempts are exhausted. -/
def jobFails (w : Onboarding) (k : ℕ) (e : Execution) : Onboarding :=
  let job := { e.job with attemptsMade := e.job.attemptsMade + 1 }
  { w with
    executions := w.executions.eraseIdx k
    failed := w.failed ++ [job]
    jobs := if job.attemptsMade < provisioningAttempts then w.jobs ++ [job] else w.jobs }

/-- `handleFailed`. -/
def handleFailed (w : Onboarding) (k : ℕ) (job : ProvisioningJob) : Onboarding :=
  let w := { w with failed := w.failed.eraseIdx k }
  if job.attemptsMade < provisioningAttempts then w else w.suspendCompany job.companyId

/-- `updateStatus` loads the company; only the activation of an inactive one needs the check. -/
def load (w : Onboarding) (company : CompanyRow) (status : CompanyStatus) : Onboarding :=
  let stage := if status = .active ∧ company.isActive = false then UpdateStage.checking company
    else .saving company
  { w with updates := w.updates ++ [⟨company.id, status, stage⟩] }

/-- The check of the schema: the entity is activated, or provisioning is requeued without any
credentials and the call throws. -/
def check (w : Onboarding) (k : ℕ) (u : StatusUpdate) (entity : CompanyRow) (accepted : Bool) :
    Onboarding :=
  if seeded (w.schemas u.companyId) then
    w.setUpdateStage k u (.saving { entity with isActive := true })
  else { w with
    updates := w.updates.eraseIdx k
    jobs := if accepted then w.jobs ++ [⟨u.companyId, none, 0⟩] else w.jobs }

/-- `save` writes the columns in which the entity differs from the row that was read again. -/
def write (w : Onboarding) (k : ℕ) (u : StatusUpdate) (entity reread : CompanyRow) : Onboarding :=
  { w with
    updates := w.updates.eraseIdx k
    companies := w.companies.modify u.companyId fun row =>
      { row with
        status := saved entity.status reread.status row.status
        isActive := saved entity.isActive reread.isActive row.isActive } }

/-- The next state; `none` when the action cannot happen. -/
def step (w : Onboarding) : OnboardingAction → Option Onboarding
  | .create data newId => some (w.create data newId)
  | .enqueue k accepted => (w.creations[k]?).bind fun x =>
    if x.refused then none else some (w.enqueue k x accepted)
  | .suspend k => (w.creations[k]?).bind fun x =>
    if x.refused then
      some ({ w with creations := w.creations.eraseIdx k }.suspendCompany x.job.companyId)
    else none
  | .startJob k => (w.jobs[k]?).map fun job =>
    { w with
      jobs := w.jobs.eraseIdx k
      executions := w.executions ++ [⟨job, .creatingSchema⟩] }
  | .jobStep k inputs => (w.executions[k]?).bind fun e => w.jobStep k e inputs
  | .jobStalls k => (w.executions[k]?).map fun e => { w with jobs := w.jobs ++ [e.job] }
  | .jobFails k => (w.executions[k]?).map fun e => w.jobFails k e
  | .handleFailed k => (w.failed[k]?).map fun job => w.handleFailed k job
  | .load id status => (w.companies.find id).map fun company => w.load company status
  | .check k accepted => (w.updates[k]?).bind fun u =>
    match u.stage with
    | .checking entity => some (w.check k u entity accepted)
    | _ => none
  | .reread k => (w.updates[k]?).bind fun u =>
    match u.stage with
    | .saving entity => (w.companies.find u.companyId).map fun reread =>
      w.setUpdateStage k u (.writing { entity with status := u.status } reread)
    | _ => none
  | .write k => (w.updates[k]?).bind fun u =>
    match u.stage with
    | .writing entity reread => some (w.write k u entity reread)
    | _ => none

end Onboarding

end Odiseo.Tenants
