import Mathlib.Data.List.Induction
import Mathlib.Data.List.Nodup

/-!
# Tenant migrations

`TenantMigrationService`: a run applies the migrations that the schema has not recorded,
each in a transaction of its own together with its record. A run may fail anywhere, and
the next one goes on from the records. The fan-out runs the migrations of one tenant after
the other. What the DDL of a migration does to the content of a schema is a parameter.
-/

namespace Odiseo.Tenancy

/-- The identifiers of `TENANT_MIGRATIONS`. -/
def tenantMigrationIds : List String :=
  ["0001_initial_tenant_schema",
    "0002_material_request_indexes",
    "0003_reconcile_super_admin_permissions",
    "0004_tenant_integrity_constraints",
    "0005_users_force_password_reset",
    "0006_material_and_default_design_uniqueness",
    "0007_onboarding_progress_per_user",
    "0008_fk_join_indexes",
    "0009_material_question_usage_natural_key",
    "0010_material_request_course_pdf_metrics",
    "0011_syllabus_distribution_null_safe_unique",
    "0012_users_tokens_valid_after"]

/-- What the DDL of each migration does to the content of a schema; `none`: it is refused. -/
abbrev Ddl (σ : Type) := String → σ → Option σ

/-- A schema: its table `_tenant_migrations` and everything else in it. -/
structure SchemaState (σ : Type) where
  /-- The table `_tenant_migrations` exists. -/
  markerTable : Bool
  recorded : List String
  content : σ
  deriving DecidableEq, Repr

/-- How the transaction of a migration ends when its statements are in order. -/
inductive TransactionEnd
  /-- It commits. -/
  | commits
  /-- A statement, the commit or the process fails, and it is rolled back. -/
  | rollsBack
  /-- It commits, but the answer is lost and the run fails. -/
  | answerLost
  deriving DecidableEq, Repr

/-- What goes wrong in one run. -/
structure RunFaults where
  /-- `CREATE TABLE IF NOT EXISTS` fails. -/
  createTable : Bool
  /-- The read of the recorded migrations fails. -/
  select : Bool
  transaction : String → TransactionEnd

section Run

variable {σ : Type} (ddl : Ddl σ)

/-- The transaction of one migration, and whether the run goes on after it. A second record
of a migration violates the primary key. -/
def applyMigration (id : String) (finish : TransactionEnd) (s : SchemaState σ) :
    SchemaState σ × Bool :=
  match finish, ddl id s.content with
  | .rollsBack, _ => (s, false)
  | _, none => (s, false)
  | finish, some content =>
    if id ∈ s.recorded then (s, false)
    else ({ s with content := content, recorded := s.recorded ++ [id] }, finish == .commits)

/-- The loop over the migrations, with the ones that had been recorded before it. -/
def applyPending (applied : List String) (transaction : String → TransactionEnd) :
    List String → SchemaState σ → SchemaState σ × Bool
  | [], s => (s, true)
  | id :: ids, s =>
    if id ∈ applied then applyPending applied transaction ids s
    else
      match applyMigration ddl id (transaction id) s with
      | (s', true) => applyPending applied transaction ids s'
      | (s', false) => (s', false)

/-- `runMigrations` for any list of migrations; `true`: it succeeds. -/
def runMigrationList (migrations : List String) (faults : RunFaults) (s : SchemaState σ) :
    SchemaState σ × Bool :=
  if faults.createTable then (s, false)
  else if faults.select then ({ s with markerTable := true }, false)
  else applyPending ddl s.recorded faults.transaction migrations { s with markerTable := true }

/-- `runMigrations`. -/
def runMigrations (faults : RunFaults) (s : SchemaState σ) : SchemaState σ × Bool :=
  runMigrationList ddl tenantMigrationIds faults s

/-- A schema that has just been created. -/
def freshSchema (content : σ) : SchemaState σ where
  markerTable := false
  recorded := []
  content := content

/-- A schema after several runs, each of which starts when the one before has released the
lock of the schema. -/
def afterRuns (content : σ) (runs : List RunFaults) : SchemaState σ :=
  runs.foldl (fun s faults => (runMigrations ddl faults s).1) (freshSchema content)

/-- The composition of migrations. -/
def composeUps (ids : List String) (content : σ) : Option σ :=
  ids.foldlM (fun content id => ddl id content) content

/-- The schema has exactly the migrations of a list, recorded and applied. -/
def SchemaState.AtExactly (s : SchemaState σ) (ids : List String) (content : σ) : Prop :=
  s.recorded = ids ∧ composeUps ddl ids content = some s.content

variable {ddl} {content : σ} {s s' : SchemaState σ}

/-- One more migration is one more step of the composition. -/
theorem composeUps_append_singleton {ids : List String} {id : String} {c c' : σ}
    (h : composeUps ddl ids content = some c) (hup : ddl id c = some c') :
    composeUps ddl (ids ++ [id]) content = some c' := by
  unfold composeUps at h ⊢
  rw [List.foldlM_append, h]
  simp [hup]

/-- The transaction of a migration records it and applies it, or does neither. A run that
goes on has done both. -/
theorem atExactly_applyMigration {ids : List String} {id : String} {finish : TransactionEnd}
    (h : s.AtExactly ddl ids content) {goesOn : Bool}
    (hstep : applyMigration ddl id finish s = (s', goesOn)) :
    s'.AtExactly ddl (ids ++ [id]) content ∨ s'.AtExactly ddl ids content ∧ goesOn = false := by
  unfold applyMigration at hstep
  split at hstep
  · cases hstep
    exact .inr ⟨h, rfl⟩
  · cases hstep
    exact .inr ⟨h, rfl⟩
  · rename_i c _ hup
    split at hstep
    · cases hstep
      exact .inr ⟨h, rfl⟩
    · cases hstep
      left
      constructor
      · simp [h.1]
      · exact composeUps_append_singleton h.2 hup

/-- Migrations that have been recorded are skipped. -/
theorem applyPending_append {applied before rest : List String}
    {transaction : String → TransactionEnd} (h : ∀ id ∈ before, id ∈ applied) :
    applyPending ddl applied transaction (before ++ rest) s =
      applyPending ddl applied transaction rest s := by
  induction before with
  | nil => rfl
  | cons id before ih =>
    rw [List.cons_append, applyPending, if_pos (h id (by simp))]
    exact ih fun id' hid' => h id' (List.mem_cons_of_mem id hid')

/-- **The loop** stops behind a prefix of the migrations that are left. When it succeeds, none
is left. -/
theorem atExactly_applyPending {applied ids pending : List String}
    {transaction : String → TransactionEnd} (h : s.AtExactly ddl ids content)
    (hpending : ∀ id ∈ pending, id ∉ applied) {succeeds : Bool}
    (hrun : applyPending ddl applied transaction pending s = (s', succeeds)) :
    ∃ done rest, pending = done ++ rest ∧ s'.AtExactly ddl (ids ++ done) content ∧
      (succeeds = true → rest = []) := by
  induction pending generalizing s ids with
  | nil =>
    cases hrun
    exact ⟨[], [], rfl, by simpa using h, fun _ => rfl⟩
  | cons id pending ih =>
    rw [applyPending, if_neg (hpending id (by simp))] at hrun
    split at hrun
    · rename_i s₁ hstep
      rcases atExactly_applyMigration h hstep with hdone | ⟨_, hfalse⟩
      · have hlater : ∀ id' ∈ pending, id' ∉ applied := fun id' hid' =>
          hpending id' (List.mem_cons_of_mem id hid')
        obtain ⟨done, rest, hsplit, hat, hrest⟩ := ih hdone hlater hrun
        refine ⟨id :: done, rest, ?_, ?_, hrest⟩
        · rw [hsplit]
          rfl
        · simpa using hat
      · cases hfalse
    · rename_i s₁ hstep
      cases hrun
      rcases atExactly_applyMigration h hstep with hdone | ⟨hsame, _⟩
      · exact ⟨[id], pending, rfl, hdone, fun hfalse => nomatch hfalse⟩
      · exact ⟨[], id :: pending, rfl, by simpa using hsame, fun hfalse => nomatch hfalse⟩

/-- **One run** goes from a prefix of the migrations to a longer one, and to all of them when
it succeeds. -/
theorem atExactly_runMigrationList {migrations before rest : List String} (hnodup : migrations.Nodup)
    (hsplit : migrations = before ++ rest) (h : s.AtExactly ddl before content)
    {faults : RunFaults} {succeeds : Bool}
    (hrun : runMigrationList ddl migrations faults s = (s', succeeds)) :
    ∃ before' rest', migrations = before' ++ rest' ∧ s'.AtExactly ddl before' content ∧
      (succeeds = true → rest' = []) := by
  unfold runMigrationList at hrun
  split at hrun
  · cases hrun
    exact ⟨before, rest, hsplit, h, fun hfalse => nomatch hfalse⟩
  · split at hrun
    · cases hrun
      exact ⟨before, rest, hsplit, h, fun hfalse => nomatch hfalse⟩
    · have hrecorded : s.recorded = before := h.1
      rw [hsplit, hrecorded, applyPending_append fun id hid => hid, ← hrecorded] at hrun
      have hpending : ∀ id ∈ rest, id ∉ s.recorded := by
        intro id hid hbefore
        rw [hsplit] at hnodup
        rw [hrecorded] at hbefore
        exact (List.disjoint_of_nodup_append hnodup) hbefore hid
      have hmarker : SchemaState.AtExactly ddl { s with markerTable := true } before content := h
      obtain ⟨done, rest', hrest, hat, hall⟩ := atExactly_applyPending hmarker hpending hrun
      refine ⟨before ++ done, rest', ?_, hat, hall⟩
      rw [hsplit, hrest, List.append_assoc]

/-- The identifiers of the migrations are different from each other. -/
theorem nodup_tenantMigrationIds : tenantMigrationIds.Nodup := by decide

/-- A run of the migrations of the tenants. -/
theorem atExactly_runMigrations {before rest : List String}
    (hsplit : tenantMigrationIds = before ++ rest) (h : s.AtExactly ddl before content)
    (faults : RunFaults) :
    ∃ before' rest', tenantMigrationIds = before' ++ rest' ∧
      (runMigrations ddl faults s).1.AtExactly ddl before' content ∧
      ((runMigrations ddl faults s).2 = true → rest' = []) :=
  atExactly_runMigrationList nodup_tenantMigrationIds hsplit h rfl

/-- The last of several runs. -/
theorem afterRuns_append_singleton (runs : List RunFaults) (faults : RunFaults) :
    afterRuns ddl content (runs ++ [faults]) =
      (runMigrations ddl faults (afterRuns ddl content runs)).1 := by
  simp only [afterRuns, List.foldl_append, List.foldl_cons, List.foldl_nil]

/-- **Any number of runs** leave a prefix of the migrations recorded and applied. -/
theorem atExactly_afterRuns (ddl : Ddl σ) (content : σ) (runs : List RunFaults) :
    ∃ before rest, tenantMigrationIds = before ++ rest ∧
      (afterRuns ddl content runs).AtExactly ddl before content := by
  induction runs using List.reverseRecOn with
  | nil => exact ⟨[], tenantMigrationIds, rfl, rfl, rfl⟩
  | append_singleton runs faults ih =>
    obtain ⟨before, rest, hsplit, hat⟩ := ih
    obtain ⟨before', rest', hsplit', hat', _⟩ := atExactly_runMigrations hsplit hat faults
    rw [afterRuns_append_singleton]
    exact ⟨before', rest', hsplit', hat'⟩

end Run

/-- The rows of `public.companies`, by their primary keys. -/
structure CompanyIds where
  ids : List ℕ
  nodup : ids.Nodup

/-- What goes wrong for one tenant of the fan-out. -/
structure TenantFaults where
  /-- `schemaExists` fails. -/
  schemaExists : Bool
  /-- The lock is not acquired. -/
  lock : Bool
  run : RunFaults
  /-- The lock is not released, or its connection is not. -/
  unlock : Bool

/-- The schemas of the tenants, where they exist. -/
abbrev Schemas (σ : Type) := ℕ → Option (SchemaState σ)

/-- `TenantMigrationSummary`; a failure is listed by its tenant. -/
structure TenantMigrationSummary where
  total : ℕ
  migrated : ℕ
  skipped : ℕ
  failed : ℕ
  failures : List ℕ
  deriving DecidableEq, Repr

/-- How the fan-out counts a tenant. -/
inductive TenantOutcome
  | migrated
  | skipped
  | failed
  deriving DecidableEq, Repr

/-- The summary after one more tenant. -/
def TenantMigrationSummary.count (summary : TenantMigrationSummary) (id : ℕ) :
    TenantOutcome → TenantMigrationSummary
  | .migrated => { summary with migrated := summary.migrated + 1 }
  | .skipped => { summary with skipped := summary.skipped + 1 }
  | .failed =>
    { summary with failed := summary.failed + 1, failures := summary.failures ++ [id] }

section FanOut

variable {σ : Type} (ddl : Ddl σ)

/-- `withSchemaLock` around a run. -/
def runLocked (faults : TenantFaults) (s : SchemaState σ) : SchemaState σ × Bool :=
  if faults.lock then (s, false)
  else
    ((runMigrations ddl faults.run s).1,
      (runMigrations ddl faults.run s).2 && !faults.unlock)

/-- One tenant of the fan-out: its schema afterwards, and how it is counted. -/
def migrateTenant (faults : TenantFaults) (schema : Option (SchemaState σ)) :
    Option (SchemaState σ) × TenantOutcome :=
  if faults.schemaExists then (schema, .failed)
  else
    match schema with
    | none => (none, .skipped)
    | some s =>
      (some (runLocked ddl faults s).1, if (runLocked ddl faults s).2 then .migrated else .failed)

/-- The schemas with one of them changed. -/
def Schemas.set (schemas : Schemas σ) (id : ℕ) (schema : Option (SchemaState σ)) : Schemas σ :=
  fun id' => if id' = id then schema else schemas id'

/-- The loop over the tenants. -/
def migrateTenants (faults : ℕ → TenantFaults) :
    List ℕ → Schemas σ × TenantMigrationSummary → Schemas σ × TenantMigrationSummary
  | [], out => out
  | id :: ids, (schemas, summary) =>
    let result := migrateTenant ddl (faults id) (schemas id)
    migrateTenants faults ids (schemas.set id result.1, summary.count id result.2)

/-- `runMigrationsForAllTenants`. -/
def runMigrationsForAllTenants (companies : CompanyIds) (faults : ℕ → TenantFaults)
    (schemas : Schemas σ) : Schemas σ × TenantMigrationSummary :=
  migrateTenants ddl faults companies.ids
    (schemas,
      { total := companies.ids.length, migrated := 0, skipped := 0, failed := 0, failures := [] })

variable {ddl}

/-- The loop leaves the tenants alone that it does not come to. -/
theorem migrateTenants_of_notMem {faults : ℕ → TenantFaults} {ids : List ℕ} {schemas : Schemas σ}
    {summary : TenantMigrationSummary} {id : ℕ} (h : id ∉ ids) :
    (migrateTenants ddl faults ids (schemas, summary)).1 id = schemas id := by
  induction ids generalizing schemas summary with
  | nil => rfl
  | cons x ids ih =>
    rw [migrateTenants, ih fun hid => h (List.mem_cons_of_mem x hid)]
    have hne : id ≠ x := fun heq => h (by simp [heq])
    simp [Schemas.set, hne]

/-- The loop treats a tenant as if it were the only one. -/
theorem migrateTenants_of_mem {faults : ℕ → TenantFaults} {ids : List ℕ} (hnodup : ids.Nodup)
    {schemas : Schemas σ} {summary : TenantMigrationSummary} {id : ℕ} (h : id ∈ ids) :
    (migrateTenants ddl faults ids (schemas, summary)).1 id =
      (migrateTenant ddl (faults id) (schemas id)).1 := by
  induction ids generalizing schemas summary with
  | nil => cases h
  | cons x ids ih =>
    obtain ⟨hx, hids⟩ := List.nodup_cons.mp hnodup
    rw [migrateTenants]
    by_cases heq : id = x
    · subst heq
      rw [migrateTenants_of_notMem hx]
      simp [Schemas.set]
    · rcases List.mem_cons.mp h with hsame | hmem
      · exact absurd hsame heq
      · rw [ih hids hmem]
        simp [Schemas.set, heq]

/-- Every tenant is counted once. -/
theorem count_migrateTenants (ddl : Ddl σ) (faults : ℕ → TenantFaults) (ids : List ℕ)
    (schemas : Schemas σ) (summary : TenantMigrationSummary) :
    let result := (migrateTenants ddl faults ids (schemas, summary)).2
    result.total = summary.total ∧
      result.migrated + result.skipped + result.failed =
        summary.migrated + summary.skipped + summary.failed + ids.length ∧
      result.failures.length + summary.failed = summary.failures.length + result.failed := by
  induction ids generalizing schemas summary with
  | nil =>
    refine ⟨rfl, rfl, ?_⟩
    simp only [migrateTenants]
  | cons x ids ih =>
    simp only [migrateTenants]
    obtain ⟨htotal, hcount, hfailures⟩ := ih
      (schemas.set x (migrateTenant ddl (faults x) (schemas x)).1)
      (summary.count x (migrateTenant ddl (faults x) (schemas x)).2)
    refine ⟨htotal.trans ?_, hcount.trans ?_, ?_⟩
    · cases (migrateTenant ddl (faults x) (schemas x)).2 <;> rfl
    · cases (migrateTenant ddl (faults x) (schemas x)).2 <;>
        simp only [TenantMigrationSummary.count, List.length_cons] <;> omega
    · revert hfailures
      cases (migrateTenant ddl (faults x) (schemas x)).2 <;>
        simp only [TenantMigrationSummary.count, List.length_append, List.length_singleton] <;>
        omega

end FanOut

/-- **Migration runs** are closed under prefixes, apply every migration once and resume; and
the fan-out treats each tenant as if it were the only one and counts it once. -/
theorem migrations_resume {σ : Type} (ddl : Ddl σ) :
    (∀ (content : σ) (runs : List RunFaults),
      (afterRuns ddl content runs).recorded <+: tenantMigrationIds ∧
      (afterRuns ddl content runs).recorded.Nodup ∧
      composeUps ddl (afterRuns ddl content runs).recorded content =
        some (afterRuns ddl content runs).content ∧
      ∀ faults, (runMigrations ddl faults (afterRuns ddl content runs)).2 = true →
        (runMigrations ddl faults (afterRuns ddl content runs)).1.recorded =
          tenantMigrationIds) ∧
    ∀ (companies : CompanyIds) (faults : ℕ → TenantFaults) (schemas : Schemas σ),
      let result := runMigrationsForAllTenants ddl companies faults schemas
      (∀ id ∈ companies.ids, result.1 id = (migrateTenant ddl (faults id) (schemas id)).1) ∧
      (∀ id ∉ companies.ids, result.1 id = schemas id) ∧
      result.2.total = companies.ids.length ∧
      result.2.total = result.2.migrated + result.2.skipped + result.2.failed ∧
      result.2.failures.length = result.2.failed := by
  constructor
  · intro content runs
    obtain ⟨before, rest, hsplit, hrecorded, hcontent⟩ :=
      atExactly_afterRuns ddl content runs
    have hpre : (afterRuns ddl content runs).recorded <+: tenantMigrationIds :=
      ⟨rest, by rw [hrecorded, ← hsplit]⟩
    refine ⟨hpre, hpre.sublist.nodup nodup_tenantMigrationIds, ?_, ?_⟩
    · rw [hrecorded]
      exact hcontent
    · intro faults hsucceeds
      obtain ⟨before', rest', hsplit', hat, hall⟩ :=
        atExactly_runMigrations hsplit ⟨hrecorded, hcontent⟩ faults
      rw [hall hsucceeds, List.append_nil] at hsplit'
      rw [hsplit']
      exact hat.1
  · intro companies faults schemas
    obtain ⟨htotal, hcount, hfailures⟩ := count_migrateTenants ddl faults companies.ids schemas
      { total := companies.ids.length, migrated := 0, skipped := 0, failed := 0, failures := [] }
    refine ⟨fun id hid => migrateTenants_of_mem companies.nodup hid,
      fun id hid => migrateTenants_of_notMem hid, htotal, ?_, ?_⟩
    · simp only [Nat.zero_add] at hcount
      exact htotal.trans hcount.symm
    · simp only [List.length_nil, Nat.zero_add, Nat.add_zero] at hfailures
      exact hfailures

end Odiseo.Tenancy
