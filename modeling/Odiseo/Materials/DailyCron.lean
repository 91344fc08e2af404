import Odiseo.Materials.DispatchOnce

/-!
# The daily generation

`MaterialsCron.generateForTenant` asks for the material of every active week that has none, with an
empty list of courses. `GenerateMaterialUseCase.execute` takes the courses of the template only when
the request has no list at all: an empty list is one, and the generation finds nothing to do.
-/

namespace Odiseo.Materials

open Database

/-- `CycleWeek`, as the cron reads it. -/
structure CronWeek where
  weekNumber : ℕ
  isActive : Bool
  weekNumber_pos : 1 ≤ weekNumber

/-- `Cycle`, with its weeks. -/
structure CronCycle where
  id : Uuid
  isActive : Bool
  weeks : List CronWeek

/-- What happens around the daily generation of a tenant. -/
structure CronInputs where
  tenantId : Uuid
  /-- The template that the database answers, of any. -/
  template : Option MaterialProfile
  /-- The lookup throws: it names no condition, which the ORM may insist on. -/
  lookupFails : Bool
  /-- The cycles, in the order in which they are found. -/
  cycles : List CronCycle
  /-- What happens around the generation of a week. -/
  surroundings : Uuid → ℕ → Surroundings

/-- The body of the request of a week. -/
def cronRequest (template : MaterialProfile) (week : CronWeek) : GenerateMaterialDto where
  profileId := template.id
  weekNumber := week.weekNumber
  requiresReview := false
  courses := []
  designTemplateId := none
  weekNumber_pos := week.weekNumber_pos

/-- A material of the template and the week is there: `existingMaterial`. -/
def GenerationTenant.hasMaterial (tenant : GenerationTenant) (profileId cycleId : Uuid)
    (weekNumber : ℕ) : Bool :=
  tenant.db.materials.rows.any fun m =>
    m.profileId == profileId && m.cycleId == cycleId && m.weekNumber == weekNumber

/-- One pass of the inner loop. An error of the generation is logged. -/
def CronInputs.generateWeek (i : CronInputs) (template : MaterialProfile) (cycleId : Uuid)
    (tenant : GenerationTenant) (week : CronWeek) : GenerationTenant :=
  if !week.isActive then tenant
  else if tenant.hasMaterial template.id cycleId week.weekNumber then tenant
  else
    match execute (i.surroundings cycleId week.weekNumber) i.tenantId (cronRequest template week)
        tenant with
    | .ok e => { tenant with db := e.db }
    | .error _ => tenant

/-- One pass of the outer loop. -/
def CronInputs.generateCycle (i : CronInputs) (template : MaterialProfile)
    (tenant : GenerationTenant) (cycle : CronCycle) : GenerationTenant :=
  cycle.weeks.foldl (i.generateWeek template cycle.id) tenant

/-- `generateForTenant`: the tenant after it. -/
def generateForTenant (i : CronInputs) (tenant : GenerationTenant) : GenerationTenant :=
  if i.lookupFails then tenant
  else
    match i.template with
    | none => tenant
    | some template =>
      (i.cycles.filter (·.isActive)).foldl (i.generateCycle template) tenant

/-- The courses of a template that have an active syllabus with a distribution in the window. -/
def coveredCourses (catalog : Catalog) (profile : MaterialProfile) (weekNumber : ℕ) :
    List CatalogId :=
  (profile.courses.map (·.courseId)).filter fun courseId =>
    !(coveredRows catalog profile weekNumber courseId).isEmpty

/-- The courses of the rows that a generation has inserted. -/
def createdBy (tenant : GenerationTenant) : Except GenerationError Execution → List CatalogId
  | .ok e => (e.db.courses.filter fun c => (tenant.db.courses.find c.id).isNone).map (·.courseId)
  | .error _ => []

/-- A generation with an empty list of courses creates one course request for each covered course
of its template. -/
def CoversTemplate (env : Surroundings) (tenantId : Uuid) (tenant : GenerationTenant) : Prop :=
  ∀ profile ∈ tenant.profiles, ∀ dto : GenerateMaterialDto, dto.profileId = profile.id →
    dto.courses = [] → (createdBy tenant (execute env tenantId dto tenant)).Perm
      (coveredCourses tenant.db.catalog profile dto.weekNumber)

/-- Every active week of the cycle of the template that has a covered course has a material in
`after`. -/
def CoversWeeks (i : CronInputs) (tenant after : GenerationTenant) : Prop :=
  ∀ template, i.template = some template → ∀ cycle ∈ i.cycles, cycle.id = template.cycleId →
    ∀ week ∈ cycle.weeks, week.isActive = true →
      coveredCourses tenant.db.catalog template week.weekNumber ≠ [] →
        after.hasMaterial template.id cycle.id week.weekNumber = true

/-- **A generation with an empty list of courses throws.** -/
theorem execute_of_nil (env : Surroundings) (tenantId : Uuid) (dto : GenerateMaterialDto)
    (tenant : GenerationTenant) (hcourses : dto.courses = []) :
    ∃ e, execute env tenantId dto tenant = .error e := by
  unfold execute
  cases tenant.profiles.find? fun p => p.id == dto.profileId with
  | none => exact ⟨_, rfl⟩
  | some profile =>
    rw [hcourses]
    exact ⟨_, rfl⟩

/-- **Step lemma:** a pass of the inner loop changes nothing. -/
theorem generateWeek_eq (i : CronInputs) (template : MaterialProfile) (cycleId : Uuid)
    (tenant : GenerationTenant) (week : CronWeek) :
    i.generateWeek template cycleId tenant week = tenant := by
  unfold CronInputs.generateWeek
  split
  · rfl
  · split
    · rfl
    · obtain ⟨e, he⟩ := execute_of_nil (i.surroundings cycleId week.weekNumber) i.tenantId
        (cronRequest template week) tenant rfl
      rw [he]

/-- A pass of the outer loop changes nothing. -/
theorem generateCycle_eq (i : CronInputs) (template : MaterialProfile)
    (tenant : GenerationTenant) (cycle : CronCycle) :
    i.generateCycle template tenant cycle = tenant := by
  unfold CronInputs.generateCycle
  induction cycle.weeks with
  | nil => rfl
  | cons week weeks ih => rw [List.foldl_cons, generateWeek_eq, ih]

/-- **Run lemma:** the daily generation changes nothing. -/
theorem generateForTenant_eq (i : CronInputs) (tenant : GenerationTenant) :
    generateForTenant i tenant = tenant := by
  unfold generateForTenant
  split
  · rfl
  · split
    · rfl
    · rename_i template _
      induction i.cycles.filter (·.isActive) with
      | nil => rfl
      | cons cycle cycles ih => rw [List.foldl_cons, generateCycle_eq, ih]

/-- **An empty list of courses covers the templates of a tenant exactly when they have nothing to
cover in any week, and the cron covers the weeks exactly when they had their materials before.** -/
theorem coversTemplate_iff (env : Surroundings) (i : CronInputs) (tenant : GenerationTenant) :
    CoversTemplate env i.tenantId tenant ∧ CoversWeeks i tenant (generateForTenant i tenant) ↔
      (∀ profile ∈ tenant.profiles, ∀ weekNumber, 1 ≤ weekNumber →
        coveredCourses tenant.db.catalog profile weekNumber = []) ∧
      CoversWeeks i tenant tenant := by
  rw [generateForTenant_eq]
  refine and_congr_left fun _ => ?_
  constructor
  · intro hcovers profile hprofile weekNumber hpos
    have hperm := hcovers profile hprofile (cronRequest profile ⟨weekNumber, true, hpos⟩) rfl rfl
    obtain ⟨e, he⟩ := execute_of_nil env i.tenantId (cronRequest profile ⟨weekNumber, true, hpos⟩)
      tenant rfl
    rw [he] at hperm
    exact List.nil_perm.mp hperm
  · intro hnothing profile hprofile dto hid hcourses
    obtain ⟨e, he⟩ := execute_of_nil env i.tenantId dto tenant hcourses
    rw [he, hnothing profile hprofile dto.weekNumber dto.weekNumber_pos]
    exact List.Perm.refl _

/-- Weeks are numbered from one. -/
theorem firstWeek_pos : 1 ≤ 1 := by decide

/-- The first week. -/
def firstWeek : CronWeek where
  weekNumber := 1
  isActive := true
  weekNumber_pos := firstWeek_pos

/-- The cycle of the weekly template. -/
def weeklyCycle : CronCycle where
  id := 1
  isActive := true
  weeks := [firstWeek]

/-- The daily generation of the tenant with the weekly template. -/
def weeklyCron : CronInputs where
  tenantId := 1
  template := some weeklyProfile
  lookupFails := false
  cycles := [weeklyCycle]
  surroundings _ _ := quietSurroundings

/-- The first week has a distribution of the course of the template, and gets no material. -/
theorem not_coversTemplate : ¬∀ (env : Surroundings) (i : CronInputs) (tenant : GenerationTenant),
    CoversTemplate env i.tenantId tenant ∧ CoversWeeks i tenant (generateForTenant i tenant) := by
  intro hall
  obtain ⟨-, hweeks⟩ := hall quietSurroundings weeklyCron weeklyTenant
  have hcovered : coveredCourses weeklyTenant.db.catalog weeklyProfile 1 ≠ [] := by
    decide
  have hmaterial := hweeks weeklyProfile rfl weeklyCycle List.mem_cons_self rfl firstWeek
    List.mem_cons_self rfl hcovered
  revert hmaterial
  decide +kernel

end Odiseo.Materials
