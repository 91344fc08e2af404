import Odiseo.Materials.AntiRepetition
import Odiseo.Materials.ReviewScope

/-!
# A generation from its request on

`GenerateMaterialUseCase.execute`, from the body of the request to the job. The courses arrive as
texts: PostgreSQL reads them as numbers where they meet a column, and the use case compares them as
texts where it matches the rows of the courses with the entries of the job.
-/

namespace Odiseo.Materials

open Database

/-- `GenerateMaterialDto`. -/
structure GenerateMaterialDto where
  profileId : Uuid
  weekNumber : ℕ
  requiresReview : Bool
  /-- `course_id` of each course. -/
  courses : List String
  designTemplateId : Option Uuid
  weekNumber_pos : 1 ≤ weekNumber

/-- What a generation reads of its tenant, and the database that it writes. -/
structure GenerationTenant where
  /-- The templates, with their courses. -/
  profiles : List MaterialProfile
  /-- The identifier of the default design. -/
  defaultDesign : Option Uuid
  db : Db

/-- What happens around one generation. -/
structure Surroundings where
  /-- The number that PostgreSQL reads in a text, when it is one. -/
  bigint : String → Option CatalogId
  bank : QuestionBank
  /-- The random numbers of the shuffles of the levels. -/
  shuffled : ℕ → ℕ → ℕ
  /-- The random numbers of the selections. -/
  random : List (List ℕ)
  /-- The identifiers that are drawn for the rows of the courses. -/
  courseRequestId : ℕ → CourseRequestId
  slotId : ℕ → SlotId
  newMaterialId : MaterialId
  newRequestId : RequestId
  /-- Identifiers are drawn once. -/
  distinct : Function.Injective courseRequestId

/-- An entry of `realDistributions`, with the text of its course. -/
structure RequestedCourse where
  text : String
  plan : CoursePlan
  deriving DecidableEq, Repr

/-- `templateCourse`: the course of the template with the text. -/
def configuredCourse (profile : MaterialProfile) (text : String) : Option TemplateCourse :=
  profile.courses.find? fun tc => toString tc.courseId == text

/-- `realDistributions`. -/
def requestedCourses (bigint : String → Option CatalogId) (catalog : Catalog)
    (profile : MaterialProfile) (weekNumber : ℕ) :
    (ℕ → ℕ → ℕ) → List String → Except GenerationError (List RequestedCourse)
  | _, [] => .ok []
  | shuffled, text :: texts =>
    match bigint text with
    | none => .error (.http .queryFailed)
    | some courseId =>
      match generationWindow catalog profile weekNumber courseId with
      | [] => requestedCourses bigint catalog profile weekNumber (fun i => shuffled (i + 1)) texts
      | dist :: distributions =>
        match planCourse (shuffled 0) (configuredCourse profile text) (dist :: distributions) with
        | .error e => .error (.planning e)
        | .ok topics => do
          let rest ←
            requestedCourses bigint catalog profile weekNumber (fun i => shuffled (i + 1)) texts
          pure ({ text, plan := { courseId, topics := topics.map PlannedTopic.toPlan } } :: rest)

/-- The courses with the identifiers that their rows get. -/
def Surroundings.courses (env : Surroundings) (requested : List RequestedCourse) :
    List (CoursePlan × CourseRequestId) :=
  requested.zipIdx.map fun (r, i) => (r.plan, env.courseRequestId i)

/-- The identifiers of the rows are distinct. -/
theorem Surroundings.nodup_courses (env : Surroundings) (requested : List RequestedCourse) :
    ((env.courses requested).map Prod.snd).Nodup := by
  have hids : (env.courses requested).map Prod.snd =
      (requested.zipIdx.map Prod.snd).map env.courseRequestId := by
    simp only [Surroundings.courses, List.map_map, Function.comp_def]
  rw [hids, List.zipIdx_map_snd]
  exact (List.nodup_range').map env.distinct

/-- What the transactions of a generation are given. -/
def Surroundings.order (env : Surroundings) (tenantId : Uuid) (dto : GenerateMaterialDto)
    (profile : MaterialProfile) (tenant : GenerationTenant) (requested : List RequestedCourse) :
    GenerateOrder where
  tenantId := tenantId
  profileId := dto.profileId
  weekNumber := dto.weekNumber
  requiresReview := dto.requiresReview
  templateName := orDefault (some profile.name) "Material"
  cycleId := profile.cycleId
  company := tenant.db.catalog.companies.find? fun c => c.id == tenantId
  designTemplateId := dto.designTemplateId.or tenant.defaultDesign
  courses := env.courses requested
  bank := env.bank
  random := env.random
  slotId := env.slotId
  newMaterialId := env.newMaterialId
  newRequestId := env.newRequestId
  distinct := env.nodup_courses requested

/-- `course_request_id` of each entry of the job: that of the first row whose course has the same
text. -/
def linkedDistributions (texts : List String) (courses : List (Distribution × CourseRequestId)) :
    List Distribution :=
  (texts.zip courses).map fun (text, dist, _) =>
    { dist with courseRequestId :=
        ((texts.zip courses).find? fun c => c.1 == text).map fun c => c.2.2 }

/-- What a generation answers, dispatches and commits. -/
structure Execution where
  answer : GenerateResult
  jobs : List GeneratePdfJob
  db : Db

/-- `GenerateMaterialUseCase.execute`. -/
def execute (env : Surroundings) (tenantId : Uuid) (dto : GenerateMaterialDto)
    (tenant : GenerationTenant) : Except GenerationError Execution :=
  match tenant.profiles.find? fun p => p.id == dto.profileId with
  | none => .error (.http (.badRequest "El perfil seleccionado no existe"))
  | some profile =>
    match requestedCourses env.bigint tenant.db.catalog profile dto.weekNumber env.shuffled
        dto.courses with
    | .error e => .error e
    | .ok requested =>
      match (env.order tenantId dto profile tenant requested).execute.run tenant.db with
      | .error e => .error (.http e)
      | .ok ((inputs, result), db, _) => .ok
          { answer := result
            jobs :=
              if dto.requiresReview then []
              else [{ inputs.jobPayload with
                distributions := linkedDistributions (requested.map (·.text)) inputs.courses }]
            db := db }

/-- The course with a text has an active syllabus with distributions in the window. -/
def selects (bigint : String → Option CatalogId) (catalog : Catalog) (profile : MaterialProfile)
    (weekNumber : ℕ) (text : String) : Bool :=
  (bigint text).any fun courseId => !(generationWindow catalog profile weekNumber courseId).isEmpty

/-- The entries are the requested courses with distributions, in the order of the request. -/
theorem texts_requestedCourses {bigint : String → Option CatalogId} {catalog : Catalog}
    {profile : MaterialProfile} {weekNumber : ℕ} {shuffled : ℕ → ℕ → ℕ} {texts : List String}
    {requested : List RequestedCourse}
    (h : requestedCourses bigint catalog profile weekNumber shuffled texts = .ok requested) :
    requested.map (·.text) = texts.filter (selects bigint catalog profile weekNumber) := by
  induction texts generalizing shuffled requested with
  | nil =>
    cases h
    rfl
  | cons text texts ih =>
    unfold requestedCourses at h
    cases hread : bigint text with
    | none =>
      rw [hread] at h
      cases h
    | some courseId =>
      simp only [hread] at h
      cases hwindow : generationWindow catalog profile weekNumber courseId with
      | nil =>
        simp only [hwindow] at h
        have hskips : ¬selects bigint catalog profile weekNumber text = true := by
          simp [selects, hread, hwindow]
        rw [List.filter_cons_of_neg hskips]
        exact ih h
      | cons dist distributions =>
        simp only [hwindow] at h
        have htakes : selects bigint catalog profile weekNumber text = true := by
          simp [selects, hread, hwindow]
        rw [List.filter_cons_of_pos htakes]
        split at h
        · cases h
        · cases hrest : requestedCourses bigint catalog profile weekNumber
              (fun i => shuffled (i + 1)) texts with
          | error e =>
            rw [hrest] at h
            cases h
          | ok rest =>
            rw [hrest] at h
            cases h
            rw [List.map_cons, ih hrest]

/-- The exclusion lists are read in the order of the courses. -/
theorem run_readExclusions (cycleId : Uuid) (courses : List (CoursePlan × CourseRequestId))
    (db : Db) : ∃ planned, (readExclusions cycleId courses).run db = .ok (planned, db, []) ∧
      planned.map Prod.fst = courses := by
  induction courses with
  | nil => exact ⟨[], rfl, rfl⟩
  | cons course courses ih =>
    obtain ⟨planned, hrun, hcourses⟩ := ih
    refine ⟨(course, db.usedQuestionsInCycle cycleId course.1.courseId) :: planned, ?_, ?_⟩
    · simp only [readExclusions, Program.bind_eq, Program.run_select_bind]
      rw [Program.run_bind, hrun]
      rfl
    · rw [List.map_cons, hcourses]

/-- A generation whose transactions run alone has read the exclusion lists of its courses, and
writes. -/
theorem run_order {order : GenerateOrder} {db db' : Db} {inputs : GenerateInputs}
    {result : GenerateResult} {jobs : List Job}
    (h : order.execute.run db = .ok ((inputs, result), db', jobs)) :
    ∃ planned, planned.map Prod.fst = order.courses ∧ inputs = order.inputs planned ∧
      ∃ more, (generateMaterial inputs).run db = .ok (result, db', more) := by
  unfold GenerateOrder.execute at h
  split at h
  · cases h
  · obtain ⟨planned, hread, hcourses⟩ := run_readExclusions order.cycleId order.courses db
    obtain ⟨planned', db₁, _, _, hread', hwrite, -⟩ := Program.of_run_bind h
    rw [hread] at hread'
    cases hread'
    obtain ⟨result', db₂, more, _, hgenerate, hdone, -⟩ := Program.of_run_bind hwrite
    cases hdone
    exact ⟨planned, hcourses, rfl, more, hgenerate⟩

end Odiseo.Materials
