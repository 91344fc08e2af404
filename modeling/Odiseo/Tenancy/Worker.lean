import Odiseo.Materials.Merge
import Odiseo.Tenancy.Service

/-!
# The database accesses of the worker

`PdfGenerationProcessor.process` as the calls that it makes: the three job types, the
listener that a finished course starts, and every `catch` block on the way. What the
question bank answers is an input, as are the page counts and the clock.
-/

namespace Odiseo.Tenancy

open Database Materials

/-- The default entity manager takes a connection of the pool in every context. -/
def entityManager (_cls : Store) : Connection := Connection.pooled

/-- `loadDesignTemplate`: an absent row and an error both answer `null`. -/
def loadDesignTemplate (tenantId : Uuid) (designTemplateId : Option Uuid) :
    Worker (Option DesignTemplateConfig) :=
  match designTemplateId with
  | none => pure none
  | some id =>
    let cls : Store := { tenantSchema := some (.tenant tenantId) }
    Procedure.tryCatch
      (do
        let design ← Procedure.perform (.findDesignTemplate (entityManager cls) id)
        pure (design.map PdfDesignTemplate.toDesignTemplateConfig))
      fun _ => pure none

/-- The cycle of the job, read under an explicit schema. -/
def findCycle (cls : Store) (job : CourseJob) : Worker Unit :=
  runInSchema cls (.tenant job.tenantId) fun _ manager => do
    let _ ← Procedure.perform (.findCycle manager job.cycleId)
    pure ()

/-- `fetchQuestions` reads the cycle when the bank answers a question that is not excluded. -/
def findCycleOfTopic (cls : Store) (job : CourseJob) (dbQuestions : List RandomQuestion) :
    Worker Unit :=
  if (dbQuestions.filter fun q => !job.dist.excludeQuestionIds.contains q.id).isEmpty then pure ()
  else findCycle cls job

/-- The reads of the cycle: one for curated questions, else one for each topic. -/
def findCycles (cls : Store) (job : CourseJob) (run : CourseRun)
    (slots : List MaterialReviewQuestion) : Worker Unit :=
  if slots.isEmpty then
    Procedure.forEach (fun i => findCycleOfTopic cls job (run.random.getD i []))
      (List.range job.dist.topics.length)
  else findCycle cls job

/-- The end of `loadCourseQuestions`, which the question bank or the signing of an image may
fail. -/
def loadedQuestions (job : CourseJob) (run : CourseRun) (slots : List MaterialReviewQuestion) :
    Worker LoadedQuestions :=
  match run.error with
  | some message => Procedure.throw message
  | none => pure (run.loadCourseQuestions job.dist slots)

/-- `loadCourseQuestions`. -/
def loadCourseQuestions (cls : Store) (job : CourseJob) (run : CourseRun) :
    Worker LoadedQuestions := do
  let slots ← runInSchema cls (.tenant job.tenantId) fun _ manager =>
    statements manager
      (Program.select fun v => v.courseSlots job.materialRequestId job.dist.courseId)
  findCycles cls job run slots
  loadedQuestions job run slots

/-- `markWeekGenerated`. -/
def markWeekGenerated (cls : Store) (event : MaterialGeneratedEvent) : Worker Unit :=
  runInTenant cls fun _ manager => do
    let syllabus ← Procedure.perform (.findSyllabus manager event.cycleId event.courseId)
    match syllabus with
    | none => pure ()
    | some id => do
      let _ ← Procedure.perform (.updateDistribution manager id event.weekNumber)
      pure ()

/-- `handleMaterialGeneratedEvent`, with the attempts that are left. Nobody waits for it, and
its errors go nowhere. -/
def handleMaterialGeneratedEvent (cls : Store) (event : MaterialGeneratedEvent) : ℕ → Worker Unit
  | 0 => pure ()
  | attempts + 1 =>
    Procedure.tryCatch (markWeekGenerated cls event)
      fun _ => handleMaterialGeneratedEvent cls event attempts

/-- `MAX_ATTEMPTS` of the listener. -/
def maxAttempts : ℕ := 3

/-- `HandleMaterialWebhookUseCase.execute`, with the event that it emits after the commit. -/
def handleWebhook (cls : Store) (callback : Callback) : Worker Unit := do
  let outcome ← runInTenant cls fun cls' manager =>
    statements manager { callback with companyId := cls'.companyId }.execute
  match outcome with
  | .applied (some event) => handleMaterialGeneratedEvent cls event maxAttempts
  | _ => pure ()

/-- The report of a course that has a row. -/
def reportCourse (cls : Store) (job : CourseJob) (callback : Callback) : Worker Unit :=
  match job.dist.courseRequestId with
  | none => pure ()
  | some _ => handleWebhook cls callback

/-- One PDF of a course. -/
def renderVariant (tenant : TenantInfo) (design : Option DesignTemplateConfig) (job : CourseJob)
    (loaded : LoadedQuestions) (variant : Variant) : Worker Unit := do
  Procedure.perform (.generatePdf tenant job loaded.allQuestions design variant)
  Procedure.perform (.uploadBuffer (job.artifactKey variant))

/-- The PDFs of a course; a course without questions gets none. -/
def renderVariants (tenant : TenantInfo) (design : Option DesignTemplateConfig) (job : CourseJob)
    (loaded : LoadedQuestions) : Worker Unit :=
  if loaded.allQuestions.isEmpty then pure ()
  else Procedure.forEach (renderVariant tenant design job loaded) job.variants

/-- The `try` block around one course. -/
def tryCourse (cls : Store) (tenant : TenantInfo) (design : Option DesignTemplateConfig)
    (job : CourseJob) (run : CourseRun) : Worker Unit := do
  let loaded ← loadCourseQuestions cls job run
  renderVariants tenant design job loaded
  reportCourse cls job (job.reportLoaded run loaded)

/-- The `catch` block around one course, which throws the exception again. -/
def failCourse (cls : Store) (job : CourseJob) (run : CourseRun) (message : String) :
    Worker Unit := do
  reportCourse cls job (job.reportError run "failed" message)
  Procedure.throw message

/-- One course of a job. -/
def generateCourse (cls : Store) (tenant : TenantInfo) (design : Option DesignTemplateConfig)
    (job : CourseJob) (run : CourseRun) : Worker Unit :=
  Procedure.tryCatch (tryCourse cls tenant design job run) (failCourse cls job run)

/-- The context of the two generation handlers. -/
def generationContext (tenantId : Uuid) : Store :=
  { tenantSchema := some (.tenant tenantId), companyId := some tenantId }

/-- `handleGeneratePdf`: the courses of the job, one after the other. -/
def handleGeneratePdf (data : GeneratePdfJob) (runs : ℕ → CourseRun) : Worker Unit := do
  let design ← loadDesignTemplate data.tenantId data.designTemplateId
  Procedure.forEach
    (fun (job, i) => generateCourse (generationContext data.tenantId) data.tenant design job (runs i))
    (Job.courseJobs (.generatePdf data)).zipIdx

/-- `handleGenerateSingleCourse`. -/
def handleGenerateSingleCourse (data : GenerateJob) (runs : ℕ → CourseRun) : Worker Unit := do
  let design ← loadDesignTemplate data.tenantId data.designTemplateId
  Procedure.forEach
    (fun (job, i) => generateCourse (generationContext data.tenantId) data.tenant design job (runs i))
    (Job.courseJobs (.generate data)).zipIdx

/-- The loop of `mergeAndUpload`: a PDF that cannot be read is skipped. -/
def addPages : List Url → Worker Bool
  | [] => pure false
  | url :: urls => do
    let added ← Procedure.tryCatch
      (do
        Procedure.perform (.getObject url)
        pure true)
      fun _ => pure false
    let pagesAdded ← addPages urls
    pure (added || pagesAdded)

/-- The upload of a combined PDF that has pages. -/
def uploadMerged (url : Url) (pagesAdded : Bool) : Worker (Option Url) :=
  if pagesAdded then do
    Procedure.perform (.uploadMerged url)
    pure (some url)
  else pure none

/-- `mergeAndUpload`. -/
def mergeAndUpload (courses : List MaterialRequestCourse) (variant : Variant) (url : Url) :
    Worker (Option Url) := do
  let pagesAdded ← addPages (mergeSources courses variant)
  uploadMerged url pagesAdded

/-- The context of a merge. -/
def mergeContext (tenantId : Uuid) : Store := { tenantSchema := some (.tenant tenantId) }

/-- The part of `handleMergePdf` after the courses have been counted. -/
def mergeCourses (r : RequestId) (tenantId : Uuid) (courses : List MaterialRequestCourse) :
    Worker Unit := do
  let url ← mergeAndUpload courses .student (mergedUrl tenantId r .student)
  match url with
  | none => Procedure.throw "No course PDFs could be merged"
  | some url => do
    let keyUrl ← mergeAndUpload courses .keys (mergedUrl tenantId r .keys)
    let solutionUrl ← mergeAndUpload courses .solutions (mergedUrl tenantId r .solutions)
    runInTenant (mergeContext tenantId) fun _ manager =>
      statements manager (updateMergedDownloadUrl r url keyUrl solutionUrl)

/-- `handleMergePdf`. -/
def handleMergePdf (r : RequestId) (tenantId : Uuid) : Worker Unit := do
  let courseRequests ← runInTenant (mergeContext tenantId) fun _ manager =>
    statements manager (getCoursesForMerge r)
  if (completedCourses courseRequests).length < 2 then pure ()
  else mergeCourses r tenantId (completedCourses courseRequests)

/-- `process`. -/
def process (job : Job) (runs : ℕ → CourseRun) : Worker Unit :=
  match job with
  | .generatePdf data => handleGeneratePdf data runs
  | .generate data => handleGenerateSingleCourse data runs
  | .mergePdf r tenantId => handleMergePdf r tenantId

end Odiseo.Tenancy
