import Odiseo.Materials.Review

/-!
# Generation

The write transaction of `GenerateMaterialUseCase.execute`: it finds or creates the
material, clears the ledger of the material's earlier requests, and inserts the new
request with its courses and review slots. Everything that the use case reads
before it (template, syllabus, question bank) is an input here, and so are the
identifiers that the database draws for the new rows.
-/

namespace Odiseo.Materials

open Database

/-- `ReviewSlot`: one pre-selected review slot. -/
structure ReviewSlot where
  topicId : CatalogId
  subtopicId : CatalogId
  expectedLevel : String
  questionId : Option QuestionId
  deriving DecidableEq, Repr

/-- What the write transaction knows when it starts. -/
structure GenerateInputs where
  tenantId : Uuid
  profileId : Uuid
  weekNumber : ℕ
  requiresReview : Bool
  templateName : String
  cycleId : Uuid
  company : Option Company
  designTemplateId : Option Uuid
  /-- `realDistributions`, each with the identifier that its course row will get. -/
  courses : List (Distribution × CourseRequestId)
  /-- `reviewPlan`, each slot with the identifier that its row will get. -/
  slots : List (ReviewSlot × SlotId)
  /-- The identifier of the material, when it is created. -/
  newMaterialId : MaterialId
  /-- The identifier of the new request. -/
  newRequestId : RequestId
  deriving DecidableEq, Repr

/-- The answer of a generation. -/
structure GenerateResult where
  materialRequestId : RequestId
  status : MaterialRequestStatus
  /-- The jobs that are dispatched after the commit. -/
  jobsToDispatch : List Job
  deriving DecidableEq, Repr

/-- `initialStatus`. -/
def GenerateInputs.initialStatus (g : GenerateInputs) : MaterialRequestStatus :=
  if g.requiresReview then .reviewRequired else .processing

/-- `materialWhere`: the natural identity of a material. -/
def GenerateInputs.isMaterial (g : GenerateInputs) (m : Material) : Bool :=
  m.tenantId == g.tenantId && m.profileId == g.profileId && m.weekNumber == g.weekNumber

/-- `findOne(Material, { where: materialWhere })`. -/
def findMaterial (g : GenerateInputs) : Tx (Option Material) :=
  Program.select fun v => v.materials.rows.find? g.isMaterial

/-- The row that is inserted for a new material. -/
def GenerateInputs.newMaterial (g : GenerateInputs) : Material :=
  { id := g.newMaterialId
    tenantId := g.tenantId
    profileId := g.profileId
    cycleId := g.cycleId
    weekNumber := g.weekNumber
    status := g.initialStatus
    latestRequestId := none }

/-- `INSERT ... ON CONFLICT DO NOTHING` of the material. -/
def insertMaterial (g : GenerateInputs) : Tx Unit :=
  Program.write
    (fun _ => [.naturalKey g.tenantId g.profileId g.weekNumber, .material g.newMaterialId])
    (fun v db => if v.materials.rows.any g.isMaterial then db
      else { db with materials := db.materials.insert g.newMaterial })
    fun _ => ()

/-- The material of the generation, created when there is none. -/
def findOrCreateMaterial (g : GenerateInputs) : Tx (Option Material) := do
  let material ← findMaterial g
  match material with
  | some material => pure (some material)
  | none => do
    insertMaterial g
    findMaterial g

/-- `DELETE` of the ledger rows of earlier requests. -/
def clearUsages (prevRequestIds : List RequestId) : Tx Unit :=
  if prevRequestIds.isEmpty then pure ()
  else
    Program.write
      (fun v => (v.usages.filter fun u => u.materialRequestId ∈ prevRequestIds).map
        fun u => .usage (key u))
      (fun v => deleteUsages (v.usages.filter fun u => u.materialRequestId ∈ prevRequestIds))
      fun _ => ()

/-- `manager.save(Material, material)`: nothing is written when nothing differs. -/
def saveMaterial (entity : Material) : Tx Unit := do
  let reread ← Program.select fun v => v.materials.find entity.id
  match reread with
  | none => Program.throw .queryFailed
  | some reread =>
    if entity = reread then pure ()
    else
      Program.write (fun _ => [.material entity.id])
        (fun _ => updateMaterial entity.id fun row =>
          { row with
            status := saved entity.status reread.status row.status
            latestRequestId :=
              saved entity.latestRequestId reread.latestRequestId row.latestRequestId })
        fun _ => ()

/-- `INSERT` of a row under a primary key; a key that is taken is refused. -/
def insertRow (row : Row) (taken : Db → Bool) (insert : Db → Db) : Tx Unit := do
  let conflict ← Program.write (fun _ => [row]) (fun v db => if taken v then db else insert db) taken
  if conflict then Program.throw .queryFailed else pure ()

/-- `INSERT` of a request. -/
def insertRequest (q : MaterialRequest) : Tx Unit :=
  insertRow (.request q.id) (fun v => (v.requests.find q.id).isSome)
    fun db => { db with requests := db.requests.insert q }

/-- `INSERT` of a course. -/
def insertCourse (c : MaterialRequestCourse) : Tx Unit :=
  insertRow (.course c.id) (fun v => (v.courses.find c.id).isSome)
    fun db => { db with courses := db.courses.insert c }

/-- `INSERT` of a review slot. -/
def insertSlot (q : MaterialReviewQuestion) : Tx Unit :=
  insertRow (.slot q.id) (fun v => (v.slots.find q.id).isSome)
    fun db => { db with slots := db.slots.insert q }

/-- The row of the new request. -/
def GenerateInputs.newRequest (g : GenerateInputs) (materialId : MaterialId) : MaterialRequest :=
  { id := g.newRequestId
    profileId := g.profileId
    cycleId := g.cycleId
    weekNumber := g.weekNumber
    status := g.initialStatus
    requiresReview := g.requiresReview
    materialType := "BALOTARIO"
    designTemplateId := g.designTemplateId
    materialId := some materialId
    mergedDownloadUrl := none
    mergedKeyDownloadUrl := none
    mergedSolutionDownloadUrl := none
    version := 1 }

/-- The row of a new course. -/
def GenerateInputs.newCourse (g : GenerateInputs) (dist : Distribution × CourseRequestId) :
    MaterialRequestCourse :=
  { id := dist.2
    materialRequestId := g.newRequestId
    courseId := dist.1.courseId
    status := .pending
    downloadUrl := none
    keyDownloadUrl := none
    solutionDownloadUrl := none
    warnings := none
    pageCount := none
    fileSizeBytes := none
    completedAt := none }

/-- `createdCourses`. -/
def GenerateInputs.createdCourses (g : GenerateInputs) : List MaterialRequestCourse :=
  g.courses.map g.newCourse

/-- The rows of the new review slots, numbered from one. -/
def GenerateInputs.reviewQuestions (g : GenerateInputs) : List MaterialReviewQuestion :=
  g.slots.zipIdx.map fun (slot, idx) =>
    { id := slot.2
      materialRequestId := g.newRequestId
      questionId := slot.1.questionId
      topicId := slot.1.topicId
      subtopicId := slot.1.subtopicId
      expectedLevel := some slot.1.expectedLevel
      position := idx + 1
      status := if slot.1.questionId.isSome then .found else .empty }

/-- `dist.course_request_id`: the first created course with the course of `dist`. -/
def GenerateInputs.distributions (g : GenerateInputs) : List Distribution :=
  g.courses.map fun (dist, _) =>
    { dist with courseRequestId :=
        (g.createdCourses.find? fun c => c.courseId == dist.courseId).map (·.id) }

/-- `jobPayload`. -/
def GenerateInputs.jobPayload (g : GenerateInputs) : GeneratePdfJob :=
  { materialRequestId := g.newRequestId
    tenantId := g.tenantId
    cycleId := g.cycleId
    weekNumber := g.weekNumber
    templateName := g.templateName
    designTemplateId := g.designTemplateId
    requiresReview := g.requiresReview
    materialType := "BALOTARIO"
    distributions := g.distributions
    tenant :=
      { tenantId := g.tenantId
        commercialName := orDefault (g.company.map (·.commercialName)) "Colegio Odiseo Innova"
        logoUrl := orDefault (g.company.map (·.logoUrl))
          "https://s3.aws.com/tenant-assets/odiseo-innova.png" } }

/-- What follows once the material is there. -/
def createRequest (g : GenerateInputs) (material : Material) : Tx GenerateResult := do
  let prevRequests ← Program.select fun v => v.requestsOf material.id
  clearUsages (prevRequests.map (·.id))
  let material := { material with status := g.initialStatus }
  saveMaterial material
  insertRequest (g.newRequest material.id)
  saveMaterial { material with latestRequestId := some g.newRequestId }
  forEach g.createdCourses insertCourse
  forEach g.reviewQuestions insertSlot
  if g.requiresReview then
    pure
      { materialRequestId := g.newRequestId
        status := g.initialStatus
        jobsToDispatch := [] }
  else do
    updateCourseStatuses (g.createdCourses.map (·.id)) .processing
    pure
      { materialRequestId := g.newRequestId
        status := g.initialStatus
        jobsToDispatch := [.generatePdf g.jobPayload] }

/-- The write transaction of `GenerateMaterialUseCase.execute`. -/
def generateMaterial (g : GenerateInputs) : Tx GenerateResult := do
  let material ← findOrCreateMaterial g
  match material with
  | none => Program.throw (.badRequest "No se pudo crear el material solicitado")
  | some material => createRequest g material

end Odiseo.Materials
