import Odiseo.Materials.Jobs
import Odiseo.Materials.Rows

/-!
# Review: reading, drafts and approval

`GetMaterialReviewUseCase.execute` and the two entry points of
`ApproveMaterialReviewUseCase`. Drafts and approvals carry the version that the
client last saw and lose when the row has moved on. `manager.save(request)` goes
through the object mapper: it reads the rows again and writes the columns of the
entities in memory, its courses included, that differ from what it read.
-/

namespace Odiseo.Materials

open Database

/-- The one decision of the object mapper that lies outside the repository: the value
that `save` gives to a version column. -/
structure Orm where
  /-- The new version of a row, from the version in memory, the version that was read
  again and the version of the row at the update. `none`: `save` throws. -/
  version : (entity reread row : ℕ) → Option ℕ

/-- The mapper as it is. A version in memory that differs from the one read again is a
changed column and is written like any other; else the version of the row is counted up. -/
def Orm.typeOrm : Orm :=
  ⟨fun entity reread row => some (if entity = reread then row + 1 else entity)⟩

/-- The course columns that `save` writes. -/
def saveCourseColumns (entity reread row : MaterialRequestCourse) : MaterialRequestCourse :=
  { row with
    status := saved entity.status reread.status row.status
    downloadUrl := saved entity.downloadUrl reread.downloadUrl row.downloadUrl
    keyDownloadUrl := saved entity.keyDownloadUrl reread.keyDownloadUrl row.keyDownloadUrl
    solutionDownloadUrl :=
      saved entity.solutionDownloadUrl reread.solutionDownloadUrl row.solutionDownloadUrl
    warnings := saved entity.warnings reread.warnings row.warnings
    pageCount := saved entity.pageCount reread.pageCount row.pageCount
    fileSizeBytes := saved entity.fileSizeBytes reread.fileSizeBytes row.fileSizeBytes
    completedAt := saved entity.completedAt reread.completedAt row.completedAt }

/-- The request columns that `save` writes, apart from the version. -/
def saveRequestColumns (entity reread row : MaterialRequest) : MaterialRequest :=
  { row with
    status := saved entity.status reread.status row.status
    mergedDownloadUrl :=
      saved entity.mergedDownloadUrl reread.mergedDownloadUrl row.mergedDownloadUrl
    mergedKeyDownloadUrl :=
      saved entity.mergedKeyDownloadUrl reread.mergedKeyDownloadUrl row.mergedKeyDownloadUrl
    mergedSolutionDownloadUrl :=
      saved entity.mergedSolutionDownloadUrl reread.mergedSolutionDownloadUrl
        row.mergedSolutionDownloadUrl }

/-- Run a transaction for each element of a list. -/
def forEach {α : Type} (xs : List α) (f : α → Tx Unit) : Tx Unit :=
  match xs with
  | [] => pure ()
  | x :: xs => do
    f x
    forEach xs f

/-- The database after `save` has written one course. -/
def saveCourseIn (db : Db) (course : MaterialRequestCourse × Option MaterialRequestCourse) : Db :=
  match course with
  | (_, none) => db
  | (entity, some reread) =>
    if entity = reread then db
    else updateCourse entity.id (saveCourseColumns entity reread) (by intro; rfl) db

/-- The cascade of `save` to one course, with the row that was read again. -/
def saveCourse (course : MaterialRequestCourse × Option MaterialRequestCourse) : Tx Unit :=
  match course with
  | (_, none) => pure ()
  | (entity, some reread) =>
    if entity = reread then pure ()
    else
      Program.write (fun _ => [.course entity.id])
        (fun _ db => saveCourseIn db (entity, some reread)) fun _ => ()

/-- The database after `save` has written the request with a new version. -/
def saveRequestIn (entity reread : MaterialRequest) (version : ℕ) : Db → Db :=
  updateRequest entity.id fun row =>
    { saveRequestColumns entity reread row with version := version }

/-- The version that `save` gives to the request, when it does not throw. -/
def savedVersion (orm : Orm) (entity reread : MaterialRequest) (db : Db) : Option ℕ :=
  (db.requests.find entity.id).bind fun row =>
    orm.version entity.version reread.version row.version

/-- `UPDATE` of the request by `save`; it answers the new version. -/
def saveRequestRow (orm : Orm) (entity reread : MaterialRequest) : Tx ℕ := do
  let version ← Program.write (fun _ => [.request entity.id])
    (fun v => match savedVersion orm entity reread v with
      | none => fun db => db
      | some n => saveRequestIn entity reread n)
    fun v => savedVersion orm entity reread v
  match version with
  | none => Program.throw .queryFailed
  | some n => pure n

/-- `manager.save(request)` with the courses loaded into it. All rows are read again
before the first one is written. It answers the version of the entity afterwards. -/
def save (orm : Orm) (entity : MaterialRequest) (courses : List MaterialRequestCourse) :
    Tx ℕ := do
  let reread ← Program.select fun v => v.requests.find entity.id
  let rereadCourses ← Program.select fun v => courses.map fun c => (c, v.courses.find c.id)
  match reread with
  | none => Program.throw .queryFailed
  | some reread => do
    let version ← saveRequestRow orm entity reread
    forEach rereadCourses saveCourse
    pure version

/-- `findOne(MaterialRequest, { relations: ['courses'] })`: one joined query. -/
def findRequest (id : RequestId) : Tx (Option (MaterialRequest × List MaterialRequestCourse)) :=
  Program.select fun v => (v.requests.find id).map fun q => (q, v.coursesOf id)

/-- The answer of a review read, as far as the request and its slots go. -/
structure ReviewData where
  materialId : RequestId
  status : MaterialRequestStatus
  version : ℕ
  questions : List MaterialReviewQuestion
  deriving DecidableEq, Repr

/-- Insert a slot behind the slots of lower or equal position. -/
def insertByPosition (q : MaterialReviewQuestion) :
    List MaterialReviewQuestion → List MaterialReviewQuestion
  | [] => [q]
  | p :: ps => if q.position < p.position then q :: p :: ps else p :: insertByPosition q ps

/-- `order: { position: 'ASC' }`. -/
def orderByPosition (slots : List MaterialReviewQuestion) : List MaterialReviewQuestion :=
  slots.foldl (fun sorted q => insertByPosition q sorted) []

/-- The end of a review read. -/
def readQuestions (request : MaterialRequest) : Tx ReviewData := do
  let questions ← Program.select fun v => orderByPosition (v.slotsOf request.id)
  pure
    { materialId := request.id
      status := request.status
      version := request.version
      questions := questions }

/-- `GetMaterialReviewUseCase.execute`. -/
def getMaterialReview (orm : Orm) (id : RequestId) : Tx ReviewData := do
  let found ← findRequest id
  match found with
  | none => Program.throw (.notFound "La solicitud de material no existe")
  | some (request, courses) =>
    if request.status = .reviewRequired then do
      let version ← save orm { request with status := .inReview } courses
      readQuestions { request with status := .inReview, version := version }
    else readQuestions request

/-- `ReplacementItemDto`. -/
structure ReplacementItem where
  reviewQuestionId : SlotId
  questionId : QuestionId
  deriving DecidableEq, Repr

/-- `ApproveReviewDto`. -/
structure ApproveReview where
  version : ℕ
  continueWithWarnings : Bool
  replacements : List ReplacementItem
  removals : List SlotId
  deriving DecidableEq, Repr

/-- `MaterialReviewContext`. -/
structure MaterialReviewContext where
  tenantId : Uuid
  userId : Uuid
  deriving DecidableEq, Repr

/-- The slot `id` belongs to request `r`. -/
def ownsSlot (r : RequestId) (id : SlotId) (db : Db) : Bool :=
  (db.slots.find id).any fun q => q.materialRequestId == r

/-- The columns that a replacement sets. -/
def replaceQuestion (r : RequestId) (item : ReplacementItem) (q : MaterialReviewQuestion) :
    MaterialReviewQuestion :=
  if q.materialRequestId = r then { q with questionId := some item.questionId, status := .replaced }
  else q

/-- The columns that a removal sets. -/
def removeQuestion (r : RequestId) (q : MaterialReviewQuestion) : MaterialReviewQuestion :=
  if q.materialRequestId = r then { q with status := .removed } else q

/-- A replacement keeps the slot it replaces in. -/
theorem key_replaceQuestion (r : RequestId) (item : ReplacementItem) (q : MaterialReviewQuestion) :
    key (replaceQuestion r item q) = key q := by
  unfold replaceQuestion
  split <;> rfl

/-- A removal keeps the slot. -/
theorem key_removeQuestion (r : RequestId) (q : MaterialReviewQuestion) :
    key (removeQuestion r q) = key q := by
  unfold removeQuestion
  split <;> rfl

/-- The database after a replacement. -/
def replaceIn (r : RequestId) (db : Db) (item : ReplacementItem) : Db :=
  updateSlot item.reviewQuestionId (replaceQuestion r item) (key_replaceQuestion r item) db

/-- The database after a removal. -/
def removeIn (r : RequestId) (db : Db) (id : SlotId) : Db :=
  updateSlot id (removeQuestion r) (key_removeQuestion r) db

/-- `UPDATE` of a slot of the request: its question is replaced. -/
def replaceSlot (r : RequestId) (item : ReplacementItem) : Tx Unit :=
  Program.write
    (fun v => if ownsSlot r item.reviewQuestionId v then [.slot item.reviewQuestionId] else [])
    (fun _ db => replaceIn r db item) fun _ => ()

/-- `UPDATE` of a slot of the request: its question is removed. -/
def removeSlot (r : RequestId) (id : SlotId) : Tx Unit :=
  Program.write (fun v => if ownsSlot r id v then [.slot id] else [])
    (fun _ db => removeIn r db id) fun _ => ()

/-- The row carries the version that the client sent. -/
def versionMatches (id : RequestId) (version : ℕ) (db : Db) : Bool :=
  (db.requests.find id).any fun q => q.version == version

/-- The database after the version of a request has been counted up. -/
def bumpIn (id : RequestId) : Db → Db :=
  updateRequest id fun q => { q with version := q.version + 1 }

/-- The optimistic guard: the version is bumped when it is still the client's. -/
def bumpVersion (id : RequestId) (version : ℕ) : Tx Unit := do
  let affected ← Program.write
    (fun v => if versionMatches id version v then [.request id] else [])
    (fun v => if versionMatches id version v then bumpIn id else fun db => db)
    fun v => versionMatches id version v
  if affected then pure ()
  else Program.throw (.conflict
    "El material ya está siendo revisado por otro administrador o su estado ha cambiado")

/-- The slot updates of a draft or an approval: replacements first, then removals. -/
def applyEdits (id : RequestId) (dto : ApproveReview) : Tx Unit := do
  forEach dto.replacements (replaceSlot id)
  forEach dto.removals (removeSlot id)

/-- The database after the slot updates of a draft or an approval. -/
def editSlots (id : RequestId) (dto : ApproveReview) (db : Db) : Db :=
  dto.removals.foldl (removeIn id) (dto.replacements.foldl (replaceIn id) db)

/-- The answer of a draft or an approval. -/
structure ApprovalResult where
  /-- `status`; `none` is the `OK` of a draft. -/
  status : Option MaterialRequestStatus
  message : String
  /-- The jobs that are dispatched after the commit. -/
  jobsToDispatch : List Job
  deriving DecidableEq, Repr

/-- `ApproveMaterialReviewUseCase.saveDraft`. -/
def saveDraft (id : RequestId) (dto : ApproveReview) : Tx ApprovalResult := do
  let request ← Program.select fun v => v.requests.find id
  match request with
  | none => Program.throw (.notFound "La solicitud de material no existe")
  | some _ => do
    bumpVersion id dto.version
    applyEdits id dto
    pure { status := none, message := "Borrador guardado exitosamente", jobsToDispatch := [] }

/-- `alreadyGenerated`: every course has its three PDFs. -/
def alreadyGenerated (courses : List MaterialRequestCourse) : Bool :=
  courses.all fun c =>
    c.downloadUrl.isSome && c.keyDownloadUrl.isSome && c.solutionDownloadUrl.isSome

/-- `noChanges`: the client sends no edit. -/
def ApproveReview.noChanges (dto : ApproveReview) : Bool :=
  dto.replacements.isEmpty && dto.removals.isEmpty

/-- `hasEmpty`: a slot of the request has no question. -/
def hasEmpty (slots : List MaterialReviewQuestion) : Bool :=
  slots.any fun q => q.status == .empty

/-- `UPDATE` of the material of the request, when it has one. -/
def updateMaterialStatus (request : MaterialRequest) (status : MaterialRequestStatus) : Tx Unit :=
  match request.materialId with
  | none => pure ()
  | some m =>
    Program.write (fun _ => [.material m]) (fun _ => setMaterialStatus m status) fun _ => ()

/-- The status of several courses becomes `status`. -/
def setCourseStatuses (ids : List CourseRequestId) (status : CourseMaterialStatus) (db : Db) : Db :=
  ids.foldl
    (fun db id => updateCourse id (fun c => { c with status := status }) (by intro; rfl) db) db

/-- `UPDATE ... WHERE id IN (...)`, when there is any course. -/
def updateCourseStatuses (ids : List CourseRequestId) (status : CourseMaterialStatus) : Tx Unit :=
  if ids.isEmpty then pure ()
  else Program.write (fun _ => ids.map .course) (fun _ => setCourseStatuses ids status) fun _ => ()

/-- The approval of a review whose PDFs exist and which the client did not change. -/
def approveWithoutChanges (orm : Orm) (request : MaterialRequest)
    (courses : List MaterialRequestCourse) (hasEmpty : Bool) : Tx ApprovalResult := do
  let finalStatus : MaterialRequestStatus := if hasEmpty then .completedWithWarnings else .completed
  let _ ← save orm { request with status := finalStatus } courses
  updateMaterialStatus request finalStatus
  updateCourseStatuses ((courses.filter fun c => c.warnings.isSome).map (·.id))
    .completedWithWarnings
  updateCourseStatuses ((courses.filter fun c => c.warnings.isNone).map (·.id)) .completed
  pure
    { status := some finalStatus
      message := "Revisión aprobada sin cambios. El documento existente se mantiene."
      jobsToDispatch := [] }

/-- The week from which an accumulative template collects. -/
def startWeek (accumulationWeeks : Option ℕ) (weekNumber : ℕ) : ℕ :=
  match accumulationWeeks with
  | none | some 0 => 1
  | some n => max 1 (weekNumber + 1 - n)

/-- The distributions that an approval sends along with a course. -/
def distributionsOf (catalog : Catalog) (template : CycleMaterialTemplate) (syllabus : Syllabus)
    (weekNumber : ℕ) : List SyllabusDistribution :=
  match template.scope with
  | some .currentWeek => catalog.distributions.filter fun d =>
      d.syllabusId == syllabus.id && d.weekNumber == weekNumber
  | some .accumulative => catalog.distributions.filter fun d =>
      d.syllabusId == syllabus.id &&
        startWeek template.accumulationWeeks weekNumber ≤ d.weekNumber &&
        d.weekNumber ≤ weekNumber
  | none => []

/-- `value || fallback` on a text. -/
def orDefault (value : Option String) (fallback : String) : String :=
  match value with
  | none | some "" => fallback
  | some text => text

/-- The job of one course of an approved request. -/
def generateJob (ctx : MaterialReviewContext) (request : MaterialRequest)
    (company : Option Company) (template : Option CycleMaterialTemplate)
    (course : MaterialRequestCourse) (distributions : List SyllabusDistribution) : Job :=
  .generate
    { jobId := course.id
      materialRequestId := request.id
      tenantId := ctx.tenantId
      cycleId := request.cycleId
      weekNumber := request.weekNumber
      templateName := orDefault (template.map (·.name)) "Material"
      designTemplateId := request.designTemplateId
      tenant :=
        { tenantId := ctx.tenantId
          commercialName := orDefault (company.map (·.commercialName)) "Colegio Odiseo Innova"
          logoUrl := orDefault (company.map (·.logoUrl))
            "https://s3.aws.com/tenant-assets/odiseo-innova.png" }
      materialType := orDefault (some request.materialType) "BALOTARIO"
      courseId := course.courseId
      difficultyLevel := "MEDIA"
      syllabusDistribution := distributions.map fun d =>
        { topicId := d.topicId, subtopicId := d.subtopicId, quantity := d.questionCount }
      adminUserId := ctx.userId }

/-- The jobs of the courses, one after the other. -/
def collectJobs (ctx : MaterialReviewContext) (request : MaterialRequest)
    (company : Option Company) (template : Option CycleMaterialTemplate) :
    List MaterialRequestCourse → Tx (List Job)
  | [] => pure []
  | course :: courses => do
    let syllabus ← Program.select fun v => v.catalog.syllabuses.find? fun s =>
      s.courseId == course.courseId && s.cycleId == request.cycleId && s.isActive
    let distributions ← match template, syllabus with
      | some template, some syllabus =>
        Program.select fun v => distributionsOf v.catalog template syllabus request.weekNumber
      | _, _ => pure []
    let jobs ← collectJobs ctx request company template courses
    pure (generateJob ctx request company template course distributions :: jobs)

/-- The approval of a review that has to be generated again. -/
def regenerate (orm : Orm) (ctx : MaterialReviewContext) (request : MaterialRequest)
    (courses : List MaterialRequestCourse) : Tx ApprovalResult := do
  let _ ← save orm { request with status := .processing } courses
  updateMaterialStatus request .processing
  let company ← Program.select fun v => v.catalog.companies.find? fun c => c.id == ctx.tenantId
  let template ← Program.select fun v =>
    v.catalog.templates.find? fun t => t.id == request.profileId
  updateCourseStatuses (courses.map (·.id)) .processing
  let jobs ← collectJobs ctx request company template courses
  pure
    { status := some .processing
      message := "Generación de PDFs iniciada"
      jobsToDispatch := jobs }

/-- What an approval decides once the edits are in. `request` is the entity in memory,
whose version is the one just written. -/
def decideApproval (orm : Orm) (dto : ApproveReview) (ctx : MaterialReviewContext)
    (request : MaterialRequest) (courses : List MaterialRequestCourse) : Tx ApprovalResult := do
  let updatedQuestions ← Program.select fun v => v.slotsOf request.id
  if hasEmpty updatedQuestions && !dto.continueWithWarnings then
    Program.throw (.badRequest "Existen slots vacíos no resueltos")
  else if alreadyGenerated courses && dto.noChanges then
    approveWithoutChanges orm request courses (hasEmpty updatedQuestions)
  else regenerate orm ctx request courses

/-- `ApproveMaterialReviewUseCase.execute`. -/
def approve (orm : Orm) (id : RequestId) (dto : ApproveReview) (ctx : MaterialReviewContext) :
    Tx ApprovalResult := do
  let found ← findRequest id
  match found with
  | none => Program.throw (.notFound "La solicitud de material no existe")
  | some (request, courses) => do
    bumpVersion id dto.version
    applyEdits id dto
    decideApproval orm dto ctx { request with version := dto.version + 1 } courses

end Odiseo.Materials
