import Odiseo.Materials.Jobs
import Odiseo.Materials.Rows

/-!
# Worker callbacks

`HandleMaterialWebhookUseCase.execute`: the transaction in which a callback of the
worker moves one course to the status it reports, writes the question ledger and
rolls the courses of the request up into the status of the request and its
material. The parent row is locked only for the roll-up; the course is loaded
without a lock.
-/

namespace Odiseo.Materials

open Database

/-- `WebhookStatusRequestDto`, the fields that the use case reads. An absent and an
empty `job_id` or `status` are both `none`. -/
structure WebhookStatusRequest where
  jobId : Option CourseRequestId
  status : Option String
  downloadUrl : Option Url := none
  keyDownloadUrl : Option Url := none
  solutionDownloadUrl : Option Url := none
  errorMessage : Option String := none
  deriving DecidableEq, Repr

/-- `QuestionUsageRecord`: one question placed in the generated PDF. -/
structure QuestionUsageRecord where
  cycleId : Uuid
  questionId : QuestionId
  topicId : CatalogId
  subtopicId : CatalogId
  positionInPdf : ℕ
  wasReplacement : Bool
  deriving DecidableEq, Repr

/-- `PdfArtifactMeta`. -/
structure PdfArtifactMeta where
  pageCount : Option ℕ := none
  fileSizeBytes : Option ℕ := none
  deriving DecidableEq, Repr

/-- One delivery of a callback: its arguments and what the surroundings decide. -/
structure Callback where
  statusData : WebhookStatusRequest
  questionUsages : List QuestionUsageRecord := []
  artifactMeta : PdfArtifactMeta := {}
  /-- `companyId` of the request context. -/
  companyId : Option Uuid := none
  /-- The clock. -/
  now : ℕ := 0
  /-- A ledger statement fails, and the savepoint is rolled back. -/
  ledgerFails : Bool := false
  deriving DecidableEq, Repr

/-- The payload of `material.course.generated`. -/
structure MaterialGeneratedEvent where
  cycleId : Uuid
  courseId : CatalogId
  weekNumber : ℕ
  deriving DecidableEq, Repr

/-- How a callback ends. -/
inductive CallbackOutcome
  /-- No course carries the `job_id`. -/
  | noCourse
  /-- The guard ignored the callback. -/
  | ignored
  /-- The course was updated; the event is emitted after the commit. -/
  | applied (event : Option MaterialGeneratedEvent)
  deriving DecidableEq, Repr

/-- `mapStatus`. -/
def mapStatus (status : String) : Except HttpError CourseMaterialStatus :=
  match status with
  | "completed" => .ok .completed
  | "completed_with_warnings" => .ok .completedWithWarnings
  | "empty_bank" => .ok .emptyBank
  | "failed" => .ok .failed
  | "processing" => .ok .processing
  | other => .error (.badRequest s!"Unknown webhook status: {other}")

/-- `value || undefined` on a URL: the empty text is dropped. -/
def Url.orUndefined : Option Url → Option Url
  | some (.text "") => none
  | url => url

/-- `error_message ? { error: error_message } : null`. -/
def warningsOf : Option String → Option Warnings
  | some "" => none
  | message => message.map Warnings.mk

/-- The guard: a callback is ignored once the course has its PDFs, and when it
repeats the status that the course already has. -/
def ignores (current incoming : CourseMaterialStatus) : Bool :=
  current.successTerminal || current == incoming

/-- The course columns that a callback sets. A column whose new value is
`undefined` keeps the old one. -/
def Callback.change (cb : Callback) (incoming : CourseMaterialStatus)
    (c : MaterialRequestCourse) : MaterialRequestCourse :=
  { c with
    status := incoming
    downloadUrl := (Url.orUndefined cb.statusData.downloadUrl).or c.downloadUrl
    keyDownloadUrl := (Url.orUndefined cb.statusData.keyDownloadUrl).or c.keyDownloadUrl
    solutionDownloadUrl :=
      (Url.orUndefined cb.statusData.solutionDownloadUrl).or c.solutionDownloadUrl
    warnings := warningsOf cb.statusData.errorMessage
    pageCount := cb.artifactMeta.pageCount.or c.pageCount
    fileSizeBytes := cb.artifactMeta.fileSizeBytes.or c.fileSizeBytes
    completedAt := if incoming.successTerminal then some cb.now else c.completedAt }

/-- `UPDATE` of the course that a callback is about. -/
def Callback.writeCourse (cb : Callback) (incoming : CourseMaterialStatus)
    (id : CourseRequestId) : Db → Db :=
  updateCourse id (cb.change incoming)

/-- The ledger rows that a callback inserts for its course. -/
def Callback.usageRows (cb : Callback) (course : MaterialRequestCourse) :
    List MaterialQuestionUsage :=
  cb.questionUsages.map fun usage =>
    { materialRequestId := course.materialRequestId
      courseId := course.courseId
      questionId := usage.questionId
      cycleId := usage.cycleId
      topicId := usage.topicId
      subtopicId := usage.subtopicId
      positionInPdf := usage.positionInPdf
      wasReplacement := usage.wasReplacement }

/-- The callback writes the ledger: a success with usage records, unless the
savepoint is rolled back. -/
def Callback.writesLedger (cb : Callback) (incoming : CourseMaterialStatus) : Bool :=
  !cb.questionUsages.isEmpty && incoming.successTerminal && !cb.ledgerFails

/-- The statements under the savepoint. -/
def writeLedger (cb : Callback) (course : MaterialRequestCourse) : Tx Unit := do
  Program.write
    (fun v => (v.usagesOf course.materialRequestId course.courseId).map fun u => .usage (key u))
    (fun v => deleteUsages (v.usagesOf course.materialRequestId course.courseId))
    (fun _ => ())
  Program.write
    (fun _ => (cb.usageRows course).map fun u => .usage (key u))
    (fun _ => insertUsages (cb.usageRows course))
    (fun _ => ())

/-- The question ledger, atomic with the terminal status. -/
def saveUsages (cb : Callback) (incoming : CourseMaterialStatus)
    (course : MaterialRequestCourse) : Tx Unit :=
  if cb.writesLedger incoming then writeLedger cb course else pure ()

/-- `finalStatus` of a request all of whose courses have finished. -/
def finalStatus (siblings : List MaterialRequestCourse) : MaterialRequestStatus :=
  if siblings.any fun c => c.status == .failed then .failed
  else if siblings.any fun c => c.status.hasWarnings then .reviewRequired
  else .completed

/-- `allFinished`. -/
def allFinished (siblings : List MaterialRequestCourse) : Bool :=
  siblings.all fun c => c.status.finished

/-- `manager.update(MaterialRequest, id, { status })`, which counts the version up. -/
def setRequestStatus (r : RequestId) (status : MaterialRequestStatus) : Db → Db :=
  updateRequest r fun q => { q with status := status, version := q.version + 1 }

/-- `parentAlreadyFinalized`. -/
def parentAlreadyFinalized (previous : Option MaterialRequest) : Bool :=
  match previous with
  | some q => q.status == .completed || q.status == .reviewRequired
  | none => false

/-- The callback that moves the request into a final success state dispatches the
merge, when the request has at least two courses. -/
def mergesParent (previous : Option MaterialRequest) (siblings : List MaterialRequestCourse) :
    Bool :=
  !(siblings.any fun c => c.status == .failed) && decide (2 ≤ siblings.length) &&
    !parentAlreadyFinalized previous

/-- `UPDATE` of the material of a request, when it has one. -/
def updateParentMaterial (request : Option MaterialRequest) (status : MaterialRequestStatus) :
    Tx Unit :=
  match request.bind MaterialRequest.materialId with
  | none => pure ()
  | some m =>
    Program.write (fun _ => [.material m]) (fun _ => setMaterialStatus m status) fun _ => ()

/-- The dispatch of `merge-pdf`. -/
def dispatchMerge (cb : Callback) (r : RequestId) (previous : Option MaterialRequest)
    (siblings : List MaterialRequestCourse) : Tx Unit :=
  if mergesParent previous siblings then do
    let request ← Program.select fun v => v.requests.find r
    match request, cb.companyId with
    | some _, some tenantId => Program.add (.mergePdf r tenantId)
    | _, _ => pure ()
  else pure ()

/-- The roll-up of the parent, under its row lock. -/
def rollUpParent (cb : Callback) (incoming : CourseMaterialStatus)
    (course : MaterialRequestCourse) : Tx CallbackOutcome := do
  let r := course.materialRequestId
  let requestParent ← Program.selectForUpdate (fun _ => [.request r]) fun v => v.requests.find r
  let event := requestParent.bind fun q =>
    if incoming.successTerminal then
      some { cycleId := q.cycleId, courseId := course.courseId, weekNumber := q.weekNumber }
    else none
  let siblings ← Program.select fun v => v.coursesOf r
  if allFinished siblings then do
    Program.write (fun _ => [.request r]) (fun _ => setRequestStatus r (finalStatus siblings))
      fun _ => ()
    let request ← Program.select fun v => v.requests.find r
    updateParentMaterial request (finalStatus siblings)
    dispatchMerge cb r requestParent siblings
    pure (.applied event)
  else pure (.applied event)

/-- What a callback does once it has passed the guard. -/
def applyCallback (cb : Callback) (incoming : CourseMaterialStatus)
    (course : MaterialRequestCourse) : Tx CallbackOutcome := do
  Program.write (fun _ => [.course course.id])
    (fun _ => cb.writeCourse incoming course.id) (fun _ => ())
  saveUsages cb incoming course
  rollUpParent cb incoming course

/-- The transaction of a callback with a valid status. -/
def handleStatus (cb : Callback) (jobId : CourseRequestId) (incoming : CourseMaterialStatus) :
    Tx CallbackOutcome := do
  let courseReq ← Program.select fun v => v.courses.find jobId
  match courseReq with
  | none => pure .noCourse
  | some course =>
    if ignores course.status incoming then pure .ignored else applyCallback cb incoming course

/-- `HandleMaterialWebhookUseCase.execute`. -/
def Callback.execute (cb : Callback) : Tx CallbackOutcome :=
  match cb.statusData.jobId, cb.statusData.status with
  | some jobId, some status =>
    match mapStatus status with
    | .error e => Program.throw e
    | .ok incoming => handleStatus cb jobId incoming
  | _, _ => Program.throw (.badRequest "job_id and status are required")

end Odiseo.Materials
