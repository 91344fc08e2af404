import Odiseo.Materials.Review
import Odiseo.Materials.Webhook

/-!
# The worker

`PdfGenerationProcessor`: both job handlers load the questions of one course after the
other, render and upload its PDFs and report the result by a callback. The questions are
the review slots of the course when it has any, else random questions of the bank. What
the question bank and the renderer answer is an input.
-/

namespace Odiseo.Materials

open Database

/-- `ExtractedQuestion`: a question as it is printed. -/
structure ExtractedQuestion where
  id : QuestionId
  topicId : CatalogId
  subtopicId : CatalogId
  deriving DecidableEq, Repr

/-- A question that `getRandomQuestions` answers. -/
structure RandomQuestion where
  id : QuestionId
  topicId : Option CatalogId
  subtopicId : Option CatalogId
  deriving DecidableEq, Repr

/-- One course of a job, with what the handler takes from the payload for it. -/
structure CourseJob where
  materialRequestId : RequestId
  tenantId : Uuid
  cycleId : Uuid
  weekNumber : ℕ
  templateName : String
  dist : Distribution
  /-- The PDFs that the handler renders. -/
  variants : List Variant
  deriving DecidableEq, Repr

/-- What happens around one course while its job runs. -/
structure CourseRun where
  /-- The questions that `flat_questions` has. -/
  bank : List QuestionId
  /-- What `getRandomQuestions` answers for each topic. -/
  random : List (List RandomQuestion)
  /-- The exception of a step before the callback. -/
  error : Option String
  /-- The page count of the student PDF, when it can be read. -/
  pageCount : Option ℕ
  /-- The size of the student PDF. -/
  fileSizeBytes : ℕ
  /-- The clock at the callback. -/
  now : ℕ
  /-- A ledger statement of the callback fails. -/
  ledgerFails : Bool
  deriving DecidableEq, Repr

/-- What `loadCourseQuestions` answers. -/
structure LoadedQuestions where
  allQuestions : List ExtractedQuestion
  missingDesglose : List String
  replacedQuestionIds : List QuestionId
  deriving DecidableEq, Repr

/-- The courses of a job. -/
def Job.courseJobs : Job → List CourseJob
  | .generatePdf data => data.distributions.map fun dist =>
      { materialRequestId := data.materialRequestId
        tenantId := data.tenantId
        cycleId := data.cycleId
        weekNumber := data.weekNumber
        templateName := data.templateName
        dist := dist
        variants := [.student, .keys, .solutions] }
  | .generate data =>
      [{ materialRequestId := data.materialRequestId
         tenantId := data.tenantId
         cycleId := data.cycleId
         weekNumber := data.weekNumber
         templateName := data.templateName
         dist :=
           { courseId := data.courseId
             topics := data.syllabusDistribution
             excludeQuestionIds := []
             courseRequestId := some data.jobId }
         variants := [.student] }]
  | .mergePdf _ _ => []

/-- The review slots of one catalog course of a request: those whose topic belongs to the
course, by position. -/
def Db.courseSlots (db : Db) (r : RequestId) (courseId : CatalogId) :
    List MaterialReviewQuestion :=
  orderByPosition ((db.slotsOf r).filter fun q =>
    db.catalog.topics.any fun t => t.id == q.topicId && t.courseId == courseId)

/-- One review slot: the question to print, or what is missing. -/
def loadSlot (bank : List QuestionId) (slot : MaterialReviewQuestion) :
    Except String ExtractedQuestion :=
  match slot.status, slot.questionId with
  | .empty, _ => .error s!"Falta pregunta de subtema {slot.subtopicId}"
  | .removed, _ => .error s!"Pregunta descartada en subtema {slot.subtopicId}"
  | _, some questionId =>
    if bank.contains questionId then .ok ⟨questionId, slot.topicId, slot.subtopicId⟩
    else .error s!"Falta reactivo con ID {questionId} en posición {slot.position}"
  | _, none => .error s!"Falta pregunta de subtema {slot.subtopicId}"

/-- The value of a loaded slot. -/
def loadedQuestion (bank : List QuestionId) (slot : MaterialReviewQuestion) :
    Option ExtractedQuestion :=
  match loadSlot bank slot with
  | .ok q => some q
  | .error _ => none

/-- The message of a slot that cannot be printed. -/
def missingSlot (bank : List QuestionId) (slot : MaterialReviewQuestion) : Option String :=
  match loadSlot bank slot with
  | .ok _ => none
  | .error message => some message

/-- The curated branch of `loadCourseQuestions`. -/
def loadSlots (bank : List QuestionId) (slots : List MaterialReviewQuestion) : LoadedQuestions where
  allQuestions := slots.filterMap (loadedQuestion bank)
  missingDesglose := slots.filterMap (missingSlot bank)
  replacedQuestionIds :=
    (slots.filter fun q => q.status == .replaced).filterMap fun q =>
      (loadedQuestion bank q).map (·.id)

/-- `fetchQuestions`: excluded questions and questions without a flat row are dropped. -/
def fetchQuestions (bank : List QuestionId) (topic : TopicQuantity) (excludeIds : List QuestionId)
    (dbQuestions : List RandomQuestion) : List ExtractedQuestion :=
  ((dbQuestions.filter fun q => !excludeIds.contains q.id).filter fun q => bank.contains q.id).map
    fun q => ⟨q.id, q.topicId.getD topic.topicId, q.subtopicId.getD topic.subtopicId⟩

/-- The fallback of `loadCourseQuestions`: the topics of the job, one after the other. -/
def loadTopics (run : CourseRun) (dist : Distribution) : LoadedQuestions :=
  let fetched := dist.topics.zipIdx.map fun (topic, i) =>
    (topic, fetchQuestions run.bank topic dist.excludeQuestionIds (run.random.getD i []))
  { allQuestions := fetched.flatMap Prod.snd
    missingDesglose := fetched.filterMap fun (topic, qs) =>
      if qs.length < topic.quantity then
        some s!"Faltan {topic.quantity - qs.length} de subtema {topic.subtopicId}"
      else none
    replacedQuestionIds := [] }

/-- `loadCourseQuestions`, once the review slots have been read. -/
def CourseRun.loadCourseQuestions (run : CourseRun) (dist : Distribution)
    (slots : List MaterialReviewQuestion) : LoadedQuestions :=
  if slots.isEmpty then loadTopics run dist else loadSlots run.bank slots

/-- `buildUsageRecords`: the ledger rows of a course in PDF order. -/
def LoadedQuestions.buildUsageRecords (loaded : LoadedQuestions) (cycleId : Uuid) :
    List QuestionUsageRecord :=
  loaded.allQuestions.zipIdx.map fun (q, idx) =>
    { cycleId := cycleId
      questionId := q.id
      topicId := q.topicId
      subtopicId := q.subtopicId
      positionInPdf := idx + 1
      wasReplacement := loaded.replacedQuestionIds.contains q.id }

/-- The object key of a PDF of the course. -/
def CourseJob.artifactKey (job : CourseJob) (variant : Variant) : ArtifactKey :=
  { tenantId := job.tenantId
    cycleId := job.cycleId
    materialRequestId := job.materialRequestId
    templateName := job.templateName
    weekNumber := job.weekNumber
    courseId := job.dist.courseId
    variant := variant }

/-- The address of a PDF, when the handler renders it. -/
def CourseJob.url (job : CourseJob) (variant : Variant) : Option Url :=
  if variant ∈ job.variants then some (.object (job.artifactKey variant)) else none

/-- The callback of a course that could not be printed. -/
def CourseJob.reportError (job : CourseJob) (run : CourseRun) (status message : String) :
    Callback :=
  { statusData :=
      { jobId := job.dist.courseRequestId
        status := some status
        errorMessage := some message }
    companyId := some job.tenantId
    now := run.now
    ledgerFails := run.ledgerFails }

/-- The status of a course that has been printed. -/
def LoadedQuestions.status (loaded : LoadedQuestions) : String :=
  if loaded.missingDesglose.isEmpty then "completed" else "completed_with_warnings"

/-- The callback of a course that has been printed. -/
def CourseJob.reportPdf (job : CourseJob) (run : CourseRun) (loaded : LoadedQuestions) :
    Callback :=
  { statusData :=
      { jobId := job.dist.courseRequestId
        status := some loaded.status
        downloadUrl := job.url .student
        keyDownloadUrl := job.url .keys
        solutionDownloadUrl := job.url .solutions
        errorMessage :=
          if loaded.missingDesglose.isEmpty then none
          else some (", ".intercalate loaded.missingDesglose) }
    questionUsages := loaded.buildUsageRecords job.cycleId
    artifactMeta := { pageCount := run.pageCount, fileSizeBytes := some run.fileSizeBytes }
    companyId := some job.tenantId
    now := run.now
    ledgerFails := run.ledgerFails }

/-- The callback of a course whose questions have been loaded. -/
def CourseJob.reportLoaded (job : CourseJob) (run : CourseRun) (loaded : LoadedQuestions) :
    Callback :=
  if loaded.allQuestions.isEmpty then
    job.reportError run "empty_bank" "Banco vacío. No se encontraron reactivos para este curso."
  else job.reportPdf run loaded

/-- The callback of a course whose review slots have been read. -/
def CourseJob.report (job : CourseJob) (run : CourseRun) (slots : List MaterialReviewQuestion) :
    Callback :=
  match run.error with
  | some message => job.reportError run "failed" message
  | none => job.reportLoaded run (run.loadCourseQuestions job.dist slots)

/-- The worker prints one course of a job: it reads the review slots and, when the course
has a row, reports the result. The read is a transaction of its own, which takes no lock. -/
def printCourse (job : CourseJob) (run : CourseRun) : Tx (Option CallbackOutcome) := do
  let slots ← Program.select fun v => v.courseSlots job.materialRequestId job.dist.courseId
  match job.dist.courseRequestId with
  | none => pure none
  | some _ => (job.report run slots).execute.bind fun outcome => .done (some outcome)

/-- The position of a slot does not matter for being among the slots of a course. -/
theorem mem_orderByPosition {slots : List MaterialReviewQuestion} {q : MaterialReviewQuestion} :
    q ∈ orderByPosition slots ↔ q ∈ slots := by
  have hinsert : ∀ (p : MaterialReviewQuestion) (ps : List MaterialReviewQuestion),
      q ∈ insertByPosition p ps ↔ q = p ∨ q ∈ ps := by
    intro p ps
    induction ps with
    | nil => simp [insertByPosition]
    | cons x xs ih =>
      unfold insertByPosition
      split
      · simp
      · simp only [List.mem_cons, ih]
        tauto
  have hfold : ∀ (ps sorted : List MaterialReviewQuestion),
      q ∈ ps.foldl (fun sorted q => insertByPosition q sorted) sorted ↔ q ∈ ps ∨ q ∈ sorted := by
    intro ps
    induction ps with
    | nil => simp
    | cons x xs ih =>
      intro sorted
      rw [List.foldl_cons, ih, hinsert, List.mem_cons]
      tauto
  simpa [orderByPosition] using hfold slots []

/-- The slots of a course while the slots and the catalog stay. -/
theorem Db.courseSlots_congr {db db' : Db} (hslots : db'.slots = db.slots)
    (hcatalog : db'.catalog = db.catalog) (r : RequestId) (courseId : CatalogId) :
    db'.courseSlots r courseId = db.courseSlots r courseId := by
  unfold Db.courseSlots Db.slotsOf
  rw [hslots, hcatalog]

/-- A slot of a course is a slot of the request whose topic belongs to the course. -/
theorem mem_courseSlots {db : Db} {r : RequestId} {courseId : CatalogId}
    {q : MaterialReviewQuestion} : q ∈ db.courseSlots r courseId ↔
      q ∈ db.slotsOf r ∧ ∃ t ∈ db.catalog.topics, t.id = q.topicId ∧ t.courseId = courseId := by
  rw [Db.courseSlots, mem_orderByPosition, List.mem_filter]
  simp

/-- A question is printed for a slot only when it is the question of the slot. -/
theorem questionId_of_loadedQuestion {bank : List QuestionId} {slot : MaterialReviewQuestion}
    {q : ExtractedQuestion} (h : loadedQuestion bank slot = some q) :
    slot.questionId = some q.id := by
  have hload : loadSlot bank slot = .ok q := by
    unfold loadedQuestion at h
    split at h
    · rename_i q' hq'
      rw [hq', Option.some.inj h]
    · cases h
  unfold loadSlot at hload
  split at hload
  · cases hload
  · cases hload
  · rename_i questionId hslot _ _
    split at hload
    · obtain rfl := Except.ok.inj hload
      exact hslot
    · cases hload
  · cases hload

/-- Excluded questions are not fetched. -/
theorem not_excluded_of_mem_fetchQuestions {bank : List QuestionId} {topic : TopicQuantity}
    {excludeIds : List QuestionId} {dbQuestions : List RandomQuestion} {q : ExtractedQuestion}
    (h : q ∈ fetchQuestions bank topic excludeIds dbQuestions) : q.id ∉ excludeIds := by
  obtain ⟨x, hx, rfl⟩ := List.mem_map.mp h
  simpa using (List.mem_filter.mp (List.mem_filter.mp hx).1).2

/-- **A printed question** is the question of a review slot of the course; without review
slots it is one that the job does not exclude. -/
theorem mem_loadCourseQuestions {run : CourseRun} {dist : Distribution}
    {slots : List MaterialReviewQuestion} {q : ExtractedQuestion}
    (h : q ∈ (run.loadCourseQuestions dist slots).allQuestions) :
    (∃ slot ∈ slots, slot.questionId = some q.id) ∨
      slots = [] ∧ q.id ∉ dist.excludeQuestionIds := by
  unfold CourseRun.loadCourseQuestions at h
  split at h
  · rename_i hempty
    obtain ⟨⟨topic, qs⟩, hfetched, hq⟩ := List.mem_flatMap.mp h
    obtain ⟨⟨topic', i⟩, _, heq⟩ := List.mem_map.mp hfetched
    obtain ⟨rfl, rfl⟩ := Prod.mk.inj heq
    exact .inr ⟨by simpa using hempty, not_excluded_of_mem_fetchQuestions hq⟩
  · obtain ⟨slot, hslot, hloaded⟩ := List.mem_filterMap.mp h
    exact .inl ⟨slot, hslot, questionId_of_loadedQuestion hloaded⟩

/-- Only a course that was printed is reported with ledger records. They are those of the
questions that were printed, in the cycle of the job. -/
theorem mem_questionUsages {job : CourseJob} {run : CourseRun}
    {slots : List MaterialReviewQuestion} {usage : QuestionUsageRecord}
    (h : usage ∈ (job.report run slots).questionUsages) :
    run.error = none ∧ usage.cycleId = job.cycleId ∧
      ∃ q ∈ (run.loadCourseQuestions job.dist slots).allQuestions, usage.questionId = q.id := by
  unfold CourseJob.report at h
  split at h
  · cases h
  · rename_i herror
    unfold CourseJob.reportLoaded at h
    split at h
    · cases h
    · obtain ⟨⟨q, idx⟩, hq, rfl⟩ := List.mem_map.mp h
      exact ⟨herror, rfl, q, List.mem_of_getElem? (List.mem_zipIdx_iff_getElem?.mp hq), rfl⟩

/-- The worker reports the course of the job. -/
theorem report_jobId {job : CourseJob} {run : CourseRun} {slots : List MaterialReviewQuestion} :
    (job.report run slots).statusData.jobId = job.dist.courseRequestId := by
  unfold CourseJob.report
  split
  · rfl
  · unfold CourseJob.reportLoaded
    split <;> rfl

end Odiseo.Materials
