import Odiseo.Database.Table

/-!
# Tables of the materials module

The rows of a tenant schema that generation, review and the worker callbacks
read and write. Identifiers are opaque keys, so natural numbers stand for them.
A column that is nullable in the entity is an `Option` here.
-/

namespace Odiseo.Materials

open Database

/-- `uuid` of a `MaterialRequest`. -/
abbrev RequestId := ℕ

/-- `uuid` of a `MaterialRequestCourse`; worker callbacks carry it as `job_id`. -/
abbrev CourseRequestId := ℕ

/-- `uuid` of a `Material`. -/
abbrev MaterialId := ℕ

/-- `uuid` of a `MaterialReviewQuestion`, a slot of the review. -/
abbrev SlotId := ℕ

/-- `bigint` key of a catalog course, topic or subtopic. -/
abbrev CatalogId := ℕ

/-- Key of a question of the question bank. -/
abbrev QuestionId := ℕ

/-- `uuid` of a tenant (a company), a user, a cycle, a profile or a design template. -/
abbrev Uuid := ℕ

/-- `CourseMaterialStatus`. -/
inductive CourseMaterialStatus
  | pending
  | processing
  | completed
  | completedWithWarnings
  | emptyBank
  | failed
  deriving DecidableEq, Repr

/-- `MaterialRequestStatus`, shared by requests and materials. -/
inductive MaterialRequestStatus
  | pending
  | inReview
  | processing
  | reviewRequired
  | completed
  | completedWithWarnings
  | failed
  deriving DecidableEq, Repr

/-- `ReviewQuestionStatus`. -/
inductive ReviewQuestionStatus
  | found
  | empty
  | replaced
  | removed
  deriving DecidableEq, Repr

/-- The three PDFs of a course. -/
inductive Variant
  | student
  | keys
  | solutions
  deriving DecidableEq, Repr

/-- The object key under which the worker uploads a PDF of a course. Its fields
are the parts that the key's text is put together from. -/
structure ArtifactKey where
  /-- `tenant_id` of the job. -/
  tenantId : Uuid
  /-- `cycle_id` of the job. -/
  cycleId : Uuid
  /-- `material_request_id` of the job. -/
  materialRequestId : RequestId
  /-- `template_name` of the job. -/
  templateName : String
  /-- `week_number` of the job. -/
  weekNumber : ℕ
  /-- `course_id` of the distribution. -/
  courseId : CatalogId
  /-- Which of the three PDFs. -/
  variant : Variant
  deriving DecidableEq, Repr

/-- An address of a PDF, as callbacks carry it and the database stores it. -/
inductive Url
  /-- The address of an object that the worker uploaded. -/
  | object (key : ArtifactKey)
  /-- Any other text. -/
  | text (address : String)
  deriving DecidableEq, Repr

/-- The `warnings` column of a course. -/
structure Warnings where
  /-- The message of the last callback. -/
  error : String
  deriving DecidableEq, Repr

/-- `MaterialRequestCourse`: one course of a generation request. -/
structure MaterialRequestCourse where
  id : CourseRequestId
  materialRequestId : RequestId
  courseId : CatalogId
  status : CourseMaterialStatus
  downloadUrl : Option Url
  keyDownloadUrl : Option Url
  solutionDownloadUrl : Option Url
  warnings : Option Warnings
  pageCount : Option ℕ
  fileSizeBytes : Option ℕ
  completedAt : Option ℕ
  deriving DecidableEq, Repr

/-- `MaterialRequest`: one attempt to generate a material. -/
structure MaterialRequest where
  id : RequestId
  profileId : Uuid
  cycleId : Uuid
  weekNumber : ℕ
  status : MaterialRequestStatus
  requiresReview : Bool
  materialType : String
  designTemplateId : Option Uuid
  materialId : Option MaterialId
  mergedDownloadUrl : Option Url
  mergedKeyDownloadUrl : Option Url
  mergedSolutionDownloadUrl : Option Url
  version : ℕ
  deriving DecidableEq, Repr

/-- `Material`: the material of a tenant, profile and week, over all its requests. -/
structure Material where
  id : MaterialId
  tenantId : Uuid
  profileId : Uuid
  cycleId : Uuid
  weekNumber : ℕ
  status : MaterialRequestStatus
  latestRequestId : Option RequestId
  deriving DecidableEq, Repr

/-- `MaterialReviewQuestion`: one question slot of a request. -/
structure MaterialReviewQuestion where
  id : SlotId
  materialRequestId : RequestId
  questionId : Option QuestionId
  topicId : CatalogId
  subtopicId : CatalogId
  expectedLevel : Option String
  position : ℕ
  status : ReviewQuestionStatus
  deriving DecidableEq, Repr

/-- The natural key of a ledger row, which a unique index enforces. -/
structure UsageKey where
  materialRequestId : RequestId
  courseId : CatalogId
  questionId : QuestionId
  deriving DecidableEq, Repr

/-- `MaterialQuestionUsage`: a question printed in the PDF of a course. -/
structure MaterialQuestionUsage where
  materialRequestId : RequestId
  courseId : CatalogId
  questionId : QuestionId
  cycleId : Uuid
  topicId : CatalogId
  subtopicId : CatalogId
  positionInPdf : ℕ
  wasReplacement : Bool
  deriving DecidableEq, Repr

/-- `CycleMaterialTemplate.scope`. -/
inductive Scope
  | currentWeek
  | accumulative
  deriving DecidableEq, Repr

/-- `CycleMaterialTemplate`, as an approval reads it. -/
structure CycleMaterialTemplate where
  id : Uuid
  name : String
  scope : Option Scope
  accumulationWeeks : Option ℕ
  deriving DecidableEq, Repr

/-- `Syllabus`, as an approval reads it. -/
structure Syllabus where
  id : Uuid
  courseId : CatalogId
  cycleId : Uuid
  isActive : Bool
  deriving DecidableEq, Repr

/-- `SyllabusDistribution`, as an approval reads it. -/
structure SyllabusDistribution where
  syllabusId : Uuid
  weekNumber : ℕ
  topicId : CatalogId
  subtopicId : CatalogId
  questionCount : ℕ
  deriving DecidableEq, Repr

/-- `Company`, as an approval reads it. -/
structure Company where
  id : Uuid
  commercialName : String
  logoUrl : String
  deriving DecidableEq, Repr

/-- `Topic`, as the worker joins it to the slots. -/
structure Topic where
  id : CatalogId
  courseId : CatalogId
  deriving DecidableEq, Repr

/-- The rows of other modules that the materials module only reads. -/
structure Catalog where
  companies : List Company
  templates : List CycleMaterialTemplate
  syllabuses : List Syllabus
  distributions : List SyllabusDistribution
  topics : List Topic
  deriving DecidableEq, Repr

instance : Keyed CourseRequestId MaterialRequestCourse := ⟨MaterialRequestCourse.id⟩

instance : Keyed RequestId MaterialRequest := ⟨MaterialRequest.id⟩

instance : Keyed MaterialId Material := ⟨Material.id⟩

instance : Keyed SlotId MaterialReviewQuestion := ⟨MaterialReviewQuestion.id⟩

instance : Keyed UsageKey MaterialQuestionUsage :=
  ⟨fun u => ⟨u.materialRequestId, u.courseId, u.questionId⟩⟩

/-- The database of one tenant. -/
structure Db where
  courses : Table CourseRequestId MaterialRequestCourse
  requests : Table RequestId MaterialRequest
  materials : Table MaterialId Material
  slots : Table SlotId MaterialReviewQuestion
  usages : Table UsageKey MaterialQuestionUsage
  catalog : Catalog

/-- A tenant without any material. -/
def emptyTenant (catalog : Catalog) : Db where
  courses := .empty
  requests := .empty
  materials := .empty
  slots := .empty
  usages := .empty
  catalog := catalog

/-- What a row lock is held on. -/
inductive Row
  | course (id : CourseRequestId)
  | request (id : RequestId)
  | material (id : MaterialId)
  | slot (id : SlotId)
  | usage (key : UsageKey)
  /-- The entry of a material in the unique index on tenant, profile and week. -/
  | naturalKey (tenantId profileId : Uuid) (weekNumber : ℕ)
  deriving DecidableEq, Repr

namespace CourseMaterialStatus

/-- `COMPLETED` or `COMPLETED_WITH_WARNINGS`: the PDFs of the course exist. -/
def successTerminal : CourseMaterialStatus → Bool
  | .completed | .completedWithWarnings => true
  | _ => false

/-- One of the four statuses with which a course counts as finished. -/
def finished : CourseMaterialStatus → Bool
  | .completed | .completedWithWarnings | .emptyBank | .failed => true
  | _ => false

/-- A finished course that asks for a review. -/
def hasWarnings : CourseMaterialStatus → Bool
  | .completedWithWarnings | .emptyBank => true
  | _ => false

/-- A course with PDFs is finished. -/
theorem finished_of_successTerminal {s : CourseMaterialStatus} (h : s.successTerminal = true) :
    s.finished = true := by
  cases s <;> simp_all [successTerminal, finished]

end CourseMaterialStatus

namespace Db

/-- The courses of a request. -/
def coursesOf (db : Db) (r : RequestId) : List MaterialRequestCourse :=
  db.courses.filter fun c => c.materialRequestId = r

/-- The review slots of a request. -/
def slotsOf (db : Db) (r : RequestId) : List MaterialReviewQuestion :=
  db.slots.filter fun q => q.materialRequestId = r

/-- The ledger rows of a course of a request. -/
def usagesOf (db : Db) (r : RequestId) (courseId : CatalogId) : List MaterialQuestionUsage :=
  db.usages.filter fun u => u.materialRequestId = r ∧ u.courseId = courseId

/-- The requests of a material. -/
def requestsOf (db : Db) (m : MaterialId) : List MaterialRequest :=
  db.requests.filter fun r => r.materialId = some m

/-- A row of `coursesOf` is the course found under its identifier. -/
theorem mem_coursesOf {db : Db} {r : RequestId} {c : MaterialRequestCourse} :
    c ∈ db.coursesOf r ↔ db.courses.find c.id = some c ∧ c.materialRequestId = r := by
  constructor
  · intro h
    obtain ⟨hmem, hr⟩ := List.mem_filter.mp h
    exact ⟨Table.find_of_mem hmem, by simpa using hr⟩
  · rintro ⟨hfind, hr⟩
    exact List.mem_filter.mpr ⟨Table.mem_of_find hfind, by simpa using hr⟩

/-- A course that is found carries the identifier it was looked up by. -/
theorem course_id_of_find {db : Db} {id : CourseRequestId} {c : MaterialRequestCourse}
    (h : db.courses.find id = some c) : c.id = id := Table.key_of_find h

/-- A request that is found carries the identifier it was looked up by. -/
theorem request_id_of_find {db : Db} {id : RequestId} {r : MaterialRequest}
    (h : db.requests.find id = some r) : r.id = id := Table.key_of_find h

end Db

end Odiseo.Materials
