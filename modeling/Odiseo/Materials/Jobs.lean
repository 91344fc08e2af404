import Odiseo.Materials.Entities
import Odiseo.Database.Program

/-!
# Jobs, errors and transactions of the materials module

The payloads that the use cases put on `materials-queue`, the exceptions they
throw, and the transactions they run on the tables of a tenant.
-/

namespace Odiseo.Materials

open Database

/-- The exceptions that leave a use case. -/
inductive HttpError
  /-- `BadRequestException`. -/
  | badRequest (message : String)
  /-- `NotFoundException`. -/
  | notFound (message : String)
  /-- `ConflictException`. -/
  | conflict (message : String)
  /-- A statement that the database refused. -/
  | queryFailed
  deriving DecidableEq, Repr

/-- `TenantInfo` of a job. -/
structure TenantInfo where
  tenantId : Uuid
  commercialName : String
  logoUrl : String
  deriving DecidableEq, Repr

/-- One entry of `topics` or `syllabus_distribution` in a job. -/
structure TopicQuantity where
  topicId : CatalogId
  subtopicId : CatalogId
  quantity : ℕ
  deriving DecidableEq, Repr

/-- One entry of `distributions` in a job: what to generate for one course. -/
structure Distribution where
  courseId : CatalogId
  topics : List TopicQuantity
  excludeQuestionIds : List QuestionId
  courseRequestId : Option CourseRequestId
  deriving DecidableEq, Repr

/-- The `generate-pdf` payload: all courses of a request. -/
structure GeneratePdfJob where
  materialRequestId : RequestId
  tenantId : Uuid
  cycleId : Uuid
  weekNumber : ℕ
  templateName : String
  designTemplateId : Option Uuid
  requiresReview : Bool
  materialType : String
  distributions : List Distribution
  tenant : TenantInfo
  deriving DecidableEq, Repr

/-- The `generate` payload: one course of an approved request. -/
structure GenerateJob where
  jobId : CourseRequestId
  materialRequestId : RequestId
  tenantId : Uuid
  cycleId : Uuid
  weekNumber : ℕ
  templateName : String
  designTemplateId : Option Uuid
  tenant : TenantInfo
  materialType : String
  courseId : CatalogId
  difficultyLevel : String
  syllabusDistribution : List TopicQuantity
  adminUserId : Uuid
  deriving DecidableEq, Repr

/-- The jobs of `materials-queue`. -/
inductive Job
  /-- `generate-pdf`. -/
  | generatePdf (data : GeneratePdfJob)
  /-- `generate`. -/
  | generate (data : GenerateJob)
  /-- `merge-pdf`. -/
  | mergePdf (materialRequestId : RequestId) (tenantId : Uuid)
  deriving DecidableEq, Repr

/-- A transaction of `runInTenant`. -/
abbrev Tx := Program Db Row Job HttpError

end Odiseo.Materials
