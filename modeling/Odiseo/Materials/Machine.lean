import Odiseo.Materials.Generate
import Odiseo.Materials.Webhook
import Odiseo.Database.System

/-!
# The materials module as one system

Every use case of the module that opens a transaction, as the calls of one machine.
Jobs that a use case collects are dispatched after its commit.
-/

namespace Odiseo.Materials

open Database

/-- A call of a use case. -/
inductive UseCase
  /-- `HandleMaterialWebhookUseCase.execute`. -/
  | webhook (callback : Callback)
  /-- `GetMaterialReviewUseCase.execute`. -/
  | review (id : RequestId)
  /-- `ApproveMaterialReviewUseCase.saveDraft`. -/
  | saveDraft (id : RequestId) (dto : ApproveReview)
  /-- `ApproveMaterialReviewUseCase.execute`. -/
  | approve (id : RequestId) (dto : ApproveReview) (ctx : MaterialReviewContext)
  /-- `GenerateMaterialUseCase.execute`, its write transaction. -/
  | generate (inputs : GenerateInputs)
  deriving DecidableEq, Repr

/-- The call is a worker callback. -/
def UseCase.IsWebhook (call : UseCase) : Prop := ∃ cb, call = .webhook cb

/-- The answer of a use case. -/
inductive Outcome
  | callback (outcome : CallbackOutcome)
  | review (data : ReviewData)
  | approval (result : ApprovalResult)
  | generated (result : GenerateResult)
  deriving DecidableEq, Repr

/-- The jobs that are dispatched once the transaction has committed. -/
def Outcome.jobs : Outcome → List Job
  | .callback _ | .review _ => []
  | .approval result => result.jobsToDispatch
  | .generated result => result.jobsToDispatch

/-- The transaction of a use case. -/
def UseCase.transaction (orm : Orm) : UseCase → Tx Outcome
  | .webhook callback => callback.execute.bind fun o => .done (.callback o)
  | .review id => (getMaterialReview orm id).bind fun d => .done (.review d)
  | .saveDraft id dto => (Materials.saveDraft id dto).bind fun r => .done (.approval r)
  | .approve id dto ctx => (Materials.approve orm id dto ctx).bind fun r => .done (.approval r)
  | .generate inputs => (generateMaterial inputs).bind fun r => .done (.generated r)

/-- The use cases of the materials module as one machine. -/
def materials (orm : Orm) : Machine UseCase Db Row Job HttpError Outcome where
  program := UseCase.transaction orm
  dispatched := Outcome.jobs

/-- A state of a run of the materials module. -/
abbrev State := System UseCase Db Row Job HttpError Outcome

/-- What a transaction of the module has done so far. -/
abbrev Ctx := Context UseCase Db Row Job

/-- What the committed transactions of the module have left behind. -/
abbrev Committed := Snapshot UseCase Db Job Outcome

end Odiseo.Materials
