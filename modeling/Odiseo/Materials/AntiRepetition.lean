import Odiseo.Materials.GenerateSpec
import Odiseo.Materials.Processor
import Odiseo.Materials.Selection
import Odiseo.Materials.Serial
import Odiseo.Materials.Superseded

/-!
# Questions are not printed twice in a cycle

A generation reads the ledger, plans its slots around the questions that it finds there
and commits them; the ledger learns of them only when the worker reports the course. Two
generations of one cycle whose plans are made in the same window can choose the same
question, and both materials are printed with it. Where each print commits while the
exclusion list of its plan still names what other materials have printed, no question
is printed twice.
-/

namespace Odiseo.Materials

open Database Database.Protocol

/-- A call of `GenerateMaterialUseCase.execute`, with what it reads of the syllabus and of
the question bank and with what it draws at random. -/
structure GenerateOrder where
  tenantId : Uuid
  profileId : Uuid
  weekNumber : ℕ
  requiresReview : Bool
  templateName : String
  cycleId : Uuid
  company : Option Company
  designTemplateId : Option Uuid
  /-- The courses with a distribution, each with the identifier that its row will get. -/
  courses : List (CoursePlan × CourseRequestId)
  bank : QuestionBank
  random : List (List ℕ)
  /-- The identifier that the row of each slot will get. -/
  slotId : ℕ → SlotId
  newMaterialId : MaterialId
  newRequestId : RequestId
  /-- Identifiers are drawn once. -/
  distinct : (courses.map Prod.snd).Nodup

/-- `getUsedQuestionsInCycle`. -/
def Db.usedQuestionsInCycle (db : Db) (cycleId : Uuid) (courseId : CatalogId) :
    List QuestionId :=
  (db.usages.filter fun u => u.cycleId = cycleId ∧ u.courseId = courseId).map (·.questionId)

/-- A course of a generation with its exclusion list. -/
abbrev PlannedCourse := (CoursePlan × CourseRequestId) × List QuestionId

/-- The exclusion lists of the courses are read one after the other. -/
def readExclusions (cycleId : Uuid) :
    List (CoursePlan × CourseRequestId) → Tx (List PlannedCourse)
  | [] => pure []
  | course :: courses => do
    let excluded ← Program.select fun v => v.usedQuestionsInCycle cycleId course.1.courseId
    let planned ← readExclusions cycleId courses
    pure ((course, excluded) :: planned)

/-- An entry of `realDistributions`. -/
def PlannedCourse.distribution (planned : PlannedCourse) : Distribution where
  courseId := planned.1.1.courseId
  topics := planned.1.1.topics.map fun t => ⟨t.topicId, t.subtopicId, t.expectedLevels.length⟩
  excludeQuestionIds := planned.2
  courseRequestId := none

/-- What the write transaction knows, once the exclusion lists have been read. -/
def GenerateOrder.inputs (order : GenerateOrder) (planned : List PlannedCourse) :
    GenerateInputs where
  tenantId := order.tenantId
  profileId := order.profileId
  weekNumber := order.weekNumber
  requiresReview := order.requiresReview
  templateName := order.templateName
  cycleId := order.cycleId
  company := order.company
  designTemplateId := order.designTemplateId
  courses := planned.map fun p => (p.distribution, p.1.2)
  slots := (buildReviewPlan order.bank order.random (planned.map fun p => (p.1.1, p.2))).zipIdx.map
    fun (slot, i) => (slot, order.slotId i)
  newMaterialId := order.newMaterialId
  newRequestId := order.newRequestId

/-- `GenerateMaterialUseCase.execute`: its first transaction reads, its second one writes. The
answer names the plan, too. -/
def GenerateOrder.execute (order : GenerateOrder) : Tx (GenerateInputs × GenerateResult) :=
  if order.courses.isEmpty then
    Program.throw (.badRequest
      "No hay distribución de sílabo configurada para la semana seleccionada en los cursos del perfil")
  else do
    let planned ← readExclusions order.cycleId order.courses
    let result ← generateMaterial (order.inputs planned)
    pure (order.inputs planned, result)

/-- What happens to the materials of a cycle. -/
inductive CycleCall
  /-- A generation. -/
  | execute (order : GenerateOrder)
  /-- The worker prints a course of a job. -/
  | print (source : Job) (job : CourseJob) (run : CourseRun)

/-- How a call ends. -/
inductive CycleOutcome
  | planned (plan : GenerateInputs) (result : GenerateResult)
  | printed (outcome : Option CallbackOutcome)

/-- Generations and completion callbacks as one machine. -/
def cycle : Machine CycleCall Db Row Job HttpError CycleOutcome where
  program
    | .execute order => order.execute.bind fun answer => .done (.planned answer.1 answer.2)
    | .print _ job run => (printCourse job run).bind fun outcome => .done (.printed outcome)
  dispatched
    | .planned _ result => result.jobsToDispatch
    | .printed _ => []

/-- A state of a run of the cycle. -/
abbrev CycleState := System CycleCall Db Row Job HttpError CycleOutcome

/-- What a transaction of the cycle has done so far. -/
abbrev CycleCtx := Context CycleCall Db Row Job

/-- What the committed transactions of the cycle have left behind. -/
abbrev CycleCommitted := Snapshot CycleCall Db Job CycleOutcome

/-- The job of a course that an approval dispatches: it names a course of a request. -/
def GenerateJob.Names (data : GenerateJob) (db : Db) : Prop :=
  ∃ c q, db.courses.find data.jobId = some c ∧ c.materialRequestId = data.materialRequestId ∧
    c.courseId = data.courseId ∧ db.requests.find data.materialRequestId = some q ∧
    q.cycleId = data.cycleId

/-- A job that the worker can receive: one that a generation has dispatched, or the job of a
course of a reviewed request. -/
def Dispatched (s : CycleCommitted) : Job → Prop
  | .generatePdf data => .generatePdf data ∈ s.commits.flatMap Commit.jobs
  | .generate data => data.Names s.db
  | .mergePdf _ _ => False

/-- The worker prints courses of jobs that it has received. -/
def PrintsJobs (s : CycleState) (e : Event CycleCall) : Prop :=
  ∀ source job run, e = .start (.print source job run) →
    Dispatched s.toSnapshot source ∧ job ∈ source.courseJobs

/-- The questions in the ledger of a course of a request. -/
def Db.printedQuestions (db : Db) (r : RequestId) (courseId : CatalogId) : List QuestionId :=
  (db.usagesOf r courseId).map (·.questionId)

/-- `COMPLETED` or `COMPLETED_WITH_WARNINGS`. -/
def MaterialRequestStatus.successTerminal (status : MaterialRequestStatus) : Bool :=
  status == .completed || status == .completedWithWarnings

/-- The request belongs to material `m`, and the material points at it. -/
structure LatestOf (db : Db) (m : MaterialId) (q : MaterialRequest) : Prop where
  request : db.requests.find q.id = some q
  owner : q.materialId = some m
  latest : (db.materials.find m).bind (·.latestRequestId) = some q.id

/-- In the runs under a condition no question is in the ledger of two materials of one cycle for
the same course, when the latest request of each has succeeded. -/
def NeverRepeats (cond : CycleState → Event CycleCall → Prop) : Prop :=
  ∀ (catalog : Catalog) (s : CycleState),
    cycle.Reaches (fun s e => PrintsJobs s e ∧ cond s e) (System.idle (emptyTenant catalog)) s →
    ∀ m m' q q', m ≠ m' → LatestOf s.db m q → LatestOf s.db m' q' → q.cycleId = q'.cycleId →
      q.status.successTerminal = true → q'.status.successTerminal = true →
      ∀ courseId, List.Disjoint (s.db.printedQuestions q.id courseId)
        (s.db.printedQuestions q'.id courseId)

/-- The generation was planned by a committed call. -/
def Planned (s : CycleCommitted) (g : GenerateInputs) : Prop :=
  ∃ c ∈ s.commits, ∃ result, c.result = .planned g result

/-- The request belongs to material `m`, which points at no other request. -/
structure IsCurrent (db : Db) (m : MaterialId) (q : MaterialRequest) : Prop where
  request : db.requests.find q.id = some q
  owner : q.materialId = some m
  latest : ∀ mat r, db.materials.find m = some mat → mat.latestRequestId = some r → r = q.id

/-- The exclusion lists of the course that a print is about still name every question that the
ledger has for the course in the current request of another material of the cycle. -/
def StillExcluded (t : CycleCtx) (s : CycleCommitted) : Prop :=
  ∀ source job run g dist m m' q q', t.call = .print source job run → run.error = none →
    Planned s g → g.newRequestId = job.materialRequestId → dist ∈ g.courses.map Prod.fst →
    dist.courseId = job.dist.courseId → q.id = job.materialRequestId → m ≠ m' →
    IsCurrent s.db m q → IsCurrent s.db m' q' → q.cycleId = q'.cycleId →
    s.db.printedQuestions q'.id job.dist.courseId ⊆ dist.excludeQuestionIds

/-- The condition under which no question is printed twice. -/
structure NothingMissed (s : CycleState) (e : Event CycleCall) : Prop where
  /-- The topics of a generation belong to the course that they are planned for. -/
  topics : ∀ order, e = .start (.execute order) → ∀ course ∈ order.courses,
    ∀ topic ∈ course.1.topics, ∀ t ∈ s.db.catalog.topics, t.id = topic.topicId →
      t.courseId = course.1.courseId
  /-- A job without an exclusion list is for a course with review slots. -/
  slots : ∀ data job run, e = .start (.print (.generate data) job run) →
    s.db.courseSlots data.materialRequestId data.courseId ≠ []
  /-- No other material has printed for the course in the meantime. -/
  window : ∀ t ∈ s.active, ∀ event, e = .exec t.id →
    t.program = .done (.printed (some (.applied event))) → StillExcluded t.toContext s.toSnapshot

/-- No two current requests of one cycle have printed a question for the same course. -/
def Apart (db : Db) : Prop :=
  ∀ m m' q q', m ≠ m' → IsCurrent db m q → IsCurrent db m' q' → q.cycleId = q'.cycleId →
    ∀ courseId, List.Disjoint (db.printedQuestions q.id courseId)
      (db.printedQuestions q'.id courseId)

/-- Request `r` was planned for the course with an exclusion list that does not name the
question. -/
def Plannable (s : CycleCommitted) (r : RequestId) (courseId : CatalogId) (x : QuestionId) :
    Prop :=
  ∃ g dist, Planned s g ∧ g.newRequestId = r ∧ dist ∈ g.courses.map Prod.fst ∧
    dist.courseId = courseId ∧ x ∉ dist.excludeQuestionIds

/-- What is known of a job that the worker can receive. -/
structure Carries (s : CycleCommitted) (job : CourseJob) : Prop where
  request : (s.db.requests.find job.materialRequestId).isSome
  course : ∀ id, job.dist.courseRequestId = some id → ∃ c, s.db.courses.find id = some c ∧
    c.materialRequestId = job.materialRequestId ∧ c.courseId = job.dist.courseId
  /-- Without review slots, the job carries an exclusion list of its plan. -/
  excluded : s.db.courseSlots job.materialRequestId job.dist.courseId = [] →
    ∀ x, x ∉ job.dist.excludeQuestionIds → Plannable s job.materialRequestId job.dist.courseId x

/-- The invariant of the committed state. -/
structure CycleInv (catalog : Catalog) (s : CycleCommitted) : Prop where
  constant : s.db.catalog = catalog
  /-- The question of a slot was not excluded when the slot was planned. -/
  slots : ∀ slot ∈ s.db.slots.rows, ∀ t ∈ catalog.topics, t.id = slot.topicId →
    ∀ x, slot.questionId = some x → Plannable s slot.materialRequestId t.courseId x
  ledger : ∀ u ∈ s.db.usages.rows, (s.db.requests.find u.materialRequestId).isSome
  jobs : ∀ data, .generatePdf data ∈ s.commits.flatMap Commit.jobs →
    ∀ job ∈ (Job.generatePdf data).courseJobs, Carries s job
  apart : Apart s.db

/-- Between two committed states nothing is lost that jobs and slots rely on. -/
structure Grows (a b : CycleCommitted) : Prop where
  frame : Protected [] a.db b.db
  slots : a.db.slots.rows ⊆ b.db.slots.rows
  commits : a.commits ⊆ b.commits

/-- The protocol of the cycle. -/
def cycleProtocol (catalog : Catalog) : Protocol CycleCall Db Row Job CycleOutcome where
  Inv := CycleInv catalog
  Guar := fun held a b => LockFrame held a.db b.db ∧ Grows a b
  Local := fun _ _ _ => True
  Pre := fun _ _ _ => True
  PreCommit := fun t a s => ∀ event, a = .printed (some (.applied event)) → StillExcluded t s

namespace Grows

variable {a b c : CycleCommitted}

/-- Nothing has happened. -/
theorem refl (a : CycleCommitted) : Grows a a := ⟨.refl [] a.db, fun _ h => h, fun _ h => h⟩

/-- One commit after another. -/
theorem trans (hab : Grows a b) (hbc : Grows b c) : Grows a c :=
  ⟨hab.frame.trans hbc.frame, fun _ h => hbc.slots (hab.slots h),
    fun _ h => hbc.commits (hab.commits h)⟩

/-- Plans are not forgotten. -/
theorem plannable (h : Grows a b) {r : RequestId} {courseId : CatalogId} {x : QuestionId}
    (hx : Plannable a r courseId x) : Plannable b r courseId x := by
  obtain ⟨g, dist, ⟨c, hc, hplan⟩, hrest⟩ := hx
  exact ⟨g, dist, ⟨c, h.commits hc, hplan⟩, hrest⟩

/-- Requests are not deleted. -/
theorem request (h : Grows a b) {r : RequestId} (hr : (a.db.requests.find r).isSome) :
    (b.db.requests.find r).isSome := by
  obtain ⟨q, hq⟩ := Option.isSome_iff_exists.mp hr
  obtain ⟨q', hq', _⟩ := h.frame.material r q hq
  rw [hq']
  rfl

/-- A job keeps what it carries. -/
theorem carries (h : Grows a b) (hcatalog : b.db.catalog = a.db.catalog) {job : CourseJob}
    (hjob : Carries a job) : Carries b job where
  request := h.request hjob.request
  course := by
    intro id hid
    obtain ⟨c, hc, hr, hk⟩ := hjob.course id hid
    obtain ⟨c', hc', hr', hk'⟩ := h.frame.course id c hc
    exact ⟨c', hc', hr'.trans hr, hk'.trans hk⟩
  excluded := by
    intro hempty x hx
    refine h.plannable (hjob.excluded ?_ x hx)
    rw [List.eq_nil_iff_forall_not_mem] at hempty ⊢
    intro slot hslot
    obtain ⟨hmem, htopic⟩ := mem_courseSlots.mp hslot
    obtain ⟨hrow, hr⟩ := List.mem_filter.mp hmem
    refine hempty slot (mem_courseSlots.mpr ⟨List.mem_filter.mpr ⟨h.slots hrow, hr⟩, ?_⟩)
    rwa [hcatalog]

end Grows

/-- Commits of the cycle only add to what jobs rely on. -/
theorem grows_of_after {catalog : Catalog} {mine : List Row} {a b : CycleCommitted}
    (h : (cycleProtocol catalog).After mine a b) : Grows a b := by
  refine h.of_guar Grows.refl (fun _ _ _ hab hbc => hab.trans hbc) ?_
  intro _ _ _ _ hguar _
  exact hguar.2

section Print

variable {cb : Callback} {incoming : CourseMaterialStatus} {course : MaterialRequestCourse}
  {seen : List MaterialQuestionUsage} {db : Db}

/-- After a callback the ledger of a course has old questions and those of the callback. -/
theorem mem_printedQuestions_effect {r : RequestId} {courseId : CatalogId} {x : QuestionId}
    (h : x ∈ (cb.effect incoming course seen db).printedQuestions r courseId) :
    x ∈ db.printedQuestions r courseId ∨ r = course.materialRequestId ∧
      courseId = course.courseId ∧ x ∈ cb.questionUsages.map (·.questionId) := by
  obtain ⟨u, hu, rfl⟩ := List.mem_map.mp h
  obtain ⟨hrow, hplace⟩ := List.mem_filter.mp hu
  have hold : u ∈ db.usages.rows → u.questionId ∈ db.printedQuestions r courseId :=
    fun hmem => List.mem_map_of_mem (List.mem_filter.mpr ⟨hmem, hplace⟩)
  rw [Callback.effect, rollUp_usages, Callback.prepare, Callback.ledger] at hrow
  split at hrow
  · rcases Table.mem_insertAll hrow with hrow | hnew
    · exact .inl (hold (Table.mem_delete.mp hrow).1)
    · obtain ⟨usage, husage, rfl⟩ := List.mem_map.mp hnew
      simp only [decide_eq_true_eq] at hplace
      exact .inr ⟨hplace.1.symm, hplace.2.symm, List.mem_map_of_mem husage⟩
  · exact .inl (hold hrow)

/-- A callback keeps the material and the cycle of every request. -/
theorem request_of_effect {r : RequestId} {q' : MaterialRequest}
    (h : (cb.effect incoming course seen db).requests.find r = some q') :
    ∃ q, db.requests.find r = some q ∧ q.materialId = q'.materialId ∧ q.cycleId = q'.cycleId := by
  have hrequests : ∀ (k : RequestId) (db : Db), (rollUp k db).requests.find r = some q' →
      ∃ q, db.requests.find r = some q ∧ q.materialId = q'.materialId ∧
        q.cycleId = q'.cycleId := by
    intro k db hq'
    by_cases hr : r = k
    · subst hr
      unfold rollUp at hq'
      split at hq'
      · have hset : ∃ status, (setRequestStatus r status db).requests.find r = some q' := by
          split at hq'
          · exact ⟨_, hq'⟩
          · exact ⟨_, hq'⟩
        obtain ⟨status, hset⟩ := hset
        rw [setRequestStatus, find_updateRequest, if_pos rfl] at hset
        obtain ⟨q, hq, rfl⟩ := Option.map_eq_some_iff.mp hset
        exact ⟨q, hq, rfl, rfl⟩
      · exact ⟨q', hq', rfl, rfl⟩
    · rw [find_requests_rollUp_of_ne db hr] at hq'
      exact ⟨q', hq', rfl, rfl⟩
  obtain ⟨q, hq, hcolumns⟩ := hrequests _ _ h
  rw [prepare_requests] at hq
  exact ⟨q, hq, hcolumns⟩

/-- A request that is current after a callback was so before. -/
theorem isCurrent_of_effect {m : MaterialId} {q' : MaterialRequest}
    (h : IsCurrent (cb.effect incoming course seen db) m q') :
    ∃ q, IsCurrent db m q ∧ q.id = q'.id ∧ q.cycleId = q'.cycleId := by
  obtain ⟨q, hq, hm, hcycle⟩ := request_of_effect h.request
  have hid : q.id = q'.id := Db.request_id_of_find hq
  refine ⟨q, ⟨by rwa [hid], hm.trans h.owner, fun mat r hmat hr => ?_⟩, hid, hcycle⟩
  have hprepared : (cb.prepare incoming course seen db).materials.find m = some mat := by
    rwa [prepare_materials]
  obtain ⟨mat', hmat', hlatest⟩ := latest_rollUp (k := course.materialRequestId) hprepared
  rw [hid]
  exact h.latest mat' r hmat' (hlatest.trans hr)

/-- **Step lemma for prints:** current requests stay apart when the new questions of a course are
not in the ledger of another one. -/
theorem apart_effect (h : Apart db)
    (hnew : ∀ m m' q q' x, m ≠ m' → IsCurrent db m q → IsCurrent db m' q' →
      q.cycleId = q'.cycleId → q.id = course.materialRequestId →
      x ∈ cb.questionUsages.map (·.questionId) →
      x ∉ db.printedQuestions q'.id course.courseId) :
    Apart (cb.effect incoming course seen db) := by
  intro m m' q q' hne hq hq' hcycle courseId x hx hx'
  obtain ⟨p, hp, hid, hpc⟩ := isCurrent_of_effect hq
  obtain ⟨p', hp', hid', hpc'⟩ := isCurrent_of_effect hq'
  have hsame : p.cycleId = p'.cycleId := by rw [hpc, hpc', hcycle]
  rw [← hid] at hx
  rw [← hid'] at hx'
  rcases mem_printedQuestions_effect hx with hold | ⟨hr, hk, hrecorded⟩
  · rcases mem_printedQuestions_effect hx' with hold' | ⟨hr', hk', hrecorded'⟩
    · exact h m m' p p' hne hp hp' hsame courseId hold hold'
    · subst hk'
      exact hnew m' m p' p x hne.symm hp' hp hsame.symm hr' hrecorded' hold
  · rcases mem_printedQuestions_effect hx' with hold' | ⟨hr', _, _⟩
    · subst hk
      exact hnew m m' p p' x hne hp hp' hsame hr hrecorded hold'
    · -- one request belongs to one material
      have hrow := hp.request
      rw [hr, ← hr', hp'.request] at hrow
      obtain rfl := Option.some.inj hrow
      exact hne (Option.some.inj (hp.owner.symm.trans hp'.owner))

end Print

section Generation

variable {g : GenerateInputs} {c : Creation} {db : Db}

/-- A request that is current after a generation was so before, unless it is the new one. -/
theorem isCurrent_of_createIn
    (hlinked : ∃ row, c.linked.latestRequestId =
      saved c.material.latestRequestId c.opened.latestRequestId row) {m : MaterialId}
    {q : MaterialRequest} (h : IsCurrent (g.createIn c db) m q) (hne : q.id ≠ g.newRequestId) :
    IsCurrent db m q := by
  refine ⟨?_, h.owner, fun mat r hmat hr => ?_⟩
  · have hrow := h.request
    rw [createIn_requests, Table.find_insert_of_ne _ _ _ hne] at hrow
    exact hrow
  · obtain ⟨mat', y, hmat', hy, hmoved⟩ := latest_createIn g c db hlinked hmat hr
    have hlatest := h.latest mat' y hmat' hy
    rcases hmoved with rfl | rfl
    · exact hlatest
    · exact absurd hlatest.symm hne

/-- A generation adds nothing to the ledger. -/
theorem printedQuestions_createIn_subset (r : RequestId) (courseId : CatalogId) :
    (g.createIn c db).printedQuestions r courseId ⊆ db.printedQuestions r courseId := by
  intro x hx
  obtain ⟨u, hu, rfl⟩ := List.mem_map.mp hx
  obtain ⟨hrow, hplace⟩ := List.mem_filter.mp hu
  rw [createIn_usages] at hrow
  exact List.mem_map_of_mem (List.mem_filter.mpr ⟨(Table.mem_delete.mp hrow).1, hplace⟩)

/-- **Step lemma for generations:** current requests stay apart, since the new one has no ledger
rows. -/
theorem apart_createIn (h : Apart db)
    (hledger : ∀ u ∈ db.usages.rows, (db.requests.find u.materialRequestId).isSome)
    (hfree : db.requests.find g.newRequestId = none)
    (hlinked : ∃ row, c.linked.latestRequestId =
      saved c.material.latestRequestId c.opened.latestRequestId row) :
    Apart (g.createIn c db) := by
  have hunprinted : ∀ courseId, db.printedQuestions g.newRequestId courseId = [] := by
    intro courseId
    rw [List.eq_nil_iff_forall_not_mem]
    intro x hx
    obtain ⟨u, hu, _⟩ := List.mem_map.mp hx
    obtain ⟨hrow, hplace⟩ := List.mem_filter.mp hu
    simp only [decide_eq_true_eq] at hplace
    have hsome := hledger u hrow
    rw [hplace.1, hfree] at hsome
    cases hsome
  intro m m' q q' hne hq hq' hcycle courseId x hx hx'
  have hold := printedQuestions_createIn_subset _ _ hx
  have hold' := printedQuestions_createIn_subset _ _ hx'
  by_cases hnew : q.id = g.newRequestId
  · rw [hnew, hunprinted] at hold
    cases hold
  · by_cases hnew' : q'.id = g.newRequestId
    · rw [hnew', hunprinted] at hold'
      cases hold'
    · exact h m m' q q' hne (isCurrent_of_createIn hlinked hq hnew)
        (isCurrent_of_createIn hlinked hq' hnew') hcycle courseId hold hold'

end Generation

/-- The invariant survives a commit that creates neither slots nor jobs for whole requests. -/
theorem CycleInv.of_grows {catalog : Catalog} {a b : CycleCommitted} (h : CycleInv catalog a)
    (hgrows : Grows a b) (hcatalog : b.db.catalog = a.db.catalog) (hslots : b.db.slots = a.db.slots)
    (hledger : ∀ u ∈ b.db.usages.rows, (b.db.requests.find u.materialRequestId).isSome)
    (hjobs : ∀ data, .generatePdf data ∈ b.commits.flatMap Commit.jobs →
      .generatePdf data ∈ a.commits.flatMap Commit.jobs) (hapart : Apart b.db) :
    CycleInv catalog b where
  constant := hcatalog.trans h.constant
  slots := by
    intro slot hslot t ht hid x hx
    rw [hslots] at hslot
    exact hgrows.plannable (h.slots slot hslot t ht hid x hx)
  ledger := hledger
  jobs := fun data hdata job hjob => hgrows.carries hcatalog (h.jobs data (hjobs data hdata) job hjob)
  apart := hapart

section Generation

variable {catalog : Catalog} {order : GenerateOrder} {planned : List PlannedCourse}
  {g : GenerateInputs} {c : Creation} {v b : CycleCommitted}

/-- The exclusion lists are read without any write. -/
theorem wp_readExclusions {P : Protocol CycleCall Db Row Job CycleOutcome} {cycleId : Uuid}
    {courses : List (CoursePlan × CourseRequestId)} {t : CycleCtx} {s : CycleCommitted}
    {Q : CycleCtx → List PlannedCourse → CycleCommitted → Prop}
    (hquiet : ∀ v, P.Local t (fun _ => []) v) (hinv : P.Inv s)
    (hQ : ∀ planned v, P.Inv v → planned.map Prod.fst = courses → Q t planned v) :
    P.Wp Q (readExclusions cycleId courses) t s := by
  induction courses generalizing s Q with
  | nil => exact hQ [] s hinv rfl
  | cons course courses ih =>
    refine wp_select (hquiet s) fun v _ hinv' => ?_
    refine (wp_bind _ _ _ _ _).mpr ?_
    refine ih hinv' fun planned w hinvw hcourses => ?_
    exact hQ _ w hinvw (by rw [List.map_cons, hcourses])

/-- A slot of a generation is planned around the exclusion list of its course. -/
theorem plannable_of_slot (hcourses : planned.map Prod.fst = order.courses)
    (htopics : ∀ course ∈ order.courses, ∀ topic ∈ course.1.topics, ∀ t ∈ catalog.topics,
      t.id = topic.topicId → t.courseId = course.1.courseId)
    {slot : ReviewSlot} (hslot : slot ∈ (order.inputs planned).slots.map Prod.fst) {t : Topic}
    (ht : t ∈ catalog.topics) (hid : t.id = slot.topicId) {x : QuestionId}
    (hx : slot.questionId = some x) : ∃ dist ∈ (order.inputs planned).courses.map Prod.fst,
      dist.courseId = t.courseId ∧ x ∉ dist.excludeQuestionIds := by
  have hplan : slot ∈ buildReviewPlan order.bank order.random
      (planned.map fun p => (p.1.1, p.2)) := by
    obtain ⟨entry, hentry, rfl⟩ := List.mem_map.mp hslot
    obtain ⟨⟨slot', i⟩, hzip, rfl⟩ := List.mem_map.mp hentry
    have hposition := List.mem_zipIdx_iff_getElem?.mp hzip
    exact List.mem_of_getElem? hposition
  obtain ⟨course, excluded, topic, hentry, htopic, htid, hexcluded⟩ := mem_buildReviewPlan hplan
  obtain ⟨p, hp, heq⟩ := List.mem_map.mp hentry
  obtain ⟨rfl, rfl⟩ := Prod.mk.inj heq
  have hordered : p.1 ∈ order.courses := hcourses ▸ List.mem_map_of_mem hp
  refine ⟨p.distribution, ?_, ?_, hexcluded x hx⟩
  · exact List.mem_map_of_mem (f := Prod.fst) (List.mem_map_of_mem hp)
  · exact (htopics p.1 hordered topic htopic t ht (hid.trans htid)).symm

/-- The jobs of a generation name its courses. -/
theorem carries_jobPayload (hdb : b.db = g.createIn c v.db) (hplan : Planned b g)
    (hfree : v.db.requests.find g.newRequestId = none)
    (hcourses : ∀ x ∈ g.createdCourses, v.db.courses.find x.id = none)
    (hnodup : (g.createdCourses.map (·.id)).Nodup) {job : CourseJob}
    (hjob : job ∈ (Job.generatePdf g.jobPayload).courseJobs) : Carries b job := by
  obtain ⟨dist, hdist, rfl⟩ := List.mem_map.mp hjob
  obtain ⟨⟨d, id⟩, hd, rfl⟩ := List.mem_map.mp hdist
  refine ⟨?_, ?_, ?_⟩
  · rw [hdb, createIn_requests, Table.find_insert _ _ _ hfree]
    simp [GenerateInputs.jobPayload, GenerateInputs.newRequest, key]
  · intro k hk
    obtain ⟨x, hx, rfl⟩ := Option.map_eq_some_iff.mp hk
    have hcreated := List.mem_of_find?_eq_some hx
    obtain ⟨y, hy, hr, hcourse⟩ := find_courses_createIn hnodup hcourses hcreated
    refine ⟨y, by rw [hdb, hy], hr.trans (request_of_mem_createdCourses hcreated), ?_⟩
    have hsame := List.find?_some hx
    exact hcourse.trans (by simpa using hsame)
  · intro _ x hx
    exact ⟨g, d, hplan, rfl, List.mem_map_of_mem (f := Prod.fst) hd, rfl, hx⟩

/-- **Step lemma for generations:** a generation keeps the invariant. -/
theorem cycleInv_createIn (h : CycleInv catalog v) (hdb : b.db = g.createIn c v.db)
    (hgrows : Grows v b) (hplan : Planned b g)
    (hjobs : b.commits.flatMap Commit.jobs =
      v.commits.flatMap Commit.jobs ++ g.result.jobsToDispatch)
    (hfree : v.db.requests.find g.newRequestId = none)
    (hcourses : ∀ x ∈ g.createdCourses, v.db.courses.find x.id = none)
    (hnodup : (g.createdCourses.map (·.id)).Nodup)
    (hlinked : ∃ row, c.linked.latestRequestId =
      saved c.material.latestRequestId c.opened.latestRequestId row)
    (hslots : ∀ slot ∈ g.slots.map Prod.fst, ∀ t ∈ catalog.topics, t.id = slot.topicId →
      ∀ x, slot.questionId = some x → ∃ dist ∈ g.courses.map Prod.fst,
        dist.courseId = t.courseId ∧ x ∉ dist.excludeQuestionIds) : CycleInv catalog b := by
  have hcatalog : b.db.catalog = v.db.catalog := by rw [hdb, createIn_catalog]
  refine ⟨hcatalog.trans h.constant, ?_, ?_, ?_, ?_⟩
  · intro slot hslot t ht hid x hx
    rw [hdb, createIn_slots] at hslot
    rcases Table.mem_insertAll hslot with hold | hnew
    · exact hgrows.plannable (h.slots slot hold t ht hid x hx)
    · obtain ⟨⟨entry, i⟩, hentry, rfl⟩ := List.mem_map.mp hnew
      have hmem : entry ∈ g.slots :=
        List.mem_of_getElem? (List.mem_zipIdx_iff_getElem?.mp hentry)
      obtain ⟨dist, hdist, hk, hexcluded⟩ :=
        hslots entry.1 (List.mem_map_of_mem hmem) t ht hid x hx
      exact ⟨g, dist, hplan, rfl, hdist, hk, hexcluded⟩
  · intro u hu
    rw [hdb, createIn_usages] at hu
    exact hgrows.request (h.ledger u (Table.mem_delete.mp hu).1)
  · intro data hdata job hjob
    rw [hjobs] at hdata
    rcases List.mem_append.mp hdata with hold | hnew
    · exact hgrows.carries hcatalog (h.jobs data hold job hjob)
    · unfold GenerateInputs.result at hnew
      simp only at hnew
      split at hnew
      · cases hnew
      · obtain rfl := Job.generatePdf.inj (List.mem_singleton.mp hnew)
        exact carries_jobPayload hdb hplan hfree hcourses hnodup hjob
  · rw [hdb]
    exact apart_createIn h.apart h.ledger hfree hlinked

/-- A generation whose topics belong to their courses follows the protocol. -/
theorem wp_execute {id since : ℕ} {s : CycleCommitted} (hinv : CycleInv catalog s)
    (htopics : ∀ course ∈ order.courses, ∀ topic ∈ course.1.topics, ∀ t ∈ catalog.topics,
      t.id = topic.topicId → t.courseId = course.1.courseId) :
    (cycleProtocol catalog).Wp ((cycleProtocol catalog).Commits cycle)
      (cycle.program (.execute order)) (Context.opened id (.execute order) since) s := by
  have hguar : ∀ held a b, (cycleProtocol catalog).Guar held a b → LockFrame held a.db b.db :=
    fun _ _ _ h => h.1
  refine (wp_bind _ _ _ _ _).mpr ?_
  unfold GenerateOrder.execute
  split
  · exact trivial
  · refine (wp_bind _ _ _ _ _).mpr ?_
    refine wp_readExclusions (fun _ => trivial) hinv fun planned v _ hcourses => ?_
    refine (wp_bind _ _ _ _ _).mpr ?_
    refine wp_generateMaterial hguar (fun _ => rfl) rfl (fun _ _ _ _ _ => trivial) ?_
    intro u c v₁ _ hgenerated
    refine commits_of_after trivial fun v₂ hafter hinv₂ _ _ => ?_
    have hlater := hgenerated.mono hguar hafter
    have hframe := hlater.lockFrame
    set g := order.inputs planned with hg
    set b := v₂.commit u (.planned g g.result) (cycle.dispatched (.planned g g.result)) with hb
    have hdb : b.db = g.createIn c v₂.db := hlater.log v₂.db
    have hgrows : Grows v₂ b := by
      refine ⟨hframe [] (by simp), ?_, List.subset_append_left _ _⟩
      rw [hdb, createIn_slots]
      exact Table.subset_insertAll _ _
    have hplan : Planned b g :=
      ⟨_, List.mem_append_right _ (List.mem_singleton_self _), g.result, rfl⟩
    have hjobs : b.commits.flatMap Commit.jobs =
        v₂.commits.flatMap Commit.jobs ++ g.result.jobsToDispatch := by
      simp [hb, hlater.out, cycle]
    have hnodup : (g.createdCourses.map (·.id)).Nodup := by
      have hids : g.createdCourses.map (·.id) = order.courses.map Prod.snd := by
        rw [← hcourses]
        simp [hg, GenerateInputs.createdCourses, GenerateOrder.inputs, GenerateInputs.newCourse,
          Function.comp_def]
      rw [hids]
      exact order.distinct
    refine ⟨?_, hframe, hgrows⟩
    exact cycleInv_createIn hinv₂ hdb hgrows hplan hjobs hlater.request.2
      (fun x hx => (hlater.courses x hx).2) hnodup hlater.linked
      fun slot hslot t ht hid x hx => plannable_of_slot hcourses htopics hslot ht hid hx

end Generation

section Worker

variable {catalog : Catalog} {job : CourseJob} {run : CourseRun}

/-- **What the worker records** for a course was planned for it. -/
theorem plannable_of_report {v : CycleCommitted} (hinv : CycleInv catalog v)
    (hjob : Carries v job) {x : QuestionId}
    (hx : x ∈ (job.report run (v.db.courseSlots job.materialRequestId job.dist.courseId)
      ).questionUsages.map (·.questionId)) :
    run.error = none ∧ Plannable v job.materialRequestId job.dist.courseId x := by
  obtain ⟨usage, husage, rfl⟩ := List.mem_map.mp hx
  obtain ⟨herror, _, q, hq, hid⟩ := mem_questionUsages husage
  refine ⟨herror, ?_⟩
  rw [hid]
  rcases mem_loadCourseQuestions hq with ⟨slot, hslot, hquestion⟩ | ⟨hempty, hexcluded⟩
  · obtain ⟨hmem, t, ht, htid, hk⟩ := mem_courseSlots.mp hslot
    obtain ⟨hrow, hr⟩ := List.mem_filter.mp hmem
    rw [hinv.constant] at ht
    have hplan := hinv.slots slot hrow t ht htid q.id hquestion
    rwa [hk, of_decide_eq_true hr] at hplan
  · exact hjob.excluded hempty q.id hexcluded

/-- The ledger rows after a callback belong to requests. -/
theorem ledger_effect (cb : Callback) (incoming : CourseMaterialStatus)
    {course : MaterialRequestCourse} (seen : List MaterialQuestionUsage) {db db' : Db}
    (hledger : ∀ u ∈ db.usages.rows, (db'.requests.find u.materialRequestId).isSome)
    (hcourse : (db'.requests.find course.materialRequestId).isSome) :
    ∀ u ∈ (cb.effect incoming course seen db).usages.rows,
      (db'.requests.find u.materialRequestId).isSome := by
  intro u hu
  rw [Callback.effect, rollUp_usages, Callback.prepare, Callback.ledger] at hu
  split at hu
  · rcases Table.mem_insertAll hu with hold | hnew
    · exact hledger u (Table.mem_delete.mp hold).1
    · obtain ⟨usage, _, rfl⟩ := List.mem_map.mp hnew
      exact hcourse
  · exact hledger u hu

/-- **Step lemma for prints:** a callback keeps the invariant when its questions are in the ledger
of no other material. -/
theorem cycleInv_effect {cb : Callback} {incoming : CourseMaterialStatus}
    {course : MaterialRequestCourse} {seen : List MaterialQuestionUsage} {v b : CycleCommitted}
    (h : CycleInv catalog v) (hdb : b.db = cb.effect incoming course seen v.db)
    (hgrows : Grows v b) (hrequest : (b.db.requests.find course.materialRequestId).isSome)
    (hjobs : ∀ data, .generatePdf data ∈ b.commits.flatMap Commit.jobs →
      .generatePdf data ∈ v.commits.flatMap Commit.jobs)
    (hnew : ∀ m m' q q' x, m ≠ m' → IsCurrent v.db m q → IsCurrent v.db m' q' →
      q.cycleId = q'.cycleId → q.id = course.materialRequestId →
      x ∈ cb.questionUsages.map (·.questionId) →
      x ∉ v.db.printedQuestions q'.id course.courseId) : CycleInv catalog b := by
  refine h.of_grows hgrows ?_ ?_ ?_ hjobs ?_
  · rw [hdb, effect_catalog]
  · rw [hdb]
    simp [Callback.effect]
  · have hrows := ledger_effect cb incoming seen
      (fun u hu => hgrows.request (h.ledger u hu)) hrequest
    rwa [← hdb] at hrows
  · rw [hdb]
    exact apart_effect h.apart hnew

/-- A print that writes nothing keeps the invariant. -/
theorem commits_of_idle {t : CycleCtx} (hlog : ∀ db, t.log db = db) (hout : t.out = [])
    (outcome : Option CallbackOutcome) (v : CycleCommitted) :
    (cycleProtocol catalog).Commits cycle t (.printed outcome) v := by
  refine commits_of_after trivial fun v' _ hinv _ _ => ?_
  set b := v'.commit t (.printed outcome) (cycle.dispatched (.printed outcome)) with hb
  have hdb : b.db = v'.db := hlog v'.db
  have hgrows : Grows v' b := by
    refine ⟨?_, ?_, List.subset_append_left _ _⟩
    · rw [hdb]
      exact .refl [] v'.db
    · rw [hdb]
      exact fun _ h => h
  refine ⟨?_, ?_, hgrows⟩
  · refine hinv.of_grows hgrows (by rw [hdb]) (by rw [hdb]) ?_ (fun data hdata => ?_) ?_
    · rw [hdb]
      exact hinv.ledger
    · simpa [hb, hout, cycle] using hdata
    · rw [hdb]
      exact hinv.apart
  · rw [hdb]
    exact .refl _ v'.db

/-- A print of a received job follows the protocol. -/
theorem wp_print {source : Job} {id since : ℕ} {s : CycleCommitted} (hjob : Carries s job)
    (hcatalog : s.db.catalog = catalog) :
    (cycleProtocol catalog).Wp ((cycleProtocol catalog).Commits cycle)
      (cycle.program (.print source job run)) (Context.opened id (.print source job run) since)
      s := by
  have hguar : ∀ held a b, (cycleProtocol catalog).Guar held a b → LockFrame held a.db b.db :=
    fun _ _ _ h => h.1
  set t : CycleCtx := Context.opened id (.print source job run) since with ht
  have hnothing : ∀ outcome v, (cycleProtocol catalog).Commits cycle t (.printed outcome) v :=
    commits_of_idle (fun _ => rfl) rfl
  refine (wp_bind _ _ _ _ _).mpr ?_
  refine wp_select trivial fun v₀ hafter₀ hinv₀ => ?_
  have hview : t.view v₀ = v₀.db := rfl
  rw [hview]
  cases hid : job.dist.courseRequestId with
  | none => exact hnothing none v₀
  | some courseId =>
    have hgrows₀ := grows_of_after hafter₀
    have hjob₀ : Carries v₀ job :=
      hgrows₀.carries (hinv₀.constant.trans hcatalog.symm) hjob
    set slots := v₀.db.courseSlots job.materialRequestId job.dist.courseId with hslots
    have hreports := reports_reported hid run slots
    refine (wp_bind _ _ _ _ _).mpr ?_
    rw [Callback.execute_of_reports hreports]
    refine wp_handleStatus hguar (fun _ => rfl) rfl rfl (fun _ _ _ _ _ _ => trivial)
      (fun v _ _ _ => hnothing _ v) (fun v _ _ _ _ _ => hnothing _ v)
      (fun _ _ _ _ _ _ => trivial) ?_
    intro u event course seen v₁ v₂ hafter₁ _ hfind _ _ hhandled
    refine commits_of_after trivial fun v hafter hinv _ hpre => ?_
    have hlater := hhandled.mono hguar hafter
    have hkey : course.id = courseId := Db.course_id_of_find hfind
    have hload : v₁.db.courses.find course.id = some course := hkey ▸ hfind
    have hframe := hlater.lockFrame hguar hload
    -- from the read of the slots to the commit
    have hgrows : Grows v₀ v := by
      obtain ⟨w, hw, _, _, hv⟩ := hlater.claimed
      exact (grows_of_after hafter₁).trans ((grows_of_after hw).trans (grows_of_after hv))
    have hjob₁ := (grows_of_after hafter₁).frame.course
    obtain ⟨c, hc, hr, hk⟩ := hjob₀.course courseId hid
    obtain ⟨c', hc', hr', hk'⟩ := hjob₁ courseId c hc
    obtain rfl : c' = course := Option.some.inj (hc'.symm.trans hfind)
    have hplace : c'.materialRequestId = job.materialRequestId ∧ c'.courseId = job.dist.courseId :=
      ⟨hr'.trans hr, hk'.trans hk⟩
    set cb := job.report run slots with hcb
    set b := v.commit u (.printed (some (.applied event))) [] with hb
    have hdb : b.db = cb.effect (job.reported run slots) c' seen v.db := hlater.effect
    have hcommit : Grows v b := by
      refine ⟨hframe [] (by simp), ?_, List.subset_append_left _ _⟩
      rw [hdb]
      simp [Callback.effect]
    have hrequest : (b.db.requests.find c'.materialRequestId).isSome := by
      rw [hplace.1]
      exact (hgrows.trans hcommit).request hjob₀.request
    have hjobs : ∀ data, Job.generatePdf data ∈ b.commits.flatMap Commit.jobs →
        Job.generatePdf data ∈ v.commits.flatMap Commit.jobs := by
      intro data hdata
      rw [hb, Snapshot.commit_commits, List.flatMap_append] at hdata
      rcases List.mem_append.mp hdata with hold | hnew
      · exact hold
      · simp only [List.flatMap_cons, List.flatMap_nil, List.append_nil, hlater.out] at hnew
        obtain ⟨_, hmerge⟩ := of_mem_mergeJobs hnew
        cases hmerge
    refine ⟨cycleInv_effect hinv hdb hcommit hrequest hjobs ?_, hframe, hcommit⟩
    intro m m' q q' x hne hq hq' hcycle hqr hx hx'
    obtain ⟨herror, hplan⟩ := plannable_of_report hinv₀ hjob₀ hx
    obtain ⟨g, dist, hplanned, hgr, hdist, hgk, hexcluded⟩ := hgrows.plannable hplan
    have hsubset := hpre event rfl source job run g dist m m' q q' hlater.call herror hplanned hgr
      hdist hgk (hqr.trans hplace.1) hne hq hq' hcycle
    rw [hplace.2] at hx'
    exact hexcluded (hsubset hx')

end Worker

/-- What the worker receives carries what it relies on. -/
theorem carries_of_dispatched {catalog : Catalog} {s : CycleState}
    (hinv : CycleInv catalog s.toSnapshot) {source : Job} {job : CourseJob} {run : CourseRun}
    (hcond : NothingMissed s (.start (.print source job run)))
    (hsource : Dispatched s.toSnapshot source) (hjob : job ∈ source.courseJobs) :
    Carries s.toSnapshot job := by
  cases source with
  | generatePdf data => exact hinv.jobs data hsource job hjob
  | generate data =>
    obtain rfl := List.mem_singleton.mp hjob
    obtain ⟨c, q, hc, hr, hk, hq, _⟩ := hsource
    refine ⟨by rw [hq]; rfl, fun id hid => ?_, fun hempty => ?_⟩
    · obtain rfl := Option.some.inj hid
      exact ⟨c, hc, hr, hk⟩
    · exact absurd hempty (hcond.slots data _ run rfl)
  | mergePdf r tenantId => exact hsource.elim

/-- Generations and prints follow the protocol when no window is missed. -/
theorem cycleProtocol_sound (catalog : Catalog) : (cycleProtocol catalog).Sound cycle
    (fun s e => PrintsJobs s e ∧ NothingMissed s e) where
  starts := by
    intro s call hs hcond
    have hinv : CycleInv catalog s.toSnapshot := hs.inv
    cases call with
    | execute order =>
      have htopics := hcond.2.topics order rfl
      rw [hinv.constant] at htopics
      exact wp_execute hinv htopics
    | print source job run =>
      obtain ⟨hsource, hjob⟩ := hcond.1 source job run rfl
      exact wp_print (carries_of_dispatched hinv hcond.2 hsource hjob) hinv.constant
  pre := fun _ _ _ _ _ _ _ _ _ => trivial
  preCommit := by
    intro s t a _ ht hp hcond event ha
    subst ha
    exact hcond.2.window t ht event rfl hp
  stable := fun _ _ _ _ _ _ _ _ _ _ _ _ => trivial

/-- A tenant without materials satisfies the invariant. -/
theorem cycleInv_emptyTenant (catalog : Catalog) : CycleInv catalog ⟨emptyTenant catalog, []⟩ where
  constant := rfl
  slots := fun _ hslot => nomatch hslot
  ledger := fun _ hu => nomatch hu
  jobs := fun _ hdata => nomatch hdata
  apart := fun _ _ _ _ _ _ _ _ _ _ hx => nomatch hx

/-- The latest request of a material is its current one. -/
theorem LatestOf.isCurrent {db : Db} {m : MaterialId} {q : MaterialRequest} (h : LatestOf db m q) :
    IsCurrent db m q := by
  refine ⟨h.request, h.owner, fun mat r hmat hr => ?_⟩
  have hlatest := h.latest
  rw [hmat, Option.bind_some, hr] at hlatest
  exact Option.some.inj hlatest

/-- **No question is printed in two materials** of a cycle for the same course in the runs in which
every print commits while the exclusion list of its plan is still complete. -/
theorem neverRepeats_of_nothingMissed (catalog : Catalog) (s : CycleState)
    (hreach : cycle.Reaches (fun s e => PrintsJobs s e ∧ NothingMissed s e)
      (System.idle (emptyTenant catalog)) s) (m m' : MaterialId) (q q' : MaterialRequest)
    (hne : m ≠ m') (hq : LatestOf s.db m q) (hq' : LatestOf s.db m' q')
    (hcycle : q.cycleId = q'.cycleId) (_ : q.status.successTerminal = true)
    (_ : q'.status.successTerminal = true) (courseId : CatalogId) :
    List.Disjoint (s.db.printedQuestions q.id courseId) (s.db.printedQuestions q'.id courseId) := by
  have hstart : (cycleProtocol catalog).Consistent cycle (System.idle (emptyTenant catalog)) :=
    consistent_idle (cycleInv_emptyTenant catalog)
  have hinv := (consistent_of_reaches (cycleProtocol_sound catalog) hstart hreach).inv
  exact hinv.apart m m' q q' hne hq.isCurrent hq'.isCurrent hcycle courseId

/-- The material of a week, with one question on the only topic of course 5. -/
def weekOrder (week : ℕ) : GenerateOrder where
  tenantId := 1
  profileId := 1
  weekNumber := week
  requiresReview := false
  templateName := "Material"
  cycleId := 1
  company := none
  designTemplateId := none
  courses := [(⟨5, [⟨2, 3, [.easy]⟩]⟩, week)]
  bank := ⟨[(3, 100)], [⟨100, 43⟩]⟩
  random := []
  slotId := fun _ => week
  newMaterialId := week
  newRequestId := week
  distinct := by simp

/-- The catalog of a tenant whose course 5 has the topic 2. -/
def oneTopic : Catalog := ⟨[], [], [], [], [⟨2, 5⟩]⟩

/-- The worker prints the only course of the job of a week. -/
def weekPrint (week : ℕ) (excluded : List QuestionId) : CycleCall :=
  let dist : Distribution := ⟨5, [⟨2, 3, 1⟩], excluded, some week⟩
  .print
    (.generatePdf ⟨week, 1, 1, week, "Material", none, false, "BALOTARIO", [dist],
      ⟨1, "Colegio Odiseo Innova", "https://s3.aws.com/tenant-assets/odiseo-innova.png"⟩⟩)
    ⟨week, 1, 1, week, "Material", dist, [.student, .keys, .solutions]⟩
    ⟨[100, 101], [], none, some 4, 1000, 0, false⟩

/-- A list of events that prints nothing meets the condition on prints. -/
theorem printsJobs_of_no_print {events : List (Event CycleCall)}
    (h : ∀ source job run, .start (.print source job run) ∉ events) (s : CycleState)
    (e : Event CycleCall) (he : e ∈ events) : PrintsJobs s e := by
  rintro source job run rfl
  exact absurd he (h source job run)

/-- The latest request of a material, from its columns. -/
theorem exists_latestOf {db : Db} {m : MaterialId} {r : RequestId} {cycleId : Uuid}
    (hcolumns : (db.requests.find r).map (fun q => (q.status, q.materialId, q.cycleId)) =
      some (.completed, some m, cycleId))
    (hlatest : (db.materials.find m).bind (·.latestRequestId) = some r) :
    ∃ q, LatestOf db m q ∧ q.id = r ∧ q.status = .completed ∧ q.cycleId = cycleId := by
  obtain ⟨q, hq, hcolumns⟩ := Option.map_eq_some_iff.mp hcolumns
  simp only [Prod.mk.injEq] at hcolumns
  obtain ⟨hstatus, hm, hcycle⟩ := hcolumns
  have hid : q.id = r := Table.key_of_find hq
  subst hid
  exact ⟨q, ⟨hq, hm, hlatest⟩, rfl, hstatus, hcycle⟩

/-- A week whose subtopic has two questions. -/
def fullWeekOrder (week : ℕ) : GenerateOrder :=
  { weekOrder week with bank := ⟨[(3, 100), (3, 101)], [⟨100, 43⟩, ⟨101, 43⟩]⟩ }

/-- The first week is planned. -/
def firstPlanned : CycleState :=
  cycle.endState (System.idle (emptyTenant oneTopic))
    (.start (.execute (fullWeekOrder 1)) :: List.replicate 13 (.exec 0))

/-- The first week is being printed. -/
def firstPrinting : CycleState := cycle.endState firstPlanned [.start (weekPrint 1 [])]

/-- The first week is printed, and then the second is planned. -/
def secondPlanned : CycleState :=
  cycle.endState firstPrinting (List.replicate 11 (.exec 1) ++
    .start (.execute (fullWeekOrder 2)) :: List.replicate 13 (.exec 2))

/-- The second week is being printed. -/
def secondPrinting : CycleState := cycle.endState secondPlanned [.start (weekPrint 2 [101])]

/-- Both weeks are printed. -/
def bothPrinted : CycleState := cycle.endState secondPrinting (List.replicate 11 (.exec 3))

/-- Every question of another request is on the exclusion lists of the print that is under way. -/
def excludesOthers (s : CycleState) : Bool :=
  s.active.all fun t => match t.call with
    | .print _ job _ => s.commits.all fun c => match c.result with
      | .planned g _ => g.newRequestId != job.materialRequestId ||
        s.db.usages.rows.all fun u => u.materialRequestId == job.materialRequestId ||
          g.courses.all fun course => course.1.excludeQuestionIds.contains u.questionId
      | .printed _ => true
    | .execute _ => true

/-- Then the print misses nothing. -/
theorem nothingMissed_of_excludesOthers {s : CycleState} (h : excludesOthers s = true) (id : ℕ) :
    NothingMissed s (.exec id) where
  topics := fun _ he => nomatch he
  slots := fun _ _ _ he => nomatch he
  window := by
    intro t ht event _ _ source job run g dist m m' q q' hcall _ ⟨c, hc, result, hplan⟩ hg hdist _
      hq hne hcurrent hcurrent' _ x hx
    obtain ⟨u, hu, rfl⟩ := List.mem_map.mp hx
    obtain ⟨hrow, hcolumns⟩ := List.mem_filter.mp hu
    simp only [decide_eq_true_eq] at hcolumns
    obtain ⟨course, hcourse, rfl⟩ := List.mem_map.mp hdist
    have hexcludes := List.all_eq_true.mp h t ht
    simp only [hcall, List.all_eq_true] at hexcludes
    have hplanned := hexcludes c hc
    simp only [hplan, hg, bne_self_eq_false, Bool.false_or, List.all_eq_true, Bool.or_eq_true,
      beq_iff_eq, List.contains_iff_mem] at hplanned
    rcases hplanned u hrow with hsame | hexcluded
    · -- the row would be of the printed request, which is the current one of `m` alone
      have hid : q.id = q'.id := hq.trans (hsame.symm.trans hcolumns.1)
      have hrequest : q = q' :=
        Option.some.inj (hcurrent.request.symm.trans (hid ▸ hcurrent'.request))
      exact absurd (Option.some.inj (hcurrent.owner.symm.trans (hrequest ▸ hcurrent'.owner))) hne
    · exact hexcluded course hcourse

/-- The start of a print of a dispatched job meets the conditions. -/
theorem starts_weekPrint {week : ℕ} {excluded : List QuestionId} {s : CycleState}
    (h : ∀ source job run, weekPrint week excluded = .print source job run →
      source ∈ s.commits.flatMap Commit.jobs) :
    PrintsJobs s (.start (weekPrint week excluded)) ∧
      NothingMissed s (.start (weekPrint week excluded)) := by
  constructor
  · rintro source job run heq
    cases heq
    exact ⟨h _ _ _ rfl, List.mem_singleton_self _⟩
  · refine ⟨?_, ?_, ?_⟩
    · rintro order ⟨⟩
    · rintro data job run ⟨⟩
    · rintro t _ event ⟨⟩

/-- Events that start no call meet the conditions as long as no print misses anything. -/
theorem reaches_of_excludesOthers {s : CycleState} {events : List (Event CycleCall)}
    (hruns : (cycle.runEvents s events).isSome = true)
    (hstart : ∀ order, .start (.execute order) ∈ events → order = fullWeekOrder 1 ∨
      order = fullWeekOrder 2)
    (hprint : ∀ source job run, .start (.print source job run) ∉ events)
    (hcatalog : ∀ n < events.length, (cycle.endState s (events.take n)).db.catalog = oneTopic)
    (hexcludes : ∀ n < events.length, excludesOthers (cycle.endState s (events.take n)) = true) :
    cycle.Reaches (fun s e => PrintsJobs s e ∧ NothingMissed s e) s (cycle.endState s events) := by
  refine Machine.reaches_endState_of_steps hruns fun n e he => ?_
  have hn := (List.getElem?_eq_some_iff.mp he).1
  refine ⟨printsJobs_of_no_print hprint _ e (List.mem_of_getElem? he), ?_⟩
  cases e with
  | exec id => exact nothingMissed_of_excludesOthers (hexcludes n hn) id
  | abort id =>
    refine ⟨?_, ?_, ?_⟩
    · rintro order ⟨⟩
    · rintro data job run ⟨⟩
    · rintro t _ event ⟨⟩
  | start call =>
    refine ⟨?_, fun data job run heq => ?_, fun _ _ _ heq => nomatch heq⟩
    · rintro order ⟨⟩ course hcourse topic htopic t ht hid
      rw [hcatalog n hn] at ht
      obtain rfl := List.mem_singleton.mp ht
      rcases hstart order (List.mem_of_getElem? he) with rfl | rfl
      · obtain rfl := List.mem_singleton.mp hcourse
        rfl
      · obtain rfl := List.mem_singleton.mp hcourse
        rfl
    · cases heq
      exact absurd (List.mem_of_getElem? he) (hprint _ job run)

/-- The two weeks print different questions. -/
theorem neverRepeats_of_nothingMissed_bothPrinted :
    bothPrinted.db.printedQuestions 1 5 = [101] ∧ bothPrinted.db.printedQuestions 2 5 = [100] ∧
      List.Disjoint (bothPrinted.db.printedQuestions 1 5)
        (bothPrinted.db.printedQuestions 2 5) := by
  have hfirst : cycle.Reaches (fun s e => PrintsJobs s e ∧ NothingMissed s e)
      (System.idle (emptyTenant oneTopic)) firstPlanned :=
    reaches_of_excludesOthers (by decide +kernel) (by simp) (by simp) (by decide +kernel)
      (by decide +kernel)
  have hfirstPrinting : cycle.Reaches (fun s e => PrintsJobs s e ∧ NothingMissed s e)
      (System.idle (emptyTenant oneTopic)) firstPrinting := by
    refine hfirst.tail ⟨_, starts_weekPrint fun source job run heq => ?_, rfl⟩
    cases heq
    decide +kernel
  have hsecond : cycle.Reaches (fun s e => PrintsJobs s e ∧ NothingMissed s e)
      (System.idle (emptyTenant oneTopic)) secondPlanned :=
    hfirstPrinting.trans (reaches_of_excludesOthers (by decide +kernel) (by simp) (by simp)
      (by decide +kernel) (by decide +kernel))
  have hsecondPrinting : cycle.Reaches (fun s e => PrintsJobs s e ∧ NothingMissed s e)
      (System.idle (emptyTenant oneTopic)) secondPrinting := by
    refine hsecond.tail ⟨_, starts_weekPrint fun source job run heq => ?_, rfl⟩
    cases heq
    decide +kernel
  have hboth : cycle.Reaches (fun s e => PrintsJobs s e ∧ NothingMissed s e)
      (System.idle (emptyTenant oneTopic)) bothPrinted :=
    hsecondPrinting.trans (reaches_of_excludesOthers (by decide +kernel) (by simp) (by simp)
      (by decide +kernel) (by decide +kernel))
  obtain ⟨q, hlatest, hid, hstatus, hcycle⟩ : ∃ q, LatestOf bothPrinted.db 1 q ∧ q.id = 1 ∧
    q.status = .completed ∧ q.cycleId = 1 := exists_latestOf (by decide +kernel) (by decide +kernel)
  obtain ⟨q', hlatest', hid', hstatus', hcycle'⟩ : ∃ q, LatestOf bothPrinted.db 2 q ∧ q.id = 2 ∧
    q.status = .completed ∧ q.cycleId = 1 := exists_latestOf (by decide +kernel) (by decide +kernel)
  have hdisjoint := neverRepeats_of_nothingMissed oneTopic bothPrinted hboth 1 2 q q' (by decide)
    hlatest hlatest' (hcycle.trans hcycle'.symm) (by rw [hstatus]; rfl) (by rw [hstatus']; rfl) 5
  rw [hid, hid'] at hdisjoint
  exact ⟨by decide +kernel, by decide +kernel, hdisjoint⟩

/-- The materials of the first two weeks are planned, one after the other. -/
def twoPlans : List (Event CycleCall) :=
  .start (.execute (weekOrder 1)) :: List.replicate 13 (.exec 0) ++
    .start (.execute (weekOrder 2)) :: List.replicate 13 (.exec 1)

/-- The state in which both materials have been planned. -/
def plannedState : CycleState :=
  cycle.endState (System.idle (emptyTenant oneTopic)) twoPlans

/-- The state in which the worker prints both. -/
def printingState : CycleState :=
  cycle.endState plannedState [.start (weekPrint 1 []), .start (weekPrint 2 [])]

/-- The state in which both materials have been printed. -/
def printedState : CycleState :=
  cycle.endState printingState (List.replicate 11 (.exec 2) ++ List.replicate 11 (.exec 3))

/-- A question can be printed twice: both weeks are planned before either of them is printed, and
the ledger that the second plan reads is empty. -/
theorem not_neverRepeats : ¬NeverRepeats fun _ _ => True := by
  intro h
  have hplanned : cycle.Reaches (fun s e => PrintsJobs s e ∧ True)
      (System.idle (emptyTenant oneTopic)) plannedState := by
    refine Machine.reaches_endState (by decide +kernel) fun s e he =>
      ⟨printsJobs_of_no_print ?_ s e he, trivial⟩
    simp [twoPlans]
  have hstart : ∀ week, week = 1 ∨ week = 2 → ∀ s : CycleState,
      s.toSnapshot = plannedState.toSnapshot →
      PrintsJobs s (.start (weekPrint week [])) ∧ True := by
    intro week hweek s hs
    refine ⟨?_, trivial⟩
    intro source job run heq
    cases heq
    refine ⟨?_, List.mem_singleton_self _⟩
    rw [hs]
    rcases hweek with rfl | rfl
    · exact show _ ∈ plannedState.commits.flatMap Commit.jobs by decide +kernel
    · exact show _ ∈ plannedState.commits.flatMap Commit.jobs by decide +kernel
  have hfirst : cycle.Reaches (fun s e => PrintsJobs s e ∧ True)
      (System.idle (emptyTenant oneTopic))
      (cycle.endState plannedState [.start (weekPrint 1 [])]) :=
    hplanned.tail ⟨_, hstart 1 (.inl rfl) plannedState rfl, rfl⟩
  have hprinting : cycle.Reaches (fun s e => PrintsJobs s e ∧ True)
      (System.idle (emptyTenant oneTopic)) printingState :=
    hfirst.tail ⟨_, hstart 2 (.inr rfl) _ rfl, rfl⟩
  have hprinted : cycle.Reaches (fun s e => PrintsJobs s e ∧ True)
      (System.idle (emptyTenant oneTopic)) printedState := by
    refine hprinting.trans (Machine.reaches_endState (by decide +kernel) fun s e he =>
      ⟨printsJobs_of_no_print ?_ s e he, trivial⟩)
    simp
  obtain ⟨q, hlatest, hid, hstatus, hcycle⟩ : ∃ q, LatestOf printedState.db 1 q ∧ q.id = 1 ∧
    q.status = .completed ∧ q.cycleId = 1 := exists_latestOf (by decide +kernel) (by decide +kernel)
  obtain ⟨q', hlatest', hid', hstatus', hcycle'⟩ : ∃ q, LatestOf printedState.db 2 q ∧ q.id = 2 ∧
    q.status = .completed ∧ q.cycleId = 1 := exists_latestOf (by decide +kernel) (by decide +kernel)
  have hdisjoint := h oneTopic printedState hprinted 1 2 q q' (by decide) hlatest hlatest'
    (hcycle.trans hcycle'.symm) (by rw [hstatus]; rfl) (by rw [hstatus']; rfl) 5
  rw [hid, hid'] at hdisjoint
  have hboth : 100 ∈ printedState.db.printedQuestions 1 5 ∧
      100 ∈ printedState.db.printedQuestions 2 5 := by decide +kernel
  exact hdisjoint hboth.1 hboth.2

end Odiseo.Materials
