import Odiseo.Materials.Limits
import Odiseo.Materials.SerialCalls

/-!
# Week window and scope of a review

The window of a course is selected by `GenerateMaterialUseCase.execute`, again by
`ApproveMaterialReviewUseCase.execute`, and `GetMaterialReviewUseCase.execute` lists the units that
the reviewer may draw from. The first two ask for the scopes `CURRENT_WEEK` and `ACCUMULATIVE` only,
the last one for no scope at all: it lists the units of the week itself.
-/

namespace Odiseo.Materials

open Database

/-- `TemplateScope`. -/
inductive TemplateScope
  | currentWeek
  | accumulative
  | fullAccumulative
  deriving DecidableEq, Repr

/-- The scope of a template, as the use cases tell it apart. -/
def TemplateScope.stored : TemplateScope → Option Scope
  | .currentWeek => some .currentWeek
  | .accumulative => some .accumulative
  | .fullAccumulative => none

/-- A template with its courses, as `CreateCycleMaterialTemplateDto` and the validation of the
courses leave it. -/
structure MaterialProfile where
  id : Uuid
  cycleId : Uuid
  name : String
  scope : TemplateScope
  accumulationWeeks : Option ℕ
  courses : List TemplateCourse
  positive : ∀ k, accumulationWeeks = some k → 0 < k

/-- The columns of the template. -/
def MaterialProfile.template (profile : MaterialProfile) : CycleMaterialTemplate where
  id := profile.id
  name := profile.name
  scope := profile.scope.stored
  accumulationWeeks := profile.accumulationWeeks

/-- The weeks that a scope stands for, up to week `w`. -/
def TemplateScope.Covers (scope : TemplateScope) (accumulationWeeks : Option ℕ) (w week : ℕ) : Prop :=
  match scope, accumulationWeeks with
  | .currentWeek, _ => week = w
  | .accumulative, some k => max 1 (w + 1 - k) ≤ week ∧ week ≤ w
  | .accumulative, none => 1 ≤ week ∧ week ≤ w
  | .fullAccumulative, _ => 1 ≤ week ∧ week ≤ w

instance (scope : TemplateScope) (accumulationWeeks : Option ℕ) (w week : ℕ) :
    Decidable (scope.Covers accumulationWeeks w week) :=
  match scope, accumulationWeeks with
  | .currentWeek, _ => inferInstanceAs (Decidable (_ = _))
  | .accumulative, some _ => inferInstanceAs (Decidable (_ ∧ _))
  | .accumulative, none => inferInstanceAs (Decidable (_ ∧ _))
  | .fullAccumulative, _ => inferInstanceAs (Decidable (_ ∧ _))

/-- The active syllabus of a course in a cycle. -/
def activeSyllabus (catalog : Catalog) (courseId : CatalogId) (cycleId : Uuid) : Option Syllabus :=
  catalog.syllabuses.find? fun s =>
    s.courseId == courseId && s.cycleId == cycleId && s.isActive

/-- The rows of the active syllabus of a course in the weeks that the scope stands for. -/
def coveredRows (catalog : Catalog) (profile : MaterialProfile) (weekNumber : ℕ)
    (courseId : CatalogId) : List SyllabusDistribution :=
  match activeSyllabus catalog courseId profile.cycleId with
  | none => []
  | some syllabus => catalog.distributions.filter fun d =>
      d.syllabusId == syllabus.id &&
        decide (profile.scope.Covers profile.accumulationWeeks weekNumber d.weekNumber)

/-- The distributions that a generation selects for a course. -/
def generationWindow (catalog : Catalog) (profile : MaterialProfile) (weekNumber : ℕ)
    (courseId : CatalogId) : List SyllabusDistribution :=
  match activeSyllabus catalog courseId profile.cycleId with
  | none => []
  | some syllabus => distributionsOf catalog profile.template syllabus weekNumber

/-- The distributions that an approval selects for a course of its request. -/
def approvalWindow (catalog : Catalog) (template : Option CycleMaterialTemplate) (cycleId : Uuid)
    (weekNumber : ℕ) (courseId : CatalogId) : List SyllabusDistribution :=
  match template, activeSyllabus catalog courseId cycleId with
  | some template, some syllabus => distributionsOf catalog template syllabus weekNumber
  | _, _ => []

/-- What a generation throws before it writes. -/
inductive GenerationError
  | planning (e : PlanError)
  | http (e : HttpError)
  deriving DecidableEq, Repr

/-- `realDistributions`: the courses with an active syllabus and a window that is not empty, each
with its topics. The levels of each course are shuffled on their own. -/
def realDistributions (catalog : Catalog) (profile : MaterialProfile) (weekNumber : ℕ) :
    (ℕ → ℕ → ℕ) → List CatalogId → Except PlanError (List (CatalogId × List PlannedTopic))
  | _, [] => .ok []
  | shuffled, courseId :: courseIds =>
    match generationWindow catalog profile weekNumber courseId with
    | [] => realDistributions catalog profile weekNumber (fun i => shuffled (i + 1)) courseIds
    | dist :: distributions => do
      let topics ← planCourse (shuffled 0) (templateCourseOf profile.courses courseId)
        (dist :: distributions)
      let rest ← realDistributions catalog profile weekNumber (fun i => shuffled (i + 1)) courseIds
      pure ((courseId, topics) :: rest)

/-- The slots of a generation for the courses of its request, with the exclusion list of each
course. -/
def generatedSlots (catalog : Catalog) (profile : MaterialProfile) (weekNumber : ℕ)
    (courseIds : List CatalogId) (bank : QuestionBank) (excluded : CatalogId → List QuestionId)
    (shuffled : ℕ → ℕ → ℕ) (random : List (List ℕ)) : Except GenerationError (List ReviewSlot) :=
  match realDistributions catalog profile weekNumber shuffled courseIds with
  | .error e => .error (.planning e)
  | .ok [] => .error (.http (.badRequest
      "No hay distribución de sílabo configurada para la semana seleccionada en los cursos del perfil"))
  | .ok (entry :: entries) => .ok (buildReviewPlan bank random
      ((entry :: entries).map fun e =>
        ({ courseId := e.1, topics := e.2.map PlannedTopic.toPlan }, excluded e.1)))

/-- The courses of the slots of a review, each once. -/
def reviewCourses (catalog : Catalog) (slots : List ReviewSlot) : List CatalogId :=
  (slots.filterMap fun slot =>
    (catalog.topics.find? fun t => t.id == slot.topicId).map (·.courseId)).eraseDups

/-- An entry of `allowedSyllabusUnits`. -/
structure SyllabusUnit where
  courseId : CatalogId
  topicId : CatalogId
  subtopicId : CatalogId
  deriving DecidableEq, Repr

/-- `allowedSyllabusUnits`, of the slots of a review. -/
def allowedSyllabusUnits (catalog : Catalog) (cycleId : Uuid) (weekNumber : ℕ)
    (slots : List ReviewSlot) : List SyllabusUnit :=
  (reviewCourses catalog slots).flatMap fun courseId =>
    match activeSyllabus catalog courseId cycleId with
    | none => []
    | some syllabus => (catalog.distributions.filter fun d =>
        d.syllabusId == syllabus.id && d.weekNumber == weekNumber).map fun d =>
          { courseId, topicId := d.topicId, subtopicId := d.subtopicId }

/-- The windows of a generation and of an approval are those of the scope, and the review allows the
unit of each slot that was generated. -/
structure ScopeAgrees (catalog : Catalog) (profile : MaterialProfile) (weekNumber : ℕ)
    (courseIds : List CatalogId) : Prop where
  generation : ∀ courseId ∈ courseIds,
    generationWindow catalog profile weekNumber courseId =
      coveredRows catalog profile weekNumber courseId
  approval : ∀ courseId ∈ courseIds,
    approvalWindow catalog (some profile.template) profile.cycleId weekNumber courseId =
      coveredRows catalog profile weekNumber courseId
  allowed : ∀ bank excluded shuffled random slots,
    generatedSlots catalog profile weekNumber courseIds bank excluded shuffled random = .ok slots →
      ∀ slot ∈ slots, ∃ u ∈ allowedSyllabusUnits catalog profile.cycleId weekNumber slots,
        u.topicId = slot.topicId ∧ u.subtopicId = slot.subtopicId

/-- The rows that get a question: the first ones of each course, as many as the course has
questions. -/
def plannedRows (catalog : Catalog) (profile : MaterialProfile) (weekNumber : ℕ)
    (courseIds : List CatalogId) : List SyllabusDistribution :=
  courseIds.flatMap fun courseId => (coveredRows catalog profile weekNumber courseId).take
    (targetQuantity (templateCourseOf profile.courses courseId))

/-- A row of the week itself has the same unit, in the active syllabus of a course that one of the
planned topics belongs to. -/
def TaughtThisWeek (catalog : Catalog) (cycleId : Uuid) (weekNumber : ℕ)
    (rows : List SyllabusDistribution) (row : SyllabusDistribution) : Prop :=
  ∃ planned ∈ rows, ∃ topic, catalog.topics.find? (fun t => t.id == planned.topicId) = some topic ∧
    ∃ syllabus, activeSyllabus catalog topic.courseId cycleId = some syllabus ∧
      ∃ d ∈ catalog.distributions, d.syllabusId = syllabus.id ∧ d.weekNumber = weekNumber ∧
        d.topicId = row.topicId ∧ d.subtopicId = row.subtopicId

/-- A scope that no use case asks for covers no row, and each planned row is taught in the week
itself, unless a course with rows is overdrawn. -/
structure ScopeKept (catalog : Catalog) (profile : MaterialProfile) (weekNumber : ℕ)
    (courseIds : List CatalogId) : Prop where
  scope : profile.scope = .fullAccumulative → ∀ courseId ∈ courseIds,
    coveredRows catalog profile weekNumber courseId = []
  taught : (∃ courseId ∈ courseIds, coveredRows catalog profile weekNumber courseId ≠ [] ∧
      ∃ course, templateCourseOf profile.courses courseId = some course ∧ course.Overdrawn) ∨
    ∀ row ∈ plannedRows catalog profile weekNumber courseIds,
      TaughtThisWeek catalog profile.cycleId weekNumber
        (plannedRows catalog profile weekNumber courseIds) row

section Windows

variable {catalog : Catalog} {profile : MaterialProfile} {weekNumber : ℕ}

/-- Both windows of a course are the same. -/
theorem approvalWindow_eq (courseId : CatalogId) :
    approvalWindow catalog (some profile.template) profile.cycleId weekNumber courseId =
      generationWindow catalog profile weekNumber courseId := by
  unfold approvalWindow generationWindow
  cases activeSyllabus catalog courseId profile.cycleId <;> rfl

/-- Of the two scopes that the use cases ask for, they select the rows. -/
theorem distributionsOf_eq (syllabus : Syllabus) (hscope : profile.scope ≠ .fullAccumulative) :
    distributionsOf catalog profile.template syllabus weekNumber =
      catalog.distributions.filter fun d => d.syllabusId == syllabus.id &&
        decide (profile.scope.Covers profile.accumulationWeeks weekNumber d.weekNumber) := by
  unfold distributionsOf MaterialProfile.template
  have hpositive := profile.positive
  cases hs : profile.scope with
  | currentWeek =>
    refine List.filter_congr fun d _ => ?_
    rw [Bool.beq_eq_decide_eq d.weekNumber]
    rfl
  | accumulative =>
    cases hk : profile.accumulationWeeks with
    | none =>
      refine List.filter_congr fun d _ => ?_
      rw [Bool.eq_iff_iff]
      simp only [Bool.and_eq_true, beq_iff_eq, decide_eq_true_eq, and_assoc]
      rfl
    | some k =>
      have hne := Nat.pos_iff_ne_zero.mp (hpositive k hk)
      refine List.filter_congr fun d _ => ?_
      cases k with
      | zero => exact absurd rfl hne
      | succ k =>
        rw [Bool.eq_iff_iff]
        simp only [Bool.and_eq_true, beq_iff_eq, decide_eq_true_eq, and_assoc]
        rfl
  | fullAccumulative => exact absurd hs hscope

/-- **The window of a course** is what the scope covers, or the scope is the one that no use case
asks for. -/
theorem generationWindow_eq (hscope : profile.scope ≠ .fullAccumulative) (courseId : CatalogId) :
    generationWindow catalog profile weekNumber courseId =
      coveredRows catalog profile weekNumber courseId := by
  unfold generationWindow coveredRows
  split
  · rfl
  · exact distributionsOf_eq _ hscope

/-- That scope selects nothing. -/
theorem generationWindow_full (hscope : profile.scope = .fullAccumulative) (courseId : CatalogId) :
    generationWindow catalog profile weekNumber courseId = [] := by
  unfold generationWindow
  split
  · rfl
  · unfold distributionsOf MaterialProfile.template
    rw [hscope]
    rfl

/-- The jobs of an approval carry its window. -/
theorem run_collectJobs_window (ctx : MaterialReviewContext) (request : MaterialRequest)
    (company : Option Company) (template : Option CycleMaterialTemplate)
    (courses : List MaterialRequestCourse) (db : Db) :
    (collectJobs ctx request company template courses).run db =
      .ok (courses.map fun course => generateJob ctx request company template course
        (approvalWindow db.catalog template request.cycleId request.weekNumber course.courseId),
        db, []) := by
  induction courses with
  | nil => rfl
  | cons course courses ih =>
    have hrest : ∀ distributions, ((collectJobs ctx request company template courses).bind
        fun jobs => .done (generateJob ctx request company template course distributions ::
          jobs)).run db = .ok (generateJob ctx request company template course distributions ::
            courses.map fun course => generateJob ctx request company template course
              (approvalWindow db.catalog template request.cycleId request.weekNumber
                course.courseId), db, []) := by
      intro distributions
      rw [Program.run_bind, ih]
      rfl
    unfold collectJobs
    simp only [Program.bind_eq, Program.run_select_bind, List.map_cons]
    cases template with
    | none => exact hrest _
    | some template =>
      cases hsyllabus : activeSyllabus db.catalog course.courseId request.cycleId with
      | none =>
        have hwindow : approvalWindow db.catalog (some template) request.cycleId request.weekNumber
            course.courseId = [] := by
          unfold approvalWindow
          rw [hsyllabus]
        unfold activeSyllabus at hsyllabus
        rw [hwindow, hsyllabus]
        exact hrest _
      | some syllabus =>
        have hwindow : approvalWindow db.catalog (some template) request.cycleId request.weekNumber
            course.courseId =
              distributionsOf db.catalog template syllabus request.weekNumber := by
          unfold approvalWindow
          rw [hsyllabus]
        unfold activeSyllabus at hsyllabus
        rw [hwindow, hsyllabus]
        exact hrest _

end Windows

section Units

/-- The unit of a row. -/
def SyllabusDistribution.unit (d : SyllabusDistribution) : CatalogId × CatalogId :=
  (d.topicId, d.subtopicId)

/-- The unit of a slot. -/
def ReviewSlot.unit (slot : ReviewSlot) : CatalogId × CatalogId := (slot.topicId, slot.subtopicId)

/-- The unit of a topic. -/
def PlannedTopic.unit (t : PlannedTopic) : CatalogId × CatalogId := (t.topicId, t.subtopicId)

/-- A distribution has a share when it is one of the first. -/
theorem shareOf_pos_iff {target n idx : ℕ} (hidx : idx < n) :
    0 < shareOf target n idx ↔ idx < target := by
  have hdiv := Nat.div_add_mod target n
  have hmod := Nat.mod_lt target (Nat.zero_lt_of_lt hidx)
  unfold shareOf
  by_cases hlt : target < n
  · rw [Nat.div_eq_of_lt hlt, Nat.mod_eq_of_lt hlt]
    split <;> omega
  · have hpos : 0 < target / n := Nat.div_pos (Nat.le_of_not_lt hlt) (Nat.zero_lt_of_lt hidx)
    split <;> omega

/-- The topics that are not empty are those of the first rows. -/
theorem unit_assignLevels {target n idx : ℕ} {pool : List QuestionDifficultyLevel}
    {distributions : List SyllabusDistribution} (hn : idx + distributions.length = n) :
    ((assignLevels target n idx pool distributions).filter fun t => 0 < t.quantity).map
        PlannedTopic.unit =
      (distributions.take (target - idx)).map SyllabusDistribution.unit := by
  induction distributions generalizing idx pool with
  | nil => simp [assignLevels]
  | cons dist distributions ih =>
    rw [List.length_cons] at hn
    have hshare : 0 < shareOf target n idx ↔ idx < target := shareOf_pos_iff (by omega)
    have htail := @ih (idx + 1) (pool.drop (shareOf target n idx)) (by omega)
    rw [assignLevels]
    by_cases hidx : idx < target
    · have hsucc : target - idx = (target - (idx + 1)) + 1 := by omega
      rw [List.filter_cons_of_pos (by simpa using hshare.mpr hidx), List.map_cons, htail, hsucc,
        List.take_succ_cons, List.map_cons]
      rfl
    · have hzero : target - idx = 0 := by omega
      have hzero' : target - (idx + 1) = 0 := by omega
      have hnot : ¬0 < shareOf target n idx := fun hpos => hidx (hshare.mp hpos)
      rw [List.filter_cons_of_neg (by simpa using hnot), htail, hzero, hzero']
      rfl

/-- **The units of a plan** are those of the first rows, as many as the course has questions. -/
theorem unit_planCourse {random : ℕ → ℕ} {templateCourse : Option TemplateCourse}
    {distributions : List SyllabusDistribution} {topics : List PlannedTopic}
    (hplan : planCourse random templateCourse distributions = .ok topics) :
    topics.map PlannedTopic.unit = (distributions.take (targetQuantity templateCourse)).map
      SyllabusDistribution.unit := by
  unfold planCourse at hplan
  cases hpool : levelsPool (quota templateCourse) with
  | error e =>
    rw [hpool] at hplan
    cases hplan
  | ok pool =>
    rw [hpool] at hplan
    cases hplan
    exact unit_assignLevels (Nat.zero_add _)

/-- The slots of a topic have its unit, one for each level. -/
theorem unit_planTopic (bank : QuestionBank) (random : ℕ → ℕ) (excluded : List QuestionId)
    (topic : TopicPlan) : (planTopic bank random excluded topic).map ReviewSlot.unit =
      List.replicate topic.expectedLevels.length (topic.topicId, topic.subtopicId) := by
  have hlength := congrArg List.length (expectedLevel_planTopic bank random excluded topic)
  rw [List.length_map, List.length_map] at hlength
  rw [List.eq_replicate_iff, List.length_map, hlength]
  refine ⟨rfl, ?_⟩
  intro u hu
  obtain ⟨slot, hslot, rfl⟩ := List.mem_map.mp hu
  obtain ⟨_, _, rfl⟩ := List.mem_map.mp hslot
  rfl

/-- The units of the slots of a course. -/
theorem mem_unit_planTopics {bank : QuestionBank} {excluded : List QuestionId}
    {random : List (List ℕ)} {topics : List PlannedTopic}
    (hlevels : ∀ t ∈ topics, t.expectedLevels ≠ []) (u : CatalogId × CatalogId) :
    u ∈ (planTopics bank excluded random (topics.map PlannedTopic.toPlan)).map ReviewSlot.unit ↔
      u ∈ topics.map PlannedTopic.unit := by
  induction topics generalizing random with
  | nil => rfl
  | cons t topics ih =>
    have htail := @ih random.tail fun t' ht' => hlevels t' (List.mem_cons_of_mem t ht')
    rw [List.map_cons, planTopics, List.map_append, List.mem_append, unit_planTopic, htail,
      List.mem_replicate, List.map_cons, List.mem_cons]
    refine or_congr ?_ Iff.rfl
    constructor
    · exact fun hu => hu.2
    · intro hu
      exact ⟨fun hnil => hlevels t List.mem_cons_self (List.length_eq_zero_iff.mp hnil), hu⟩

/-- The units of the slots of all courses. -/
theorem mem_unit_buildReviewPlan {bank : QuestionBank} {excluded : CatalogId → List QuestionId}
    {random : List (List ℕ)} {entries : List (CatalogId × List PlannedTopic)}
    (hlevels : ∀ e ∈ entries, ∀ t ∈ e.2, t.expectedLevels ≠ []) (u : CatalogId × CatalogId) :
    u ∈ (buildReviewPlan bank random (entries.map fun e =>
        ({ courseId := e.1, topics := e.2.map PlannedTopic.toPlan }, excluded e.1))).map
          ReviewSlot.unit ↔
      u ∈ entries.flatMap fun e => e.2.map PlannedTopic.unit := by
  rw [← flatten_coursePlans]
  induction entries generalizing random with
  | nil => rfl
  | cons e entries ih =>
    have htail := @ih (random.drop (e.2.map PlannedTopic.toPlan).length) fun e' he' =>
      hlevels e' (List.mem_cons_of_mem e he')
    rw [List.map_cons, coursePlans, List.flatten_cons, List.map_append, List.mem_append,
      List.flatMap_cons, List.mem_append, mem_unit_planTopics (hlevels e List.mem_cons_self), htail]

end Units

section Generation

variable {catalog : Catalog} {profile : MaterialProfile} {weekNumber : ℕ}

/-- Only a template course that is overdrawn has a negative number of hard questions. -/
theorem hard_neg_iff_exists (templateCourse : Option TemplateCourse) :
    (quota templateCourse).hard < 0 ↔
      ∃ course, templateCourse = some course ∧ course.Overdrawn := by
  cases templateCourse with
  | none =>
    constructor
    · intro hneg
      exact absurd hneg (by decide)
    · rintro ⟨course, hcourse, _⟩
      cases hcourse
  | some course =>
    rw [hard_neg_iff]
    constructor
    · exact fun hover => ⟨course, rfl, hover⟩
    · rintro ⟨_, hcourse, hover⟩
      cases hcourse
      exact hover

/-- **What the planning of the courses has made:** no course with a window was overdrawn, each
topic has levels, and the units are those of the first rows of each window. -/
theorem realDistributions_spec {shuffled : ℕ → ℕ → ℕ} {courseIds : List CatalogId}
    {entries : List (CatalogId × List PlannedTopic)}
    (h : realDistributions catalog profile weekNumber shuffled courseIds = .ok entries) :
    (∀ courseId ∈ courseIds, generationWindow catalog profile weekNumber courseId ≠ [] →
        0 ≤ (quota (templateCourseOf profile.courses courseId)).hard) ∧
      (∀ e ∈ entries, ∀ t ∈ e.2, t.expectedLevels ≠ []) ∧
      (entries.flatMap fun e => e.2.map PlannedTopic.unit) =
        (courseIds.flatMap fun courseId =>
          (generationWindow catalog profile weekNumber courseId).take
            (targetQuantity (templateCourseOf profile.courses courseId))).map
              SyllabusDistribution.unit := by
  induction courseIds generalizing shuffled entries with
  | nil =>
    cases h
    exact ⟨fun _ hmem => (List.not_mem_nil hmem).elim, fun _ hmem => (List.not_mem_nil hmem).elim,
      rfl⟩
  | cons courseId courseIds ih =>
    unfold realDistributions at h
    rw [List.flatMap_cons, List.map_append]
    split at h
    · rename_i hwindow
      obtain ⟨hhard, hlevels, hunits⟩ := ih h
      refine ⟨?_, hlevels, ?_⟩
      · intro c hc hne
        rcases List.mem_cons.mp hc with rfl | hc
        · exact absurd hwindow hne
        · exact hhard c hc hne
      · rw [hunits, hwindow, List.take_nil]
        rfl
    · rename_i dist distributions hwindow
      cases hplan : planCourse (shuffled 0) (templateCourseOf profile.courses courseId)
          (dist :: distributions) with
      | error e =>
        rw [hplan] at h
        cases h
      | ok topics =>
        rw [hplan] at h
        cases hrest : realDistributions catalog profile weekNumber (fun i => shuffled (i + 1))
            courseIds with
        | error e =>
          rw [hrest] at h
          cases h
        | ok rest =>
          rw [hrest] at h
          cases h
          obtain ⟨hhard, hlevels, hunits⟩ := ih hrest
          obtain ⟨_, _, hpos, hlength, hnonneg, _⟩ := plan_spec (List.cons_ne_nil _ _) hplan
          refine ⟨?_, ?_, ?_⟩
          · intro c hc hne
            rcases List.mem_cons.mp hc with rfl | hc
            · exact hnonneg
            · exact hhard c hc hne
          · intro e he t ht
            rcases List.mem_cons.mp he with rfl | he
            · have hquantity := hpos t ht
              rw [← hlength t ht] at hquantity
              exact List.length_pos_iff.mp hquantity
            · exact hlevels e he t ht
          · rw [List.flatMap_cons, hunits, hwindow, unit_planCourse hplan]

/-- The courses are planned when none of them with a window is overdrawn. -/
theorem exists_realDistributions (shuffled : ℕ → ℕ → ℕ) {courseIds : List CatalogId}
    (hhard : ∀ courseId ∈ courseIds, generationWindow catalog profile weekNumber courseId ≠ [] →
      0 ≤ (quota (templateCourseOf profile.courses courseId)).hard) :
    ∃ entries, realDistributions catalog profile weekNumber shuffled courseIds = .ok entries := by
  induction courseIds generalizing shuffled with
  | nil => exact ⟨[], rfl⟩
  | cons courseId courseIds ih =>
    obtain ⟨rest, hrest⟩ := ih (fun i => shuffled (i + 1)) fun c hc =>
      hhard c (List.mem_cons_of_mem courseId hc)
    unfold realDistributions
    split
    · exact ⟨rest, hrest⟩
    · rename_i dist distributions hwindow
      have hne : generationWindow catalog profile weekNumber courseId ≠ [] := by
        rw [hwindow]
        exact List.cons_ne_nil _ _
      obtain ⟨topics, hplan⟩ := (exists_plan_iff (shuffled 0) (dist :: distributions)).mpr
        (hhard courseId List.mem_cons_self hne)
      refine ⟨(courseId, topics) :: rest, ?_⟩
      rw [hplan, hrest]
      rfl

/-- **The units of the slots of a generation** are those of the first rows of each window. -/
theorem mem_unit_generatedSlots {courseIds : List CatalogId} {bank : QuestionBank}
    {excluded : CatalogId → List QuestionId} {shuffled : ℕ → ℕ → ℕ} {random : List (List ℕ)}
    {slots : List ReviewSlot} (h : generatedSlots catalog profile weekNumber courseIds bank excluded
      shuffled random = .ok slots) (u : CatalogId × CatalogId) :
    u ∈ slots.map ReviewSlot.unit ↔
      u ∈ (courseIds.flatMap fun courseId =>
        (generationWindow catalog profile weekNumber courseId).take
          (targetQuantity (templateCourseOf profile.courses courseId))).map
            SyllabusDistribution.unit := by
  unfold generatedSlots at h
  split at h
  · cases h
  · cases h
  · rename_i entry entries hreal
    cases h
    obtain ⟨_, hlevels, hunits⟩ := realDistributions_spec hreal
    rw [mem_unit_buildReviewPlan hlevels, hunits]

/-- A generation with slots has no course with a window that is overdrawn. -/
theorem hard_nonneg_of_generatedSlots {courseIds : List CatalogId} {bank : QuestionBank}
    {excluded : CatalogId → List QuestionId} {shuffled : ℕ → ℕ → ℕ} {random : List (List ℕ)}
    {slots : List ReviewSlot} (h : generatedSlots catalog profile weekNumber courseIds bank excluded
      shuffled random = .ok slots) {courseId : CatalogId} (hmem : courseId ∈ courseIds)
    (hne : generationWindow catalog profile weekNumber courseId ≠ []) :
    0 ≤ (quota (templateCourseOf profile.courses courseId)).hard := by
  unfold generatedSlots at h
  split at h
  · cases h
  · cases h
  · rename_i entry entries hreal
    exact (realDistributions_spec hreal).1 courseId hmem hne

/-- The courses of a review are those that the topics of its slots belong to. -/
theorem mem_reviewCourses {slots : List ReviewSlot} {courseId : CatalogId} :
    courseId ∈ reviewCourses catalog slots ↔ ∃ slot ∈ slots, ∃ topic,
      catalog.topics.find? (fun t => t.id == slot.topicId) = some topic ∧
        topic.courseId = courseId := by
  unfold reviewCourses
  rw [List.mem_eraseDups, List.mem_filterMap]
  simp only [Option.map_eq_some_iff]

/-- **The review allows a unit** when it is taught in the week itself, in the active syllabus of a
course of the slots. -/
theorem exists_allowed_iff {rows : List SyllabusDistribution} {slots : List ReviewSlot}
    (hunits : ∀ u, u ∈ slots.map ReviewSlot.unit ↔ u ∈ rows.map SyllabusDistribution.unit)
    (row : SyllabusDistribution) :
    (∃ u ∈ allowedSyllabusUnits catalog profile.cycleId weekNumber slots,
      u.topicId = row.topicId ∧ u.subtopicId = row.subtopicId) ↔
        TaughtThisWeek catalog profile.cycleId weekNumber rows row := by
  constructor
  · rintro ⟨u, hu, htopic, hsubtopic⟩
    obtain ⟨courseId, hcourse, hu⟩ := List.mem_flatMap.mp hu
    obtain ⟨slot, hslot, topic, hfind, rfl⟩ := mem_reviewCourses.mp hcourse
    obtain ⟨planned, hplanned, hunit⟩ :=
      List.mem_map.mp ((hunits slot.unit).mp (List.mem_map_of_mem hslot))
    have hid : planned.topicId = slot.topicId := congrArg Prod.fst hunit
    cases hsyllabus : activeSyllabus catalog topic.courseId profile.cycleId with
    | none =>
      rw [hsyllabus] at hu
      cases hu
    | some syllabus =>
      rw [hsyllabus] at hu
      obtain ⟨d, hd, rfl⟩ := List.mem_map.mp hu
      obtain ⟨hmem, hd⟩ := List.mem_filter.mp hd
      rw [Bool.and_eq_true, beq_iff_eq, beq_iff_eq] at hd
      rw [← hid] at hfind
      exact ⟨planned, hplanned, topic, hfind, syllabus, hsyllabus, d, hmem, hd.1, hd.2, htopic,
        hsubtopic⟩
  · rintro ⟨planned, hplanned, topic, hfind, syllabus, hsyllabus, d, hmem, hid, hweek, htopic,
      hsubtopic⟩
    obtain ⟨slot, hslot, hunit⟩ :=
      List.mem_map.mp ((hunits planned.unit).mpr (List.mem_map_of_mem hplanned))
    have hslotId : slot.topicId = planned.topicId := congrArg Prod.fst hunit
    rw [← hslotId] at hfind
    refine ⟨⟨topic.courseId, d.topicId, d.subtopicId⟩, ?_, htopic, hsubtopic⟩
    refine List.mem_flatMap.mpr ⟨topic.courseId,
      mem_reviewCourses.mpr ⟨slot, hslot, topic, hfind, rfl⟩, ?_⟩
    rw [hsyllabus]
    refine List.mem_map_of_mem (List.mem_filter.mpr ⟨hmem, ?_⟩)
    rw [Bool.and_eq_true, beq_iff_eq, beq_iff_eq]
    exact ⟨hid, hweek⟩

/-- With a scope that the use cases ask for, the rows that get a question are the first ones of the
windows. -/
theorem plannedRows_eq (hscope : profile.scope ≠ .fullAccumulative) (courseIds : List CatalogId) :
    (courseIds.flatMap fun courseId => (generationWindow catalog profile weekNumber courseId).take
        (targetQuantity (templateCourseOf profile.courses courseId))) =
      plannedRows catalog profile weekNumber courseIds := by
  unfold plannedRows
  simp only [generationWindow_eq hscope]

/-- A generation whose courses are not overdrawn has slots, when there are rows for them. -/
theorem exists_generatedSlots (hscope : profile.scope ≠ .fullAccumulative)
    {courseIds : List CatalogId} {row : SyllabusDistribution}
    (hrow : row ∈ plannedRows catalog profile weekNumber courseIds)
    (hover : ¬∃ courseId ∈ courseIds, coveredRows catalog profile weekNumber courseId ≠ [] ∧
      ∃ course, templateCourseOf profile.courses courseId = some course ∧ course.Overdrawn) :
    ∃ slots, generatedSlots catalog profile weekNumber courseIds ⟨[], []⟩ (fun _ => [])
      (fun _ => id) [] = .ok slots := by
  have hhard : ∀ courseId ∈ courseIds, generationWindow catalog profile weekNumber courseId ≠ [] →
      0 ≤ (quota (templateCourseOf profile.courses courseId)).hard := by
    intro courseId hmem hne
    rw [generationWindow_eq hscope] at hne
    by_contra hneg
    exact hover ⟨courseId, hmem, hne, (hard_neg_iff_exists _).mp (Int.not_le.mp hneg)⟩
  obtain ⟨entries, hreal⟩ := exists_realDistributions (fun _ => id) hhard
  have hunits := (realDistributions_spec hreal).2.2
  rw [plannedRows_eq hscope] at hunits
  unfold generatedSlots
  rw [hreal]
  cases entries with
  | nil =>
    have hmem := List.mem_map_of_mem (f := SyllabusDistribution.unit) hrow
    rw [← hunits] at hmem
    cases hmem
  | cons entry entries => exact ⟨_, rfl⟩

/-- The scope that no use case asks for agrees when it covers no row. -/
theorem scopeAgrees_iff_of_full (hscope : profile.scope = .fullAccumulative)
    (courseIds : List CatalogId) : ScopeAgrees catalog profile weekNumber courseIds ↔
      ∀ courseId ∈ courseIds, coveredRows catalog profile weekNumber courseId = [] := by
  have hwindow : ∀ courseId, generationWindow catalog profile weekNumber courseId = [] :=
    generationWindow_full hscope
  constructor
  · intro hagrees courseId hmem
    exact (hagrees.generation courseId hmem).symm.trans (hwindow courseId)
  · intro hcovered
    refine ⟨fun courseId hmem => ?_, fun courseId hmem => ?_, ?_⟩
    · rw [hwindow, hcovered courseId hmem]
    · rw [approvalWindow_eq, hwindow, hcovered courseId hmem]
    · intro bank excluded shuffled random slots hslots slot hslot
      have hunit := (mem_unit_generatedSlots hslots slot.unit).mp (List.mem_map_of_mem hslot)
      obtain ⟨row, hrow, _⟩ := List.mem_map.mp hunit
      obtain ⟨courseId, _, hrow⟩ := List.mem_flatMap.mp hrow
      rw [hwindow, List.take_nil] at hrow
      cases hrow

/-- A scope that the use cases ask for agrees when its planned rows are taught in the week. -/
theorem scopeAgrees_iff_of_ne (hscope : profile.scope ≠ .fullAccumulative)
    (courseIds : List CatalogId) : ScopeAgrees catalog profile weekNumber courseIds ↔
      ((∃ courseId ∈ courseIds, coveredRows catalog profile weekNumber courseId ≠ [] ∧
        ∃ course, templateCourseOf profile.courses courseId = some course ∧ course.Overdrawn) ∨
      ∀ row ∈ plannedRows catalog profile weekNumber courseIds,
        TaughtThisWeek catalog profile.cycleId weekNumber
          (plannedRows catalog profile weekNumber courseIds) row) := by
  constructor
  · intro hagrees
    by_cases hover : ∃ courseId ∈ courseIds,
        coveredRows catalog profile weekNumber courseId ≠ [] ∧
          ∃ course, templateCourseOf profile.courses courseId = some course ∧ course.Overdrawn
    · exact Or.inl hover
    · right
      intro row hrow
      obtain ⟨slots, hslots⟩ := exists_generatedSlots hscope hrow hover
      have hunits := mem_unit_generatedSlots hslots
      rw [plannedRows_eq hscope] at hunits
      obtain ⟨slot, hslot, hunit⟩ :=
        List.mem_map.mp ((hunits row.unit).mpr (List.mem_map_of_mem hrow))
      obtain ⟨u, hu, htopic, hsubtopic⟩ := hagrees.allowed _ _ _ _ _ hslots slot hslot
      exact (exists_allowed_iff hunits row).mp ⟨u, hu,
        htopic.trans (congrArg Prod.fst hunit), hsubtopic.trans (congrArg Prod.snd hunit)⟩
  · intro hkept
    refine ⟨fun courseId _ => generationWindow_eq hscope courseId, fun courseId _ => ?_, ?_⟩
    · rw [approvalWindow_eq, generationWindow_eq hscope]
    · intro bank excluded shuffled random slots hslots slot hslot
      have hunits := mem_unit_generatedSlots hslots
      rw [plannedRows_eq hscope] at hunits
      obtain ⟨row, hrow, hunit⟩ :=
        List.mem_map.mp ((hunits slot.unit).mp (List.mem_map_of_mem hslot))
      rcases hkept with ⟨courseId, hmem, hne, hover⟩ | htaught
      · rw [← generationWindow_eq hscope] at hne
        have hnonneg := hard_nonneg_of_generatedSlots hslots hmem hne
        have hneg := (hard_neg_iff_exists _).mpr hover
        omega
      · obtain ⟨u, hu, htopic, hsubtopic⟩ := (exists_allowed_iff hunits row).mpr (htaught row hrow)
        exact ⟨u, hu, htopic.trans (congrArg Prod.fst hunit),
          hsubtopic.trans (congrArg Prod.snd hunit)⟩

end Generation

/-- **The windows and the review agree** exactly when the scope is kept: for every catalog, every
template that the DTO accepts, every week and every list of courses. -/
theorem scopeAgrees_iff (catalog : Catalog) (profile : MaterialProfile) (weekNumber : ℕ)
    (courseIds : List CatalogId) : ScopeAgrees catalog profile weekNumber courseIds ↔
      ScopeKept catalog profile weekNumber courseIds := by
  by_cases hscope : profile.scope = .fullAccumulative
  · rw [scopeAgrees_iff_of_full hscope]
    constructor
    · intro hcovered
      refine ⟨fun _ => hcovered, Or.inr fun row hrow => ?_⟩
      obtain ⟨courseId, hmem, hrow⟩ := List.mem_flatMap.mp hrow
      rw [hcovered courseId hmem, List.take_nil] at hrow
      cases hrow
    · exact fun hkept => hkept.scope hscope
  · rw [scopeAgrees_iff_of_ne hscope]
    constructor
    · exact fun htaught => ⟨fun hfull => absurd hfull hscope, htaught⟩
    · exact fun hkept => hkept.taught

/-- A syllabus with a row in the first week. -/
def firstWeekCatalog : Catalog where
  companies := []
  templates := []
  syllabuses := [⟨1, 1, 1, true⟩]
  distributions := [⟨1, 1, 1, 1, 10⟩]
  topics := [⟨1, 1⟩]

/-- No number of weeks is given. -/
theorem pos_of_none_eq_some (k : ℕ) (h : none = some k) : 0 < k := by
  cases h

/-- A template that collects from the first week on. -/
def fullProfile : MaterialProfile where
  id := 1
  cycleId := 1
  name := "Simulacro"
  scope := .fullAccumulative
  accumulationWeeks := none
  courses := [tenHard]
  positive := pos_of_none_eq_some

/-- Its generation selects nothing. -/
theorem not_scopeAgrees_full : ¬ScopeAgrees firstWeekCatalog fullProfile 1 [1] := by
  intro hagrees
  have hwindow := hagrees.generation 1 List.mem_cons_self
  revert hwindow
  decide

end Odiseo.Materials
