import Odiseo.Materials.Planning

/-!
# Difficulty limits of a review

`GetMaterialReviewUseCase.execute` tells the reviewer how many questions of each difficulty a course
has. It computes the quota of the planning once more, and asks for missing counts where the
planning asks for counts that are missing or zero.
-/

namespace Odiseo.Materials

/-- An entry of `difficultyLimits`. -/
structure DifficultyLimits where
  courseId : CatalogId
  easy : ℕ
  medium : ℕ
  hard : ℤ
  deriving DecidableEq, Repr

/-- The template course of a course: the first one. -/
def templateCourseOf (courses : List TemplateCourse) (courseId : CatalogId) :
    Option TemplateCourse :=
  courses.find? fun tc => tc.courseId == courseId

/-- The limits of one course. -/
def limitsOf (courseId : CatalogId) (tc : Option TemplateCourse) : DifficultyLimits :=
  let easy := (tc.map (·.easyCount)).getD (targetQuantity tc * 2 / 5)
  let medium := (tc.map (·.mediumCount)).getD (targetQuantity tc * 2 / 5)
  { courseId
    easy
    medium
    hard := (tc.map fun c => (c.hardCount : ℤ)).getD ((targetQuantity tc : ℤ) - easy - medium) }

/-- `difficultyLimits`, of the courses of the review. -/
def difficultyLimits (courses : List TemplateCourse) (courseIds : List CatalogId) :
    List DifficultyLimits :=
  courseIds.map fun courseId => limitsOf courseId (templateCourseOf courses courseId)

/-- A planned topic, as `buildReviewPlan` reads it. -/
def PlannedTopic.toPlan (t : PlannedTopic) : TopicPlan where
  topicId := t.topicId
  subtopicId := t.subtopicId
  expectedLevels := t.expectedLevels

/-- The slots that a generation creates for a course: its topics are planned with one shuffle, and
filled with the random numbers of each topic. -/
def courseSlots (bank : QuestionBank) (excluded : List QuestionId) (shuffled : ℕ → ℕ)
    (random : List (List ℕ)) (templateCourse : Option TemplateCourse)
    (distributions : List SyllabusDistribution) : Except PlanError (List ReviewSlot) :=
  (planCourse shuffled templateCourse distributions).map fun topics =>
    planTopics bank excluded random (topics.map PlannedTopic.toPlan)

/-- How many slots expect a level. -/
def countLevel (level : QuestionDifficultyLevel) (slots : List ReviewSlot) : ℕ :=
  slots.countP fun slot => slot.expectedLevel == level.label

/-- The slots are as many of each difficulty as the limits say. -/
structure LimitsMet (limits : DifficultyLimits) (slots : List ReviewSlot) : Prop where
  easy : countLevel .easy slots = limits.easy
  medium : countLevel .medium slots = limits.medium
  hard : (countLevel .hard slots : ℤ) = limits.hard

/-- One count is zero, and its replacement and the other count together exceed the quantity. -/
def TemplateCourse.Overdrawn (course : TemplateCourse) : Prop :=
  (course.easyCount = 0 ∧
      course.questionsQuantity < course.questionsQuantity * 2 / 5 + course.mediumCount) ∨
    (course.mediumCount = 0 ∧
      course.questionsQuantity < course.questionsQuantity * 2 / 5 + course.easyCount)

/-- The labels tell the levels apart. -/
theorem label_inj {level level' : QuestionDifficultyLevel} :
    level.label = level'.label ↔ level = level' := by
  cases level <;> cases level' <;> decide

/-- The slots of a topic expect the levels of the topic, in their order. -/
theorem expectedLevel_planTopic (bank : QuestionBank) (random : ℕ → ℕ) (excluded : List QuestionId)
    (topic : TopicPlan) : (planTopic bank random excluded topic).map (·.expectedLevel) =
      topic.expectedLevels.map QuestionDifficultyLevel.label := by
  have hlength : (selectBestQuestions random random (topic.pool bank excluded) []
      (topic.expectedLevels.map some) false).length = topic.expectedLevels.length := by
    rw [selectBestQuestions_eq_picks, Picking.length_picks, List.length_map]
  change ((topic.expectedLevels.zip (selectBestQuestions random random (topic.pool bank excluded) []
    (topic.expectedLevels.map some) false)).map _).map _ = _
  rw [List.map_map]
  calc (topic.expectedLevels.zip (selectBestQuestions random random (topic.pool bank excluded) []
        (topic.expectedLevels.map some) false)).map (fun e => e.1.label)
      = ((topic.expectedLevels.zip (selectBestQuestions random random (topic.pool bank excluded) []
        (topic.expectedLevels.map some) false)).map Prod.fst).map
          QuestionDifficultyLevel.label := by
        rw [List.map_map]
        rfl
    _ = topic.expectedLevels.map QuestionDifficultyLevel.label := by
        rw [List.map_fst_zip (Nat.le_of_eq hlength.symm)]

/-- The slots of a course expect the levels of its topics. -/
theorem expectedLevel_planTopics (bank : QuestionBank) (excluded : List QuestionId)
    (random : List (List ℕ)) (topics : List TopicPlan) :
    (planTopics bank excluded random topics).map (·.expectedLevel) =
      (topics.flatMap (·.expectedLevels)).map QuestionDifficultyLevel.label := by
  induction topics generalizing random with
  | nil => rfl
  | cons topic topics ih =>
    rw [planTopics, List.map_append, expectedLevel_planTopic, ih, List.flatMap_cons,
      List.map_append]

/-- So they are counted by the levels of the topics. -/
theorem countLevel_planTopics (bank : QuestionBank) (excluded : List QuestionId)
    (random : List (List ℕ)) (topics : List TopicPlan) (level : QuestionDifficultyLevel) :
    countLevel level (planTopics bank excluded random topics) =
      (topics.flatMap (·.expectedLevels)).count level := by
  have hcount : countLevel level (planTopics bank excluded random topics) =
      ((planTopics bank excluded random topics).map (·.expectedLevel)).countP
        fun label => label == level.label := by
    rw [List.countP_map]
    rfl
  rw [hcount, expectedLevel_planTopics, List.countP_map, List.count]
  refine List.countP_congr fun level' _ => ?_
  simp only [Function.comp_apply, beq_iff_eq, label_inj]

section Slots

variable {bank : QuestionBank} {excluded : List QuestionId} {shuffled : ℕ → ℕ}
  {random : List (List ℕ)} {templateCourse : Option TemplateCourse}
  {distributions : List SyllabusDistribution} {slots : List ReviewSlot}

/-- **The slots of a course** are as many of each difficulty as the quota of the planning. -/
theorem countLevel_courseSlots (hne : distributions ≠ [])
    (hslots : courseSlots bank excluded shuffled random templateCourse distributions = .ok slots) :
    countLevel .easy slots = (quota templateCourse).easy ∧
      countLevel .medium slots = (quota templateCourse).medium ∧
      (countLevel .hard slots : ℤ) = (quota templateCourse).hard := by
  unfold courseSlots at hslots
  cases hplan : planCourse shuffled templateCourse distributions with
  | error e =>
    rw [hplan] at hslots
    cases hslots
  | ok topics =>
    rw [hplan] at hslots
    cases hslots
    obtain ⟨_, _, _, _, hhard, hlevels⟩ := plan_spec hne hplan
    have hcount : ∀ level, countLevel level (planTopics bank excluded random
        (topics.map PlannedTopic.toPlan)) = (levelsOf (quota templateCourse).easy
          (quota templateCourse).medium (quota templateCourse).hard.toNat).count level := by
      intro level
      rw [countLevel_planTopics, List.flatMap_map]
      exact hlevels.count_eq level
    rw [hcount, hcount, hcount]
    simp only [levelsOf, List.count_append, List.count_replicate]
    refine ⟨by simp, by simp, ?_⟩
    simpa using hhard

/-- A planning that throws creates no slots. -/
theorem hard_nonneg_of_courseSlots
    (hslots : courseSlots bank excluded shuffled random templateCourse distributions = .ok slots) :
    0 ≤ (quota templateCourse).hard := by
  refine (exists_plan_iff shuffled distributions).mp ?_
  unfold courseSlots at hslots
  cases hplan : planCourse shuffled templateCourse distributions with
  | error e =>
    rw [hplan] at hslots
    cases hslots
  | ok topics => exact ⟨topics, rfl⟩

end Slots

/-- The planning of a template course throws when the course is overdrawn. -/
theorem hard_neg_iff (course : TemplateCourse) :
    (quota (some course)).hard < 0 ↔ course.Overdrawn := by
  have hhard := hard_quota (some course)
  have hsum := course.sum_counts
  obtain ⟨heasy, hmedium⟩ := quota_some course
  rw [targetQuantity_some, heasy, hmedium] at hhard
  rw [hhard]
  unfold TemplateCourse.Overdrawn orNumber
  split <;> split <;> simp_all <;> omega

/-- **The limits are met** by the slots of a course exactly when the configured counts are kept, or
the planning throws: for every template, every bank, every list of distributions and every outcome
of the shuffles. -/
theorem limitsMet_iff (courses : List TemplateCourse) (courseId : CatalogId)
    (dist : SyllabusDistribution) (distributions : List SyllabusDistribution) :
    (∀ bank excluded shuffled random slots,
      courseSlots bank excluded shuffled random (templateCourseOf courses courseId)
        (dist :: distributions) = .ok slots →
      ∀ courseIds, ∀ limits ∈ difficultyLimits courses courseIds, limits.courseId = courseId →
        LimitsMet limits slots) ↔
      ∀ course, templateCourseOf courses courseId = some course →
        course.CountsKept ∨ course.Overdrawn := by
  constructor
  · intro hmet course hcourse
    rcases lt_or_ge (quota (some course)).hard 0 with hneg | hpos
    · exact Or.inr ((hard_neg_iff course).mp hneg)
    · left
      obtain ⟨topics, hplan⟩ : ∃ topics,
          planCourse id (some course) (dist :: distributions) = .ok topics :=
        (exists_plan_iff id (dist :: distributions)).mpr hpos
      have hslots : courseSlots ⟨[], []⟩ [] id [] (some course) (dist :: distributions) =
          .ok (planTopics ⟨[], []⟩ [] [] (topics.map PlannedTopic.toPlan)) := by
        unfold courseSlots
        rw [hplan]
        rfl
      obtain ⟨heasy, hmedium, _⟩ := countLevel_courseSlots (List.cons_ne_nil _ _) hslots
      rw [hcourse] at hmet
      have hlimits := hmet _ _ _ _ _ hslots [courseId] _ (List.mem_map_of_mem
        (List.mem_singleton.mpr rfl)) rfl
      rw [hcourse] at hlimits
      exact (quota_eq_iff course).mp
        ⟨heasy.symm.trans hlimits.easy, hmedium.symm.trans hlimits.medium⟩
  · rintro hkept bank excluded shuffled random slots hslots courseIds limits hlimits rfl
    obtain ⟨courseId, _, rfl⟩ := List.mem_map.mp hlimits
    obtain ⟨heasy, hmedium, hhard⟩ := countLevel_courseSlots (List.cons_ne_nil _ _) hslots
    have hpos := hard_nonneg_of_courseSlots hslots
    change LimitsMet (limitsOf courseId (templateCourseOf courses courseId)) slots
    change ∀ course, templateCourseOf courses courseId = some course → _ at hkept
    change countLevel .easy slots = (quota (templateCourseOf courses courseId)).easy at heasy
    change countLevel .medium slots = (quota (templateCourseOf courses courseId)).medium at hmedium
    change (countLevel .hard slots : ℤ) = (quota (templateCourseOf courses courseId)).hard at hhard
    change 0 ≤ (quota (templateCourseOf courses courseId)).hard at hpos
    cases hcourse : templateCourseOf courses courseId with
    | none =>
      rw [hcourse] at heasy hmedium hhard
      exact ⟨heasy, hmedium, hhard⟩
    | some course =>
      rw [hcourse] at heasy hmedium hhard hpos
      rcases hkept course hcourse with hkept | hover
      · obtain ⟨heasy', hmedium'⟩ := (quota_eq_iff course).mpr hkept
        refine ⟨heasy.trans heasy', hmedium.trans hmedium', ?_⟩
        have hsum := course.sum_counts
        have hquota := hard_quota (some course)
        rw [targetQuantity_some, heasy', hmedium'] at hquota
        rw [hhard, hquota]
        change _ = (course.hardCount : ℤ)
        omega
      · have hneg := (hard_neg_iff course).mpr hover
        omega

/-- The review asks for ten hard questions, the slots expect four easy ones, four medium ones and
two hard ones. -/
theorem not_limitsMet_tenHard :
    ¬∀ slots, courseSlots ⟨[], []⟩ [] id [] (templateCourseOf [tenHard] 1) [tenHardRow] = .ok slots →
      LimitsMet (limitsOf 1 (templateCourseOf [tenHard] 1)) slots := by
  intro hmet
  obtain ⟨topics, hplan⟩ : ∃ topics, planCourse id (some tenHard) [tenHardRow] = .ok topics :=
    (exists_plan_iff id [tenHardRow]).mpr (by decide)
  have hslots : courseSlots ⟨[], []⟩ [] id [] (some tenHard) [tenHardRow] =
      .ok (planTopics ⟨[], []⟩ [] [] (topics.map PlannedTopic.toPlan)) := by
    unfold courseSlots
    rw [hplan]
    rfl
  have hcount := (countLevel_courseSlots (List.cons_ne_nil _ _) hslots).1
  have heasy := (hmet _ hslots).easy
  rw [hcount] at heasy
  revert heasy
  decide

end Odiseo.Materials
