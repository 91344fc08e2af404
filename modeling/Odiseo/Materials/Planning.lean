import Odiseo.Materials.Repeats
import Mathlib.Algebra.BigOperators.Group.List.Basic

/-!
# Planning of a course

How `GenerateMaterialUseCase.execute` turns a template course and the distributions of the
window into topics: the quota of each difficulty, a shuffled pool of levels, and the round-robin
split of the questions over the distributions. The configured counts are those that
`AcademicTimeUseCase.validateAndMapCourses` accepts.
-/

namespace Odiseo.Materials

/-- `CreateTemplateCourseDto`, with `@Min(1)` on its quantity. -/
structure CreateTemplateCourseDto where
  courseId : CatalogId
  questionsQuantity : ℕ
  easyCount : Option ℕ
  mediumCount : Option ℕ
  hardCount : Option ℕ
  positive : 0 < questionsQuantity

/-- `CycleMaterialTemplateCourse`, as the validation leaves it: its counts sum up to its
quantity. -/
structure TemplateCourse where
  courseId : CatalogId
  questionsQuantity : ℕ
  easyCount : ℕ
  mediumCount : ℕ
  hardCount : ℕ
  positive : 0 < questionsQuantity
  sum_counts : easyCount + mediumCount + hardCount = questionsQuantity

/-- One course of `validateAndMapCourses`. -/
def validateAndMapCourse (c : CreateTemplateCourseDto) : Except HttpError TemplateCourse :=
  if hsum : c.easyCount.getD 0 + c.mediumCount.getD 0 + c.hardCount.getD 0 =
      c.questionsQuantity then
    .ok
      { courseId := c.courseId
        questionsQuantity := c.questionsQuantity
        easyCount := c.easyCount.getD 0
        mediumCount := c.mediumCount.getD 0
        hardCount := c.hardCount.getD 0
        positive := c.positive
        sum_counts := hsum }
  else
    .error (.badRequest
      s!"La suma de preguntas fáciles ({c.easyCount.getD 0}), intermedias ({c.mediumCount.getD 0}) y difíciles ({c.hardCount.getD 0}) debe ser igual a la cantidad total ({c.questionsQuantity}) para el curso {c.courseId}")

/-- Every template course is what the validation leaves of some request. -/
theorem exists_validateAndMapCourse (course : TemplateCourse) :
    ∃ dto, validateAndMapCourse dto = .ok course := by
  refine ⟨⟨course.courseId, course.questionsQuantity, some course.easyCount,
    some course.mediumCount, some course.hardCount, course.positive⟩, ?_⟩
  exact dif_pos course.sum_counts

/-- `value || fallback` on a number. -/
def orNumber (value : Option ℕ) (fallback : ℕ) : ℕ :=
  match value with
  | none | some 0 => fallback
  | some n => n

/-- How many questions of each difficulty are planned. The number of hard ones can be negative. -/
structure Quota where
  easy : ℕ
  medium : ℕ
  hard : ℤ
  deriving DecidableEq, Repr

/-- `targetQuantity`. -/
def targetQuantity (templateCourse : Option TemplateCourse) : ℕ :=
  orNumber (templateCourse.map (·.questionsQuantity)) 35

/-- `easyCount`, `mediumCount` and `hardCount`, with the correction of the last one. -/
def quota (templateCourse : Option TemplateCourse) : Quota :=
  let target := targetQuantity templateCourse
  let easyCount := orNumber (templateCourse.map (·.easyCount)) (target * 2 / 5)
  let mediumCount := orNumber (templateCourse.map (·.mediumCount)) (target * 2 / 5)
  let hardCount := orNumber (templateCourse.map (·.hardCount)) (target / 5)
  let currentSum := easyCount + mediumCount + hardCount
  { easy := easyCount
    medium := mediumCount
    hard := if currentSum ≠ target then hardCount + ((target : ℤ) - currentSum) else hardCount }

/-- What the planning throws. -/
inductive PlanError
  /-- `RangeError: Invalid array length`. -/
  | invalidArrayLength
  deriving DecidableEq, Repr

/-- The levels of a number of questions of each difficulty. -/
def levelsOf (easy medium hard : ℕ) : List QuestionDifficultyLevel :=
  List.replicate easy .easy ++ List.replicate medium .medium ++ List.replicate hard .hard

/-- `levelsPool`, before it is shuffled. -/
def levelsPool (q : Quota) : Except PlanError (List QuestionDifficultyLevel) :=
  if q.hard < 0 then .error .invalidArrayLength
  else .ok (levelsOf q.easy q.medium q.hard.toNat)

/-- One entry of `topics`. -/
structure PlannedTopic where
  topicId : CatalogId
  subtopicId : CatalogId
  quantity : ℕ
  expectedLevels : List QuestionDifficultyLevel
  deriving DecidableEq, Repr

/-- How many questions the distribution at a position gets, of `n` distributions. -/
def shareOf (target n idx : ℕ) : ℕ := if idx < target % n then target / n + 1 else target / n

/-- The distributions from a position on, each with its share of the levels that are left. -/
def assignLevels (target n : ℕ) :
    ℕ → List QuestionDifficultyLevel → List SyllabusDistribution → List PlannedTopic
  | _, _, [] => []
  | idx, pool, dist :: distributions =>
    { topicId := dist.topicId
      subtopicId := dist.subtopicId
      quantity := shareOf target n idx
      expectedLevels := pool.take (shareOf target n idx) } ::
      assignLevels target n (idx + 1) (pool.drop (shareOf target n idx)) distributions

/-- The `topics` of a course. -/
def planCourse (random : ℕ → ℕ) (templateCourse : Option TemplateCourse)
    (distributions : List SyllabusDistribution) : Except PlanError (List PlannedTopic) :=
  (levelsPool (quota templateCourse)).map fun pool =>
    (assignLevels (targetQuantity templateCourse) distributions.length 0 (shuffle random pool)
      distributions).filter fun t => 0 < t.quantity

/-- What the plan of a course has to be: the quantities sum up to the configured one and are even,
no topic is empty, and the levels are as many as the quantities and as configured. -/
structure QuotaExact (course : TemplateCourse) (topics : List PlannedTopic) : Prop where
  sum_quantity : (topics.map (·.quantity)).sum = course.questionsQuantity
  even : ∀ t ∈ topics, ∀ u ∈ topics, t.quantity ≤ u.quantity + 1
  not_empty : ∀ t ∈ topics, 0 < t.quantity
  length_levels : ∀ t ∈ topics, t.expectedLevels.length = t.quantity
  levels : (topics.flatMap (·.expectedLevels)).Perm
    (levelsOf course.easyCount course.mediumCount course.hardCount)

section Shares

variable {target n : ℕ}

/-- The shares of the distributions from a position on. -/
theorem quantity_assignLevels (idx : ℕ) (pool : List QuestionDifficultyLevel)
    (distributions : List SyllabusDistribution) :
    (assignLevels target n idx pool distributions).map (·.quantity) =
      (List.range' idx distributions.length).map (shareOf target n) := by
  induction distributions generalizing idx pool with
  | nil => rfl
  | cons dist distributions ih => simp [assignLevels, ih, List.range'_succ]

/-- The sum of the shares from a position on. -/
theorem sum_shares (idx length : ℕ) :
    ((List.range' idx length).map (shareOf target n)).sum =
      length * (target / n) + (min (idx + length) (target % n) - min idx (target % n)) := by
  induction length generalizing idx with
  | zero => simp
  | succ length ih =>
    rw [List.range'_succ, List.map_cons, List.sum_cons, ih, Nat.succ_mul]
    unfold shareOf
    split <;> omega

/-- **The shares of all distributions** sum up to the target. -/
theorem sum_shares_eq (hn : 0 < n) :
    ((List.range' 0 n).map (shareOf target n)).sum = target := by
  rw [sum_shares]
  have hmod := Nat.mod_lt target hn
  have hdiv := Nat.div_add_mod target n
  rw [Nat.zero_add, Nat.zero_min, Nat.min_eq_right (Nat.le_of_lt hmod)]
  omega

/-- A share is the base or one more. -/
theorem quantity_of_mem {idx : ℕ} {pool : List QuestionDifficultyLevel}
    {distributions : List SyllabusDistribution} {t : PlannedTopic}
    (ht : t ∈ assignLevels target n idx pool distributions) :
    t.quantity = target / n ∨ t.quantity = target / n + 1 := by
  have hmem : t.quantity ∈ (assignLevels target n idx pool distributions).map (·.quantity) :=
    List.mem_map_of_mem ht
  rw [quantity_assignLevels] at hmem
  obtain ⟨i, _, hi⟩ := List.mem_map.mp hmem
  rw [← hi]
  unfold shareOf
  split
  · exact Or.inr rfl
  · exact Or.inl rfl

/-- The levels that are handed out are the first of the pool. -/
theorem levels_assignLevels (idx : ℕ) (pool : List QuestionDifficultyLevel)
    (distributions : List SyllabusDistribution) :
    (assignLevels target n idx pool distributions).flatMap (·.expectedLevels) =
      pool.take ((List.range' idx distributions.length).map (shareOf target n)).sum := by
  induction distributions generalizing idx pool with
  | nil => simp [assignLevels]
  | cons dist distributions ih =>
    rw [assignLevels, List.flatMap_cons, ih, List.length_cons, List.range'_succ, List.map_cons,
      List.sum_cons, List.take_add]

/-- A pool that is large enough gives each distribution its levels. -/
theorem length_levels_assignLevels {idx : ℕ} {pool : List QuestionDifficultyLevel}
    {distributions : List SyllabusDistribution}
    (hpool : ((List.range' idx distributions.length).map (shareOf target n)).sum ≤ pool.length)
    {t : PlannedTopic} (ht : t ∈ assignLevels target n idx pool distributions) :
    t.expectedLevels.length = t.quantity := by
  induction distributions generalizing idx pool with
  | nil => cases ht
  | cons dist distributions ih =>
    rw [List.length_cons, List.range'_succ, List.map_cons, List.sum_cons] at hpool
    rcases List.mem_cons.mp ht with rfl | ht
    · change (pool.take (shareOf target n idx)).length = shareOf target n idx
      rw [List.length_take]
      omega
    · refine ih ?_ ht
      rw [List.length_drop]
      omega

end Shares

/-- The topics without questions add nothing. -/
theorem sum_quantity_filter (topics : List PlannedTopic) :
    ((topics.filter fun t => 0 < t.quantity).map (·.quantity)).sum =
      (topics.map (·.quantity)).sum := by
  induction topics with
  | nil => rfl
  | cons t topics ih =>
    by_cases ht : 0 < t.quantity
    · rw [List.filter_cons_of_pos (by simpa using ht), List.map_cons, List.sum_cons, List.map_cons,
        List.sum_cons, ih]
    · rw [List.filter_cons_of_neg (by simpa using ht), List.map_cons, List.sum_cons, ih]
      omega

/-- The topics without questions have no levels. -/
theorem levels_filter {topics : List PlannedTopic}
    (hlength : ∀ t ∈ topics, t.expectedLevels.length = t.quantity) :
    (topics.filter fun t => 0 < t.quantity).flatMap (·.expectedLevels) =
      topics.flatMap (·.expectedLevels) := by
  induction topics with
  | nil => rfl
  | cons t topics ih =>
    have htail := ih fun u hu => hlength u (List.mem_cons_of_mem t hu)
    by_cases ht : 0 < t.quantity
    · rw [List.filter_cons_of_pos (by simpa using ht), List.flatMap_cons, List.flatMap_cons, htail]
    · have hnil : t.expectedLevels = [] := by
        rw [← List.length_eq_zero_iff, hlength t List.mem_cons_self]
        omega
      rw [List.filter_cons_of_neg (by simpa using ht), List.flatMap_cons, hnil, htail,
        List.nil_append]

section Quota

variable {templateCourse : Option TemplateCourse}

/-- The hard questions are the rest. -/
theorem hard_quota (templateCourse : Option TemplateCourse) :
    (quota templateCourse).hard = (targetQuantity templateCourse : ℤ) -
      (quota templateCourse).easy - (quota templateCourse).medium := by
  unfold quota
  dsimp only
  split <;> omega

/-- How many levels the pool has. -/
theorem length_levelsOf (easy medium hard : ℕ) :
    (levelsOf easy medium hard).length = easy + medium + hard := by
  simp [levelsOf]
  omega

/-- The pool has a level for each question. -/
theorem length_of_levelsPool {pool : List QuestionDifficultyLevel}
    (hpool : levelsPool (quota templateCourse) = .ok pool) :
    pool.length = targetQuantity templateCourse := by
  have hhard := hard_quota templateCourse
  unfold levelsPool at hpool
  split at hpool
  · cases hpool
  · cases hpool
    rw [length_levelsOf]
    omega

/-- **What a plan is:** as many questions as the target, evenly split, and the levels of the pool. -/
theorem plan_spec {random : ℕ → ℕ} {distributions : List SyllabusDistribution}
    (hne : distributions ≠ []) {topics : List PlannedTopic}
    (hplan : planCourse random templateCourse distributions = .ok topics) :
    (topics.map (·.quantity)).sum = targetQuantity templateCourse ∧
      (∀ t ∈ topics, ∀ u ∈ topics, t.quantity ≤ u.quantity + 1) ∧
      (∀ t ∈ topics, 0 < t.quantity) ∧
      (∀ t ∈ topics, t.expectedLevels.length = t.quantity) ∧
      0 ≤ (quota templateCourse).hard ∧
      (topics.flatMap (·.expectedLevels)).Perm (levelsOf (quota templateCourse).easy
        (quota templateCourse).medium (quota templateCourse).hard.toNat) := by
  unfold planCourse at hplan
  cases hpool : levelsPool (quota templateCourse) with
  | error e =>
    rw [hpool] at hplan
    cases hplan
  | ok pool =>
    rw [hpool] at hplan
    cases hplan
    set target := targetQuantity templateCourse with htarget
    set n := distributions.length with hn
    set all := assignLevels target n 0 (shuffle random pool) distributions with hall
    have hsum : ((List.range' 0 n).map (shareOf target n)).sum = target :=
      sum_shares_eq (List.length_pos_iff.mpr hne)
    have hlength : (shuffle random pool).length = target := by
      rw [(shuffle_perm random pool).length_eq, length_of_levelsPool hpool]
    have hlevels : ∀ t ∈ all, t.expectedLevels.length = t.quantity := fun t ht =>
      length_levels_assignLevels (by rw [hsum, hlength]) ht
    refine ⟨?_, ?_, ?_, ?_, ?_, ?_⟩
    · rw [sum_quantity_filter, quantity_assignLevels, hsum]
    · intro t ht u hu
      have hq := quantity_of_mem (List.mem_filter.mp ht).1
      have hq' := quantity_of_mem (List.mem_filter.mp hu).1
      omega
    · intro t ht
      simpa using (List.mem_filter.mp ht).2
    · exact fun t ht => hlevels t (List.mem_filter.mp ht).1
    · unfold levelsPool at hpool
      split at hpool
      · cases hpool
      · omega
    · rw [levels_filter hlevels, hall, levels_assignLevels, hsum, List.take_of_length_le (by omega)]
      unfold levelsPool at hpool
      split at hpool
      · cases hpool
      · cases hpool
        exact shuffle_perm random _

/-- A plan is made when the hard questions are not negative. -/
theorem exists_plan_iff (random : ℕ → ℕ) (distributions : List SyllabusDistribution) :
    (∃ topics, planCourse random templateCourse distributions = .ok topics) ↔
      0 ≤ (quota templateCourse).hard := by
  unfold planCourse levelsPool
  split
  · rename_i hneg
    constructor
    · rintro ⟨topics, hplan⟩
      cases hplan
    · intro hpos
      omega
  · rename_i hpos
    exact ⟨fun _ => by omega, fun _ => ⟨_, rfl⟩⟩

end Quota

/-- The configured counts are not mistaken for missing ones. -/
def TemplateCourse.CountsKept (course : TemplateCourse) : Prop :=
  course.questionsQuantity ≤ 2 ∨ (course.easyCount ≠ 0 ∧ course.mediumCount ≠ 0)

/-- A number that is not zero stands for itself. -/
theorem orNumber_some_eq_iff {n fallback : ℕ} : orNumber (some n) fallback = n ↔
    n ≠ 0 ∨ fallback = 0 := by
  cases n with
  | zero => simp [orNumber]
  | succ n => simp [orNumber]

/-- The quantity of a template course is its own. -/
theorem targetQuantity_some (course : TemplateCourse) :
    targetQuantity (some course) = course.questionsQuantity :=
  orNumber_some_eq_iff.mpr (Or.inl (Nat.pos_iff_ne_zero.mp course.positive))

/-- The easy and the medium questions of a template course. -/
theorem quota_some (course : TemplateCourse) :
    (quota (some course)).easy =
        orNumber (some course.easyCount) (course.questionsQuantity * 2 / 5) ∧
      (quota (some course)).medium =
        orNumber (some course.mediumCount) (course.questionsQuantity * 2 / 5) := by
  rw [← targetQuantity_some course]
  exact ⟨rfl, rfl⟩

/-- **The quota is the configured one** exactly when the configured counts are kept. -/
theorem quota_eq_iff (course : TemplateCourse) :
    ((quota (some course)).easy = course.easyCount ∧
      (quota (some course)).medium = course.mediumCount) ↔ course.CountsKept := by
  obtain ⟨heasy, hmedium⟩ := quota_some course
  rw [heasy, hmedium, orNumber_some_eq_iff, orNumber_some_eq_iff, TemplateCourse.CountsKept]
  omega

/-- The levels determine how many there are of each difficulty. -/
theorem levelsOf_inj {easy medium hard easy' medium' hard' : ℕ}
    (h : (levelsOf easy medium hard).Perm (levelsOf easy' medium' hard')) :
    easy = easy' ∧ medium = medium' ∧ hard = hard' := by
  have heasy := h.count_eq .easy
  have hmedium := h.count_eq .medium
  have hhard := h.count_eq .hard
  simp [levelsOf, List.count_append, List.count_replicate] at heasy hmedium hhard
  exact ⟨heasy, hmedium, hhard⟩

/-- **The quotas are exact when the configured counts are kept, and only then**, for every template
course that the validation accepts, every list of distributions and every outcome of the
shuffle. -/
theorem quotaExact_iff_countsKept (course : TemplateCourse) (dist : SyllabusDistribution)
    (distributions : List SyllabusDistribution) :
    (∀ random, ∃ topics, planCourse random (some course) (dist :: distributions) = .ok topics ∧
      QuotaExact course topics) ↔ course.CountsKept := by
  constructor
  · intro hexact
    obtain ⟨topics, hplan, htopics⟩ := hexact id
    obtain ⟨_, _, _, _, _, hlevels⟩ := plan_spec (List.cons_ne_nil _ _) hplan
    obtain ⟨heasy, hmedium, _⟩ := levelsOf_inj (hlevels.symm.trans htopics.levels)
    exact (quota_eq_iff course).mp ⟨heasy, hmedium⟩
  · intro hkept random
    obtain ⟨heasy, hmedium⟩ := (quota_eq_iff course).mpr hkept
    have hhard := hard_quota (some course)
    have hsum := course.sum_counts
    rw [targetQuantity_some, heasy, hmedium] at hhard
    have hpos : 0 ≤ (quota (some course)).hard := by omega
    obtain ⟨topics, hplan⟩ := (exists_plan_iff random (dist :: distributions)).mpr hpos
    obtain ⟨hquantity, heven, hpos, hlength, _, hlevels⟩ := plan_spec (List.cons_ne_nil _ _) hplan
    rw [targetQuantity_some] at hquantity
    refine ⟨topics, hplan, hquantity, heven, hpos, hlength, ?_⟩
    have htoNat : (quota (some course)).hard.toNat = course.hardCount := by omega
    rwa [heasy, hmedium, htoNat] at hlevels

/-- Ten hard questions. -/
def tenHard : TemplateCourse where
  courseId := 1
  questionsQuantity := 10
  easyCount := 0
  mediumCount := 0
  hardCount := 10
  positive := Nat.succ_pos 9
  sum_counts := rfl

/-- The topic that the ten questions are planned for. -/
def tenHardRow : SyllabusDistribution where
  syllabusId := 1
  weekNumber := 1
  topicId := 1
  subtopicId := 1
  questionCount := 10

/-- The zeros of the course are replaced by percentages. -/
theorem not_quotaExact_tenHard :
    ¬∃ topics, planCourse id (some tenHard) [tenHardRow] = .ok topics ∧
      QuotaExact tenHard topics := by
  rintro ⟨topics, hplan, htopics⟩
  obtain ⟨_, _, _, _, _, hlevels⟩ := plan_spec (List.cons_ne_nil _ _) hplan
  obtain ⟨heasy, _, _⟩ := levelsOf_inj (hlevels.symm.trans htopics.levels)
  revert heasy
  decide

end Odiseo.Materials
