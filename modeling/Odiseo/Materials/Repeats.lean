import Odiseo.Materials.SelectionSpec
import Mathlib.Algebra.GroupWithZero.Nat

/-!
# Repeated questions within a material

`buildReviewPlan` selects for each topic of a course on its own: the pool of a topic is not told
which questions the topics before it got. So a question occurs in the slots of a course as often as
the topics together can reach it.
-/

namespace Odiseo.Materials

open Picking

/-- The pool of a topic: the questions of its subtopic that the exclusion list does not name. -/
def TopicPlan.pool (topic : TopicPlan) (bank : QuestionBank) (excludeQuestionIds : List QuestionId) :
    List Question :=
  (bank.questionsOf topic.subtopicId).filter fun q => !excludeQuestionIds.contains q.id

/-- The slots of the topics of a course, with the random numbers of each topic. -/
def planTopics (bank : QuestionBank) (excluded : List QuestionId) :
    List (List ℕ) → List TopicPlan → List ReviewSlot
  | _, [] => []
  | random, topic :: topics =>
    planTopic bank (fun n => (random.headD []).getD n 0) excluded topic ++
      planTopics bank excluded random.tail topics

/-- The slots of each course. -/
def coursePlans (bank : QuestionBank) :
    List (List ℕ) → List (CoursePlan × List QuestionId) → List (List ReviewSlot)
  | _, [] => []
  | random, (course, excluded) :: distributions =>
    planTopics bank excluded random course.topics ::
      coursePlans bank (random.drop course.topics.length) distributions

/-- The questions of a list of slots. -/
def questionIds (slots : List ReviewSlot) : List QuestionId := slots.filterMap (·.questionId)

/-- No course gets a question twice, or one that is excluded. -/
def NeverRepeatsWithin (distributions : List (CoursePlan × List QuestionId))
    (plans : List (List ReviewSlot)) : Prop :=
  ∀ (i : ℕ) course excluded slots, distributions[i]? = some (course, excluded) →
    plans[i]? = some slots →
      (questionIds slots).Nodup ∧ ∀ x ∈ questionIds slots, x ∉ excluded

/-- The level of a question of the bank. -/
def QuestionBank.level (bank : QuestionBank) (questionId : QuestionId) :
    Option QuestionDifficultyLevel :=
  (bank.questions.find? fun q => q.id == questionId).bind Question.level

/-- How often a topic can draw a question: as often as its pool has it, and as its requests can
reach it. -/
def TopicPlan.draws (topic : TopicPlan) (bank : QuestionBank) (excluded : List QuestionId)
    (questionId : QuestionId) : ℕ :=
  min ((topic.pool bank excluded).countP fun q => q.id == questionId)
    (reach Question.level (topic.expectedLevels.map some) (topic.pool bank excluded)
      (bank.level questionId))

/-- The topics of each course can draw each question once, all together. -/
def DrawsOnce (bank : QuestionBank) (distributions : List (CoursePlan × List QuestionId)) : Prop :=
  ∀ course excluded, (course, excluded) ∈ distributions → ∀ questionId,
    (course.topics.map fun topic => topic.draws bank excluded questionId).sum ≤ 1

variable {bank : QuestionBank} {excluded : List QuestionId}

/-- The plan of a course, as a part of the whole plan. -/
theorem planTopics_eq (random : List (List ℕ)) (topics : List TopicPlan) (k : ℕ) :
    planTopics bank excluded (random.drop k) topics =
      ((topics.map fun t => (excluded, t)).zipIdx k).flatMap fun e =>
        planTopic bank (fun n => (random.getD e.2 []).getD n 0) e.1.1 e.1.2 := by
  induction topics generalizing k with
  | nil => rfl
  | cons topic topics ih =>
    have hhead : (random.drop k).headD [] = random.getD k [] := by
      rw [List.headD_eq_head?_getD, List.head?_drop, List.getD_eq_getElem?_getD]
    rw [planTopics, hhead, List.tail_drop, ih]
    rfl

/-- The plans of the courses are the plan. -/
theorem flatten_coursePlans (random : List (List ℕ))
    (distributions : List (CoursePlan × List QuestionId)) :
    (coursePlans bank random distributions).flatten = buildReviewPlan bank random distributions := by
  have hfrom : ∀ (ds : List (CoursePlan × List QuestionId)) (k : ℕ),
      (coursePlans bank (random.drop k) ds).flatten =
        ((ds.flatMap fun d => d.1.topics.map fun t => (d.2, t)).zipIdx k).flatMap fun e =>
          planTopic bank (fun n => (random.getD e.2 []).getD n 0) e.1.1 e.1.2 := by
    intro ds
    induction ds with
    | nil => exact fun _ => rfl
    | cons d ds ih =>
      obtain ⟨course, excluded⟩ := d
      intro k
      rw [coursePlans, List.flatten_cons, planTopics_eq, List.drop_drop, ih, List.flatMap_cons,
        List.zipIdx_append, List.flatMap_append, List.length_map]
  exact hfrom distributions 0

/-- A question of a subtopic is the one that the bank finds under its key. -/
theorem find_of_mem_questionsOf {subtopicId : CatalogId} {q : Question}
    (h : q ∈ bank.questionsOf subtopicId) :
    bank.questions.find? (fun p => p.id == q.id) = some q := by
  obtain ⟨m, _, hfind⟩ := List.mem_filterMap.mp h
  have hid := List.find?_some hfind
  rw [beq_iff_eq.mp hid]
  exact hfind

/-- The level of a question of a topic. -/
theorem level_of_mem_pool {topic : TopicPlan} {q : Question}
    (h : q ∈ topic.pool bank excluded) : q.level = bank.level q.id := by
  rw [QuestionBank.level, find_of_mem_questionsOf (List.mem_filter.mp h).1, Option.bind_some]

/-- The questions of the slots are the questions that were selected. -/
theorem questionIds_zip (topic : TopicPlan) {levels : List QuestionDifficultyLevel}
    {selected : List (Option Question)} (hlength : levels.length = selected.length) :
    questionIds ((levels.zip selected).map fun (level, q) =>
      { topicId := topic.topicId
        subtopicId := topic.subtopicId
        expectedLevel := level.label
        questionId := q.map (·.id) }) = selected.reduceOption.map (·.id) := by
  induction levels generalizing selected with
  | nil =>
    rw [List.length_eq_zero_iff.mp hlength.symm]
    rfl
  | cons level levels ih =>
    cases selected with
    | nil => cases hlength
    | cons q selected =>
      have hrest := ih (Nat.succ.inj hlength)
      unfold questionIds at hrest ⊢
      cases q with
      | none => simpa using hrest
      | some q => simpa using hrest

/-- **The questions of a topic** are those that its requests take from the shuffled pool. -/
theorem questionIds_planTopic (random : ℕ → ℕ) (topic : TopicPlan) :
    questionIds (planTopic bank random excluded topic) =
      (taken Question.level (topic.expectedLevels.map some)
        (shuffle random (topic.pool bank excluded))).map (·.id) := by
  have hselected : selectBestQuestions random random (topic.pool bank excluded) []
      (topic.expectedLevels.map some) false =
        picks Question.level (topic.expectedLevels.map some)
          (shuffle random (topic.pool bank excluded)) := by
    rw [selectBestQuestions_eq_picks, standing_nil]
    simp [candidates, recycled]
  have hlength : topic.expectedLevels.length = (picks Question.level
      (topic.expectedLevels.map some) (shuffle random (topic.pool bank excluded))).length := by
    rw [length_picks, List.length_map]
  rw [← hselected] at hlength
  refine (questionIds_zip topic hlength).trans ?_
  rw [hselected]
  rfl

/-- How often a topic draws a question. -/
theorem count_planTopic (random : ℕ → ℕ) (topic : TopicPlan) (x : QuestionId) :
    (questionIds (planTopic bank random excluded topic)).count x =
      (taken Question.level (topic.expectedLevels.map some)
        (shuffle random (topic.pool bank excluded))).countP fun q => q.id == x := by
  rw [questionIds_planTopic, List.count, List.countP_map]
  rfl

/-- The reach does not depend on the shuffle. -/
theorem reach_shuffle (random : ℕ → ℕ) (ws : List (Option QuestionDifficultyLevel))
    (pool : List Question) (level : Option QuestionDifficultyLevel) :
    reach Question.level ws (shuffle random pool) level = reach Question.level ws pool level :=
  reach_congr Question.level
    (fun m => supply_eq_of_perm Question.level (shuffle_perm random pool) (some m)) ws level

/-- **A topic draws a question at most** as often as it can reach it. -/
theorem count_planTopic_le (bank : QuestionBank) (excluded : List QuestionId) (random : ℕ → ℕ)
    (topic : TopicPlan) (x : QuestionId) :
    (questionIds (planTopic bank random excluded topic)).count x ≤
      topic.draws bank excluded x := by
  rw [count_planTopic]
  have hpool := (taken_perm Question.level (topic.expectedLevels.map some)
    (shuffle random (topic.pool bank excluded))).countP_eq fun q => q.id == x
  rw [List.countP_append, (shuffle_perm _ _).countP_eq] at hpool
  have hlevel : (taken Question.level (topic.expectedLevels.map some)
        (shuffle random (topic.pool bank excluded))).countP (fun q => q.id == x) ≤
      supply Question.level (taken Question.level (topic.expectedLevels.map some)
        (shuffle random (topic.pool bank excluded))) (bank.level x) := by
    rw [supply, List.count, List.countP_map]
    refine List.countP_mono_left fun q hq hx => ?_
    have hmem := mem_of_mem_shuffle (mem_of_mem_taken Question.level hq)
    simpa [← beq_iff_eq.mp hx] using level_of_mem_pool hmem
  have hreach := supply_taken_le Question.level (topic.expectedLevels.map some)
    (shuffle random (topic.pool bank excluded)) (bank.level x)
  rw [reach_shuffle] at hreach
  unfold TopicPlan.draws
  omega

/-- **Some outcome of the shuffle** draws a question as often as the topic can reach it. -/
theorem exists_le_count_planTopic (bank : QuestionBank) (excluded : List QuestionId)
    (topic : TopicPlan) (x : QuestionId) : ∃ random, topic.draws bank excluded x ≤
      (questionIds (planTopic bank random excluded topic)).count x := by
  have hperm := List.filter_append_perm (fun q : Question => q.id == x) (topic.pool bank excluded)
  obtain ⟨random, hrandom⟩ := exists_shuffle_eq hperm.symm
  refine ⟨random, ?_⟩
  rw [count_planTopic, hrandom]
  have hmin := min_le_countP_taken Question.level (k := bank.level x)
    (P := fun q : Question => q.id == x)
    (S := (topic.pool bank excluded).filter fun q => q.id == x)
    (R := (topic.pool bank excluded).filter fun q => !(q.id == x))
    (fun q hq => (List.mem_filter.mp hq).2)
    (fun q hq => by
      obtain ⟨hmem, hx⟩ := List.mem_filter.mp hq
      rw [level_of_mem_pool hmem, beq_iff_eq.mp hx])
    (topic.expectedLevels.map some)
  rw [reach_congr Question.level (fun m => supply_eq_of_perm Question.level hperm (some m)),
    ← List.countP_eq_length_filter] at hmin
  exact hmin

/-- A list of random numbers stands for the random numbers of a shuffle. -/
theorem exists_numbers (random : ℕ → ℕ) (topic : TopicPlan) :
    ∃ numbers : List ℕ, planTopic bank (fun n => numbers.getD n 0) excluded topic =
      planTopic bank random excluded topic := by
  refine ⟨(List.range ((topic.pool bank excluded).length + 1)).map random, ?_⟩
  have hshuffle : ∀ qs : List Question, qs.length ≤ (topic.pool bank excluded).length →
      shuffle (fun n => ((List.range ((topic.pool bank excluded).length + 1)).map random).getD n 0)
        qs = shuffle random qs := by
    intro qs hqs
    apply shuffleFrom_congr
    intro k hk
    rw [List.getD_eq_getElem?_getD, List.getElem?_map, List.getElem?_range (by omega)]
    rfl
  unfold planTopic selectBestQuestions
  dsimp only
  have hfilter : ∀ p : Question → Bool, (((bank.questionsOf topic.subtopicId).filter fun q =>
      !excluded.contains q.id).filter p).length ≤ (topic.pool bank excluded).length :=
    fun p => List.length_filter_le p _
  rw [hshuffle _ (hfilter _), hshuffle _ (hfilter _)]

/-- A course draws a question at most as often as its topics can reach it. -/
theorem count_planTopics_le (random : List (List ℕ)) (topics : List TopicPlan) (x : QuestionId) :
    (questionIds (planTopics bank excluded random topics)).count x ≤
      (topics.map fun topic => topic.draws bank excluded x).sum := by
  induction topics generalizing random with
  | nil => simp [planTopics, questionIds]
  | cons topic topics ih =>
    have hfirst := count_planTopic_le bank excluded
      (fun n => (random.headD []).getD n 0) topic x
    have hrest := ih random.tail
    unfold questionIds at hfirst hrest ⊢
    rw [planTopics, List.filterMap_append, List.count_append, List.map_cons, List.sum_cons]
    omega

/-- Some outcome of the shuffles of a course draws a question as often as its topics can. -/
theorem exists_le_count_planTopics (bank : QuestionBank) (excluded : List QuestionId)
    (topics : List TopicPlan) (x : QuestionId) :
    ∃ random, (topics.map fun topic => topic.draws bank excluded x).sum ≤
      (questionIds (planTopics bank excluded random topics)).count x := by
  induction topics with
  | nil => exact ⟨[], Nat.zero_le _⟩
  | cons topic topics ih =>
    obtain ⟨random, hrest⟩ := ih
    obtain ⟨numbers, hfirst⟩ := exists_le_count_planTopic bank excluded topic x
    obtain ⟨numbers, hnumbers⟩ := exists_numbers numbers topic
    rw [← hnumbers] at hfirst
    refine ⟨numbers :: random, ?_⟩
    unfold questionIds at hfirst hrest ⊢
    rw [planTopics, List.filterMap_append, List.count_append, List.map_cons, List.sum_cons,
      List.headD_cons, List.tail_cons]
    omega

/-- No question that is excluded is in the slots of a course. -/
theorem not_mem_excluded (random : List (List ℕ)) (topics : List TopicPlan) {x : QuestionId}
    (hx : x ∈ questionIds (planTopics bank excluded random topics)) : x ∉ excluded := by
  induction topics generalizing random with
  | nil => simp [planTopics, questionIds] at hx
  | cons topic topics ih =>
    unfold planTopics questionIds at hx
    rw [List.filterMap_append] at hx
    rcases List.mem_append.mp hx with hx | hx
    · have hfirst : x ∈ questionIds (planTopic bank (fun n => (random.headD []).getD n 0)
        excluded topic) := hx
      rw [questionIds_planTopic] at hfirst
      obtain ⟨q, hq, rfl⟩ := List.mem_map.mp hfirst
      simpa using (List.mem_filter.mp (mem_of_mem_shuffle (mem_of_mem_taken _ hq))).2
    · exact ih random.tail hx

/-- The plan of a course of the list, for some random numbers. -/
theorem exists_coursePlans (distributions : List (CoursePlan × List QuestionId)) {i : ℕ}
    {course : CoursePlan} {excluded : List QuestionId}
    (hi : distributions[i]? = some (course, excluded)) (random : List (List ℕ)) :
    ∃ randoms, (coursePlans bank randoms distributions)[i]? =
      some (planTopics bank excluded random course.topics) := by
  induction distributions generalizing i with
  | nil => simp at hi
  | cons d distributions ih =>
    cases i with
    | zero =>
      obtain rfl := Option.some.inj hi
      exact ⟨random, rfl⟩
    | succ i =>
      obtain ⟨randoms, hplan⟩ := ih hi
      refine ⟨List.replicate d.1.topics.length [] ++ randoms, ?_⟩
      rw [coursePlans, List.getElem?_cons_succ, List.drop_left' List.length_replicate]
      exact hplan

/-- The plans are those of the courses, each for some random numbers. -/
theorem exists_of_coursePlans {randoms : List (List ℕ)}
    {distributions : List (CoursePlan × List QuestionId)} {i : ℕ} {course : CoursePlan}
    {excluded : List QuestionId} {slots : List ReviewSlot}
    (hi : distributions[i]? = some (course, excluded))
    (hslots : (coursePlans bank randoms distributions)[i]? = some slots) :
    ∃ random, slots = planTopics bank excluded random course.topics := by
  induction distributions generalizing i randoms with
  | nil => simp at hi
  | cons d distributions ih =>
    cases i with
    | zero =>
      obtain rfl := Option.some.inj hi
      exact ⟨randoms, (Option.some.inj hslots).symm⟩
    | succ i => exact ih hi hslots

/-- **No question is repeated within a course exactly when its topics can draw each question only
once**, for every bank, every list of courses with their exclusion lists and all outcomes of the
shuffles. -/
theorem neverRepeatsWithin_iff_drawsOnce (bank : QuestionBank)
    (distributions : List (CoursePlan × List QuestionId)) :
    (∀ random, NeverRepeatsWithin distributions (coursePlans bank random distributions)) ↔
      DrawsOnce bank distributions := by
  constructor
  · intro hnever course excluded hmem x
    obtain ⟨i, hi⟩ := List.mem_iff_getElem?.mp hmem
    obtain ⟨random, hcount⟩ := exists_le_count_planTopics bank excluded course.topics x
    obtain ⟨randoms, hplan⟩ := exists_coursePlans distributions hi random
    have hnodup := (hnever randoms i course excluded _ hi hplan).1
    exact hcount.trans (List.nodup_iff_count_le_one.mp hnodup x)
  · intro honce randoms i course excluded slots hi hslots
    obtain ⟨random, rfl⟩ := exists_of_coursePlans hi hslots
    refine ⟨List.nodup_iff_count_le_one.mpr fun x => ?_, fun x hx => ?_⟩
    · exact (count_planTopics_le random course.topics x).trans
        (honce course excluded (List.mem_of_getElem? hi) x)
    · exact not_mem_excluded random course.topics hx

/-- A bank with one question. -/
def oneQuestionBank : QuestionBank := { mappings := [(1, 7)], questions := [⟨7, 43⟩] }

/-- A course whose window has the same subtopic in two weeks. -/
def twiceTaught : CoursePlan :=
  { courseId := 1
    topics := [{ topicId := 1, subtopicId := 1, expectedLevels := [.easy] },
      { topicId := 1, subtopicId := 1, expectedLevels := [.medium] }] }

/-- Both rows of the subtopic get its only question. -/
theorem not_neverRepeatsWithin :
    ¬NeverRepeatsWithin [(twiceTaught, [])] (coursePlans oneQuestionBank [] [(twiceTaught, [])]) := by
  intro h
  have hnodup := (h 0 twiceTaught [] _ rfl rfl).1
  revert hnodup
  decide

end Odiseo.Materials
