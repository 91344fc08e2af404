import Odiseo.Materials.Generate

/-!
# Selection of questions

`QuestionSelectionStrategy.selectBestQuestions` and the review plan of a generation: for
each topic of each course the questions of the bank that the exclusion list does not name,
shuffled, the expected level first. The random numbers are an input.
-/

namespace Odiseo.Materials

/-- `QuestionDifficultyLevel`. -/
inductive QuestionDifficultyLevel
  | easy
  | medium
  | hard
  deriving DecidableEq, Repr

/-- The label of a level. -/
def QuestionDifficultyLevel.label : QuestionDifficultyLevel → String
  | .easy => "EASY"
  | .medium => "MEDIUM"
  | .hard => "HARD"

/-- `QUESTION_DIFFICULTY_MAPPING`: the level keys of the bank. -/
def QuestionDifficultyLevel.levelIds : QuestionDifficultyLevel → List ℕ
  | .easy => [43, 44]
  | .medium => [45]
  | .hard => [46, 47, 48, 49, 50, 51, 52]

/-- `Question` of the bank, as the selection reads it. -/
structure Question where
  id : QuestionId
  levelId : ℕ
  deriving DecidableEq, Repr

/-- What the question bank answers: which questions a subtopic has, and the questions. -/
structure QuestionBank where
  mappings : List (CatalogId × QuestionId)
  questions : List Question
  deriving DecidableEq, Repr

/-- The questions of a subtopic that the bank knows. -/
def QuestionBank.questionsOf (bank : QuestionBank) (subtopicId : CatalogId) : List Question :=
  (bank.mappings.filter fun m => m.1 == subtopicId).filterMap fun m =>
    bank.questions.find? fun q => q.id == m.2

section Shuffle

variable {α : Type}

/-- `[array[i], array[j]] = [array[j], array[i]]`. -/
def swap (i j : ℕ) (xs : List α) : List α :=
  match xs[i]?, xs[j]? with
  | some x, some y => (xs.set i y).set j x
  | _, _ => xs

/-- The loop of `shuffle` from position `i` down. -/
def shuffleFrom (random : ℕ → ℕ) : ℕ → List α → List α
  | 0, xs => xs
  | i + 1, xs => shuffleFrom random i (swap (i + 1) (random (i + 1) % (i + 2)) xs)

/-- The Fisher–Yates `shuffle`, with the random number drawn at each position. -/
def shuffle (random : ℕ → ℕ) (xs : List α) : List α := shuffleFrom random (xs.length - 1) xs

/-- A swap only moves elements. -/
theorem swap_perm (i j : ℕ) (xs : List α) : (swap i j xs).Perm xs := by
  unfold swap
  split
  · rename_i x y hx hy
    obtain ⟨hi, rfl⟩ := List.getElem?_eq_some_iff.mp hx
    obtain ⟨hj, rfl⟩ := List.getElem?_eq_some_iff.mp hy
    exact List.set_set_perm hi hj
  · exact List.Perm.refl xs

/-- The loop only moves elements. -/
theorem shuffleFrom_perm (random : ℕ → ℕ) (i : ℕ) (xs : List α) :
    (shuffleFrom random i xs).Perm xs := by
  induction i generalizing xs with
  | zero => exact List.Perm.refl xs
  | succ i ih => exact (ih _).trans (swap_perm _ _ xs)

/-- **A shuffle only moves elements.** -/
theorem shuffle_perm (random : ℕ → ℕ) (xs : List α) : (shuffle random xs).Perm xs :=
  shuffleFrom_perm random _ xs

/-- A shuffle brings no new element. -/
theorem mem_of_mem_shuffle {random : ℕ → ℕ} {xs : List α} {x : α} (h : x ∈ shuffle random xs) :
    x ∈ xs :=
  (shuffle_perm random xs).mem_iff.mp h

/-- The other positions keep their elements. -/
theorem getElem?_swap_of_ne {i j k : ℕ} (hi : k ≠ i) (hj : k ≠ j) (xs : List α) :
    (swap i j xs)[k]? = xs[k]? := by
  unfold swap
  split
  · rw [List.getElem?_set_ne hj.symm, List.getElem?_set_ne hi.symm]
  · rfl

/-- The first position gets the element of the second. -/
theorem getElem?_swap_left {i j : ℕ} {xs : List α} (hi : i < xs.length) (hj : j < xs.length) :
    (swap i j xs)[i]? = xs[j]? := by
  unfold swap
  rw [List.getElem?_eq_getElem hi, List.getElem?_eq_getElem hj]
  by_cases hij : j = i
  · subst hij
    simp [hi]
  · simp only []
    rw [List.getElem?_set_ne hij, List.getElem?_set_self hi]

/-- The loop from a position down draws no number above it. -/
theorem shuffleFrom_congr {random random' : ℕ → ℕ} {i : ℕ} (h : ∀ k ≤ i, random k = random' k)
    (xs : List α) : shuffleFrom random i xs = shuffleFrom random' i xs := by
  induction i generalizing xs with
  | zero => rfl
  | succ i ih =>
    rw [shuffleFrom, shuffleFrom, h (i + 1) (Nat.le_refl _)]
    exact ih (fun k hk => h k (by omega)) _

/-- Every order of the first positions is an outcome of the loop over them. -/
theorem exists_shuffleFrom_eq (i : ℕ) {xs ys : List α} (hperm : xs.Perm ys)
    (hdrop : xs.drop (i + 1) = ys.drop (i + 1)) : ∃ random, shuffleFrom random i xs = ys := by
  induction i generalizing xs with
  | zero =>
    refine ⟨fun _ => 0, ?_⟩
    rw [shuffleFrom]
    cases xs with
    | nil => exact hperm.nil_eq
    | cons x xs =>
      cases ys with
      | nil => cases hperm.eq_nil
      | cons y ys =>
        obtain rfl : xs = ys := by simpa using hdrop
        have hxy : [x].Perm [y] := (List.perm_append_right_iff xs).mp hperm
        rw [List.singleton_perm_singleton.mp hxy]
  | succ i ih =>
    by_cases hi : i + 1 < ys.length
    · -- The element that belongs here is still among the first ones.
      have htake : (xs.take (i + 2)).Perm (ys.take (i + 2)) := by
        rw [← List.perm_append_right_iff (xs.drop (i + 2)), List.take_append_drop,
          show xs.drop (i + 2) = ys.drop (i + 2) from hdrop, List.take_append_drop]
        exact hperm
      have hmem : ys[i + 1] ∈ xs.take (i + 2) :=
        htake.mem_iff.mpr (List.mem_take_iff_getElem.mpr ⟨i + 1, by omega, rfl⟩)
      obtain ⟨j, hj, hy⟩ := List.mem_take_iff_getElem.mp hmem
      have hlength := hperm.length_eq
      have hswap : (swap (i + 1) j xs).drop (i + 1) = ys.drop (i + 1) := by
        apply List.ext_getElem?
        intro k
        rw [List.getElem?_drop, List.getElem?_drop]
        by_cases hk : k = 0
        · subst hk
          rw [Nat.add_zero, getElem?_swap_left (by omega) (by omega),
            List.getElem?_eq_getElem (by omega), List.getElem?_eq_getElem hi, hy]
        · rw [getElem?_swap_of_ne (by omega) (by omega)]
          have hrest := congrArg (fun l => l[k - 1]?) hdrop
          simp only [List.getElem?_drop] at hrest
          rwa [show i + 1 + 1 + (k - 1) = i + 1 + k by omega] at hrest
      obtain ⟨random, hrandom⟩ := ih ((swap_perm _ _ _).trans hperm) hswap
      refine ⟨fun k => if k = i + 1 then j else random k, ?_⟩
      rw [shuffleFrom, if_pos rfl, Nat.mod_eq_of_lt (by omega), ← hrandom]
      exact shuffleFrom_congr (fun k hk => if_neg (by omega)) _
    · obtain ⟨random, hrandom⟩ := ih hperm (by
        rw [List.drop_eq_nil_of_le (by have := hperm.length_eq; omega),
          List.drop_eq_nil_of_le (by omega)])
      refine ⟨random, ?_⟩
      have hlength := hperm.length_eq
      have hnone : xs[i + 1]? = none := List.getElem?_eq_none (by omega)
      rw [shuffleFrom, swap, hnone]
      exact hrandom

/-- **Every order is an outcome of the shuffle.** -/
theorem exists_shuffle_eq {xs ys : List α} (hperm : xs.Perm ys) :
    ∃ random, shuffle random xs = ys := by
  refine exists_shuffleFrom_eq _ hperm ?_
  have hlength := hperm.length_eq
  rw [List.drop_eq_nil_of_le (by omega), List.drop_eq_nil_of_le (by omega)]

/-- `findIndex` and `splice`: the first element with a property, and the others. -/
def takeFirst (p : α → Bool) : List α → Option (α × List α)
  | [] => none
  | x :: xs =>
    if p x then some (x, xs)
    else (takeFirst p xs).map fun taken => (taken.1, x :: taken.2)

/-- What is taken, and what is left, was there. -/
theorem mem_of_takeFirst {p : α → Bool} {xs rest : List α} {x : α}
    (h : takeFirst p xs = some (x, rest)) : x ∈ xs ∧ rest ⊆ xs := by
  induction xs generalizing rest with
  | nil => cases h
  | cons y ys ih =>
    unfold takeFirst at h
    split at h
    · cases h
      exact ⟨List.mem_cons_self .., List.subset_cons_self _ _⟩
    · obtain ⟨⟨z, zs⟩, htaken, heq⟩ := Option.map_eq_some_iff.mp h
      cases heq
      obtain ⟨hx, hrest⟩ := ih htaken
      exact ⟨List.mem_cons_of_mem y hx, List.cons_subset_cons y hrest⟩

end Shuffle

/-- The choice of one question: unused and of the expected level, else unused, else recycled.
It answers the pools that are left. -/
def selectQuestion (allowRecycling : Bool) (expectedLevel : Option QuestionDifficultyLevel)
    (unusedPool usedPool : List Question) : Option Question × List Question × List Question :=
  let matching := expectedLevel.bind fun level =>
    takeFirst (fun q => level.levelIds.contains q.levelId) unusedPool
  match matching, unusedPool, usedPool with
  | some (q, unused), _, used => (some q, unused, used)
  | none, q :: unused, used => (some q, unused, used)
  | none, [], q :: used => if allowRecycling then (some q, [], used) else (none, [], q :: used)
  | none, [], [] => (none, [], [])

/-- The loop of `selectBestQuestions` over the requests. -/
def selectQuestions (allowRecycling : Bool) :
    List (Option QuestionDifficultyLevel) → List Question → List Question → List (Option Question)
  | [], _, _ => []
  | expectedLevel :: requests, unusedPool, usedPool =>
    let (selected, unused, used) := selectQuestion allowRecycling expectedLevel unusedPool usedPool
    selected :: selectQuestions allowRecycling requests unused used

/-- `selectBestQuestions`, with the random numbers of its two shuffles. -/
def selectBestQuestions (random randomUsed : ℕ → ℕ) (availablePool : List Question)
    (usedIdsList : List QuestionId) (requests : List (Option QuestionDifficultyLevel))
    (allowRecycling : Bool) : List (Option Question) :=
  selectQuestions allowRecycling requests
    (shuffle random (availablePool.filter fun q => !usedIdsList.contains q.id))
    (shuffle randomUsed (availablePool.filter fun q => usedIdsList.contains q.id))

/-- One choice takes a question of the pools, and leaves questions of the pools. -/
theorem selectQuestion_subset (allowRecycling : Bool)
    (expectedLevel : Option QuestionDifficultyLevel) (unusedPool usedPool : List Question) :
    let (selected, unused, used) := selectQuestion allowRecycling expectedLevel unusedPool usedPool
    (∀ q ∈ selected, q ∈ unusedPool ∨ q ∈ usedPool) ∧ unused ⊆ unusedPool ∧ used ⊆ usedPool := by
  unfold selectQuestion
  cases hmatching : expectedLevel.bind fun level =>
      takeFirst (fun q => level.levelIds.contains q.levelId) unusedPool with
  | some taken =>
    obtain ⟨q, rest⟩ := taken
    obtain ⟨level, _, htaken⟩ := Option.bind_eq_some_iff.mp hmatching
    obtain ⟨hq, hrest⟩ := mem_of_takeFirst htaken
    simp [hq, hrest]
  | none =>
    cases unusedPool with
    | cons q rest => simp
    | nil =>
      cases usedPool with
      | nil => simp
      | cons q rest => cases allowRecycling <;> simp

/-- Only questions of the pools are selected. -/
theorem mem_of_selectQuestions {allowRecycling : Bool}
    {requests : List (Option QuestionDifficultyLevel)} {unusedPool usedPool : List Question}
    {q : Question} (h : some q ∈ selectQuestions allowRecycling requests unusedPool usedPool) :
    q ∈ unusedPool ∨ q ∈ usedPool := by
  induction requests generalizing unusedPool usedPool with
  | nil => cases h
  | cons expectedLevel requests ih =>
    have hstep := selectQuestion_subset allowRecycling expectedLevel unusedPool usedPool
    obtain ⟨hselected, hunused, hused⟩ := hstep
    rcases List.mem_cons.mp h with h | h
    · exact hselected q h.symm
    · exact (ih h).imp (fun hq => hunused hq) fun hq => hused hq

/-- Only questions of the available pool are selected. -/
theorem mem_of_selectBestQuestions {random randomUsed : ℕ → ℕ} {availablePool : List Question}
    {usedIdsList : List QuestionId} {requests : List (Option QuestionDifficultyLevel)}
    {allowRecycling : Bool} {q : Question}
    (h : some q ∈ selectBestQuestions random randomUsed availablePool usedIdsList requests
      allowRecycling) : q ∈ availablePool := by
  rcases mem_of_selectQuestions h with hq | hq
  · exact (List.mem_filter.mp (mem_of_mem_shuffle hq)).1
  · exact (List.mem_filter.mp (mem_of_mem_shuffle hq)).1

/-- One topic of a course, as the first transaction of a generation plans it. -/
structure TopicPlan where
  topicId : CatalogId
  subtopicId : CatalogId
  /-- `expected_levels`; their number is `quantity`. -/
  expectedLevels : List QuestionDifficultyLevel
  deriving DecidableEq, Repr

/-- One course of a generation: an entry of `realDistributions`. -/
structure CoursePlan where
  courseId : CatalogId
  topics : List TopicPlan
  deriving DecidableEq, Repr

/-- The slots of one topic. -/
def planTopic (bank : QuestionBank) (random : ℕ → ℕ) (excludeQuestionIds : List QuestionId)
    (topic : TopicPlan) : List ReviewSlot :=
  let availablePool := (bank.questionsOf topic.subtopicId).filter fun q =>
    !excludeQuestionIds.contains q.id
  let selected := selectBestQuestions random random availablePool []
    (topic.expectedLevels.map some) false
  (topic.expectedLevels.zip selected).map fun (level, q) =>
    { topicId := topic.topicId
      subtopicId := topic.subtopicId
      expectedLevel := level.label
      questionId := q.map (·.id) }

/-- `buildReviewPlan`: the slots of all topics of all courses, each course with its exclusion
list. The random numbers are those of each topic. -/
def buildReviewPlan (bank : QuestionBank) (random : List (List ℕ))
    (distributions : List (CoursePlan × List QuestionId)) : List ReviewSlot :=
  (distributions.flatMap fun (course, excluded) => course.topics.map fun t =>
    (excluded, t)).zipIdx.flatMap
    fun ((excluded, topic), i) => planTopic bank (fun n => (random.getD i []).getD n 0) excluded topic

/-- **A slot of the plan** belongs to a topic of one of the courses, and its question is not on
the exclusion list of this course. -/
theorem mem_buildReviewPlan {bank : QuestionBank} {random : List (List ℕ)}
    {distributions : List (CoursePlan × List QuestionId)} {slot : ReviewSlot}
    (h : slot ∈ buildReviewPlan bank random distributions) :
    ∃ course excluded topic, (course, excluded) ∈ distributions ∧ topic ∈ course.topics ∧
      slot.topicId = topic.topicId ∧ ∀ x, slot.questionId = some x → x ∉ excluded := by
  obtain ⟨⟨⟨excluded, topic⟩, i⟩, hentry, hslot⟩ := List.mem_flatMap.mp h
  obtain ⟨⟨course, excluded'⟩, hcourse, hmap⟩ :=
    List.mem_flatMap.mp (List.mem_of_getElem? (List.mem_zipIdx_iff_getElem?.mp hentry))
  obtain ⟨topic', htopic, heq⟩ := List.mem_map.mp hmap
  cases heq
  obtain ⟨⟨level, q⟩, hzip, rfl⟩ := List.mem_map.mp hslot
  refine ⟨course, excluded, topic, hcourse, htopic, rfl, fun x hx => ?_⟩
  obtain ⟨q', hq', rfl⟩ := Option.map_eq_some_iff.mp hx
  have hselected : some q' ∈ selectBestQuestions _ _ _ _ _ _ := hq' ▸ (List.of_mem_zip hzip).2
  simpa using (List.mem_filter.mp (mem_of_selectBestQuestions hselected)).2

end Odiseo.Materials
