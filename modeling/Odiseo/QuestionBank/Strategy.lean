import Odiseo.Materials.SelectionSpec

/-!
# The selection strategy on raw difficulties

`QuestionSelectionStrategy.selectBestQuestions` as the question bank calls it: the expected
level of a request is any text, in any case and with the Spanish synonyms. A text that stands
for no difficulty is a request without level, so the strategy is the one of the review plan.
-/

namespace Odiseo.QuestionBank

open Odiseo.Materials Picking

/-- `SelectionRequest`. -/
structure SelectionRequest where
  expectedLevel : Option String
  deriving DecidableEq, Repr

variable (toUpperCase : String → String)

/-- `getLevelIdsForDifficulty`. -/
def getLevelIdsForDifficulty (difficulty : String) : List ℕ :=
  let upperDiff := toUpperCase difficulty
  if upperDiff = "EASY" ∨ upperDiff = "FACIL" then QuestionDifficultyLevel.easy.levelIds
  else if upperDiff = "MEDIUM" ∨ upperDiff = "INTERMEDIO" ∨ upperDiff = "MEDIA" then
    QuestionDifficultyLevel.medium.levelIds
  else if upperDiff = "HARD" ∨ upperDiff = "DIFICIL" then QuestionDifficultyLevel.hard.levelIds
  else []

/-- The level keys that a request asks for; a missing and an empty text ask for none. -/
def SelectionRequest.levelIds (req : SelectionRequest) : Option (List ℕ) :=
  (req.expectedLevel.filter (· ≠ "")).map (getLevelIdsForDifficulty toUpperCase)

/-- One turn of the loop: the question, and the two pools that are left. -/
def selectOne (allowRecycling : Bool) (req : SelectionRequest) (unusedPool usedPool : List Question) :
    Option Question × List Question × List Question :=
  -- Priority 1: unused and of the expected level.
  let matching := (req.levelIds toUpperCase).bind fun levelIds =>
    takeFirst (fun q => levelIds.contains q.levelId) unusedPool
  match matching, unusedPool, usedPool with
  | some (q, unused), _, used => (some q, unused, used)
  -- Priority 2: unused.
  | none, q :: unused, used => (some q, unused, used)
  -- Priority 3: used.
  | none, [], q :: used => if allowRecycling then (some q, [], used) else (none, [], q :: used)
  | none, [], [] => (none, [], [])

/-- The loop over the requests. -/
def selectLoop (allowRecycling : Bool) :
    List SelectionRequest → List Question → List Question → List (Option Question)
  | [], _, _ => []
  | req :: requests, unusedPool, usedPool =>
    let (selected, unused, used) := selectOne toUpperCase allowRecycling req unusedPool usedPool
    selected :: selectLoop allowRecycling requests unused used

/-- `QuestionSelectionStrategy.selectBestQuestions`, with the random numbers of its shuffles. -/
def selectBestQuestions (random randomUsed : ℕ → ℕ) (availablePool : List Question)
    (usedIdsList : List QuestionId) (requests : List SelectionRequest) (allowRecycling : Bool) :
    List (Option Question) :=
  selectLoop toUpperCase allowRecycling requests
    (shuffle random (availablePool.filter fun q => !usedIdsList.contains q.id))
    (shuffle randomUsed (availablePool.filter fun q => usedIdsList.contains q.id))

/-- The difficulty that a text stands for. -/
def difficultyOf (difficulty : String) : Option QuestionDifficultyLevel :=
  [QuestionDifficultyLevel.easy, .medium, .hard].find? fun level =>
    getLevelIdsForDifficulty toUpperCase difficulty == level.levelIds

/-- The difficulty that a request asks for. -/
def SelectionRequest.level (req : SelectionRequest) : Option QuestionDifficultyLevel :=
  (req.expectedLevel.filter (· ≠ "")).bind (difficultyOf toUpperCase)

/-- A text stands for one of the difficulties, or for no level key. -/
theorem getLevelIdsForDifficulty_eq (difficulty : String) :
    getLevelIdsForDifficulty toUpperCase difficulty =
      ((difficultyOf toUpperCase difficulty).map QuestionDifficultyLevel.levelIds).getD [] := by
  unfold difficultyOf getLevelIdsForDifficulty
  dsimp only
  split
  · rfl
  · split
    · rfl
    · split <;> rfl

/-- **One turn** goes by the difficulty that the request asks for. -/
theorem selectOne_eq (allowRecycling : Bool) (req : SelectionRequest)
    (unusedPool usedPool : List Question) :
    selectOne toUpperCase allowRecycling req unusedPool usedPool =
      selectQuestion allowRecycling (req.level toUpperCase) unusedPool usedPool := by
  have hmatching : ((req.levelIds toUpperCase).bind fun levelIds =>
        takeFirst (fun q => levelIds.contains q.levelId) unusedPool) =
      (req.level toUpperCase).bind fun level =>
        takeFirst (fun q => level.levelIds.contains q.levelId) unusedPool := by
    unfold SelectionRequest.levelIds SelectionRequest.level
    cases req.expectedLevel.filter (· ≠ "") with
    | none => rfl
    | some difficulty =>
      have hids := getLevelIdsForDifficulty_eq toUpperCase difficulty
      cases hlevel : difficultyOf toUpperCase difficulty with
      | some level => simp [hids, hlevel]
      | none =>
        have hnone : takeFirst (fun _ : Question => false) unusedPool = none := by
          cases htaken : takeFirst (fun _ : Question => false) unusedPool with
          | none => rfl
          | some taken =>
            obtain ⟨before, after, _, _, htrue, _⟩ := takeFirst_eq_some htaken
            cases htrue
        simp [hids, hlevel, hnone]
  unfold selectOne selectQuestion
  rewrite [hmatching]
  rfl

/-- **The strategy on texts is the strategy on difficulties.** -/
theorem selectBestQuestions_eq (random randomUsed : ℕ → ℕ) (availablePool : List Question)
    (usedIdsList : List QuestionId) (requests : List SelectionRequest) (allowRecycling : Bool) :
    selectBestQuestions toUpperCase random randomUsed availablePool usedIdsList requests
        allowRecycling =
      Materials.selectBestQuestions random randomUsed availablePool usedIdsList
        (requests.map (·.level toUpperCase)) allowRecycling := by
  have hloop : ∀ (reqs : List SelectionRequest) (unusedPool usedPool : List Question),
      selectLoop toUpperCase allowRecycling reqs unusedPool usedPool =
        selectQuestions allowRecycling (reqs.map (·.level toUpperCase)) unusedPool usedPool := by
    intro reqs
    induction reqs with
    | nil => exact fun _ _ => rfl
    | cons req reqs ih =>
      intro unusedPool usedPool
      rw [selectLoop, List.map_cons, selectQuestions, selectOne_eq]
      simp only [ih]
  exact hloop requests _ _

/-- What the strategy promises about the questions that it selects. -/
structure Sound (availablePool : List Question) (usedIdsList : List QuestionId)
    (requests : List SelectionRequest) (allowRecycling : Bool) (selected : List (Option Question)) :
    Prop where
  /-- One result for each request. -/
  length : selected.length = requests.length
  /-- No question is picked twice. -/
  nodup : (selected.reduceOption.map (·.id)).Nodup
  /-- The picks come from the pool. -/
  mem : ∀ q, some q ∈ selected → q ∈ availablePool
  /-- A used question is picked only when recycling is allowed and no unused one is left. -/
  used : ∀ i q, selected[i]? = some (some q) → q.id ∈ usedIdsList →
    allowRecycling = true ∧ ∀ p ∈ availablePool, p.id ∉ usedIdsList → some p ∈ selected.take i
  /-- Requests stay unanswered only when the questions run out. -/
  count : selected.reduceOption.length = min requests.length
    ((availablePool.filter fun q => !usedIdsList.contains q.id).length +
      if allowRecycling then (availablePool.filter fun q => usedIdsList.contains q.id).length else 0)
  /-- A request with a level gets an unused question of this level when one is left. -/
  level : ∀ i difficulty, requests[i]? = some ⟨some difficulty⟩ → difficulty ≠ "" →
    ∀ p ∈ availablePool, p.id ∉ usedIdsList →
      p.levelId ∈ getLevelIdsForDifficulty toUpperCase difficulty → some p ∉ selected.take i →
        ∃ q, selected[i]? = some (some q) ∧ q.id ∉ usedIdsList ∧
          q.levelId ∈ getLevelIdsForDifficulty toUpperCase difficulty

/-- **The strategy keeps its promises** for every pool, every list of used questions, every
list of requests and every outcome of its shuffles. -/
theorem selection_sound (random randomUsed : ℕ → ℕ) (availablePool : List Question)
    (hids : (availablePool.map (·.id)).Nodup) (usedIdsList : List QuestionId)
    (requests : List SelectionRequest) (allowRecycling : Bool) :
    Sound toUpperCase availablePool usedIdsList requests allowRecycling
      (selectBestQuestions toUpperCase random randomUsed availablePool usedIdsList requests
        allowRecycling) := by
  have hnodup := nodup_selectBestQuestions allowRecycling random randomUsed hids
    usedIdsList (requests.map (·.level toUpperCase))
  rw [selectBestQuestions_eq, selectBestQuestions_eq_picks]
  rw [selectBestQuestions_eq_picks] at hnodup
  set pool := candidates random randomUsed availablePool usedIdsList allowRecycling with hpool
  set levels := requests.map (·.level toUpperCase) with hlevels
  have hsubperm : pool.Subperm availablePool := candidates_subperm allowRecycling
  have hturn (i : ℕ) : (picks (standing usedIdsList) levels pool)[i]? =
      levels[i]?.map fun w => pick (standing usedIdsList) w
        (left (standing usedIdsList) (levels.take i) pool) := getElem?_picks _ i
  have hbefore (i : ℕ) (q : Question) : q ∈ taken (standing usedIdsList) (levels.take i) pool ↔
      some q ∈ (picks (standing usedIdsList) levels pool).take i := by
    rw [taken, take_picks, List.reduceOption_mem_iff]
  refine ⟨by simp [hlevels], hnodup, ?_, ?_, ?_, ?_⟩
  · intro q hq
    have htaken : q ∈ taken (standing usedIdsList) levels pool :=
      List.reduceOption_mem_iff.mpr hq
    exact hsubperm.subset (mem_of_mem_taken _ htaken)
  · intro i q hq hused
    rw [hturn] at hq
    obtain ⟨w, _, hpick⟩ := Option.map_eq_some_iff.mp hq
    obtain ⟨hrecycling, htaken⟩ := taken_of_pick_used allowRecycling w hpick hused
    exact ⟨hrecycling, fun p hp hunused => (hbefore i p).mp (htaken p hp hunused)⟩
  · have hlength : (taken (standing usedIdsList) levels pool).length = _ := length_taken _
    rw [hpool, length_candidates, hlevels, List.length_map] at hlength
    exact hlength
  · intro i difficulty hreq hne p hp hunused hp' hleft
    have hids' := getLevelIdsForDifficulty_eq toUpperCase difficulty
    obtain ⟨level, hlevel⟩ : ∃ level, difficultyOf toUpperCase difficulty = some level := by
      cases hlevel : difficultyOf toUpperCase difficulty with
      | some level => exact ⟨level, rfl⟩
      | none => simp [hids', hlevel] at hp'
    simp only [hlevel, Option.map_some, Option.getD_some] at hids'
    rw [hids'] at hp' ⊢
    have hw : levels[i]? = some (some level) := by
      rw [hlevels, List.getElem?_map, hreq, Option.map_some, SelectionRequest.level,
        Option.filter_some_pos (by simpa using hne), Option.bind_some, hlevel]
    obtain ⟨q, hpick, hq, hqlevel⟩ := pick_of_level allowRecycling hp hunused
      (Question.level_eq_some_iff.mpr (List.contains_iff_mem.mpr hp'))
      (mt (hbefore i p).mp hleft)
    refine ⟨q, ?_, hq, List.contains_iff_mem.mp (Question.level_eq_some_iff.mp hqlevel)⟩
    rw [hturn, hw]
    exact congrArg some hpick

/-- Two questions, one of them used, and three requests. -/
theorem selection_sound_twoQuestions :
    Sound String.toUpper [⟨1, 43⟩, ⟨2, 45⟩] [2] [⟨some "dificil"⟩, ⟨none⟩, ⟨some "EASY"⟩] true
      (selectBestQuestions String.toUpper id id [⟨1, 43⟩, ⟨2, 45⟩] [2]
        [⟨some "dificil"⟩, ⟨none⟩, ⟨some "EASY"⟩] true) :=
  selection_sound String.toUpper id id [⟨1, 43⟩, ⟨2, 45⟩] (by decide) [2]
    [⟨some "dificil"⟩, ⟨none⟩, ⟨some "EASY"⟩] true

end Odiseo.QuestionBank
