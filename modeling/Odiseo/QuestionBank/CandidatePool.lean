import Odiseo.QuestionBank.Bank
import Odiseo.QuestionBank.Shortage
import Mathlib.Data.List.Dedup

/-!
# The bounded candidate pool

`FlatQuestionsRepository.findBoundedCandidatePool` samples three times the wanted number of
questions for each step of the strategy, and `QuestionBankService.getRandomQuestions` runs the
strategy over the union. Each sample is large enough to hold all that the strategy can take of it,
so the counts are those of the whole list. Where no level is asked for, the first sample is left
out, but its parameter is still bound, and PostgreSQL refuses the query.
-/

namespace Odiseo.QuestionBank

open Odiseo.Materials Picking

/-- `POOL_OVERSAMPLE`. -/
def poolOversample : ℕ := 3

/-- The rows of a subtopic: its active questions, by its active mappings, that the view has. -/
def Bank.baseRows (bank : Bank) (subtopicId : CatalogId) : List QuestionRow :=
  bank.questions.flatMap fun q =>
    (bank.questionSubtopic.filter fun qs =>
      qs.questionId == q.id && qs.flStatus && qs.subtopicId == subtopicId && q.flStatus &&
        bank.flatQuestions.any fun fq => fq.questionId == q.id).map fun _ => q

/-- The projection of a row that the strategy consumes. No difficulty has the level key `0`, which
stands for a missing one. -/
def QuestionRow.toQuestion (row : QuestionRow) : Question :=
  { id := row.id, levelId := row.levelId.getD 0 }

/-- The random numbers of a call: one list for each sample and each shuffle. -/
structure Randoms where
  levelTier : ℕ → ℕ
  unusedTier : ℕ → ℕ
  usedTier : ℕ → ℕ
  /-- The order in which `UNION` answers the rows. -/
  union : ℕ → ℕ
  unusedPool : ℕ → ℕ
  usedPool : ℕ → ℕ

variable (toUpperCase : String → String) (number : QuestionId → Option ℕ)

/-- The level keys of a call; a missing and an empty difficulty have none. -/
def levelIdsOf (difficulty : Option String) : List ℕ :=
  ((difficulty.filter (· ≠ "")).map (getLevelIdsForDifficulty toUpperCase)).getD []

/-- `unused`: the rows that the exclusion list does not name. -/
def Bank.unusedRows (bank : Bank) (subtopicId : CatalogId) (excluded : List QuestionId) :
    List QuestionRow :=
  (bank.baseRows subtopicId).filter fun q => !excluded.contains q.id

/-- `used`: the rows that the exclusion list names. -/
def Bank.usedRows (bank : Bank) (subtopicId : CatalogId) (excluded : List QuestionId) :
    List QuestionRow :=
  (bank.baseRows subtopicId).filter fun q => excluded.contains q.id

/-- The first tier, which is only there when a difficulty is asked for. -/
def levelTier (random : ℕ → ℕ) (perTier : ℕ) (levelIds : List ℕ) (unused : List QuestionRow) :
    List QuestionRow :=
  if levelIds.isEmpty then []
  else
    orderByRandomLimit random perTier (unused.filter fun q => q.levelId.any levelIds.contains)

/-- The rows of all tiers. -/
def Bank.tiers (r : Randoms) (bank : Bank) (subtopicId : CatalogId) (perTier : ℕ)
    (excluded : List QuestionId) (levelIds : List ℕ) : List QuestionRow :=
  levelTier r.levelTier perTier levelIds (bank.unusedRows subtopicId excluded) ++
    orderByRandomLimit r.unusedTier perTier (bank.unusedRows subtopicId excluded) ++
    orderByRandomLimit r.usedTier perTier (bank.usedRows subtopicId excluded)

/-- An error of the question bank. -/
inductive QueryError
  /-- `08P01`: a query was bound to another number of parameters than its text uses. -/
  | protocolViolation (supplied required : ℕ)
  deriving DecidableEq, Repr

/-- The length of `params`: the subtopic, the excluded ids, the limit and the level keys. -/
def poolParams : ℕ := 4

/-- The parameters that the text of the query uses; only the first tier names the level keys. -/
def requiredParams (levelIds : List ℕ) : ℕ := if levelIds.isEmpty then 3 else 4

/-- The pool that the query answers; `number` is JavaScript's `Number` where it is finite. -/
def sampledPool (r : Randoms) (bank : Bank) (subtopicId : CatalogId) (limit : ℕ)
    (excludeIds : List QuestionId) (difficulty : Option String) : List Question :=
  let perTier := limit * poolOversample
  let excluded := excludeIds.filterMap number
  let levelIds := levelIdsOf toUpperCase difficulty
  -- `UNION` answers each row once, in any order.
  (shuffle r.union (bank.tiers r subtopicId perTier excluded levelIds).dedup).map
    QuestionRow.toQuestion

/-- `findBoundedCandidatePool`. -/
def findBoundedCandidatePool (r : Randoms) (bank : Bank) (subtopicId : CatalogId) (limit : ℕ)
    (excludeIds : List QuestionId) (difficulty : Option String) :
    Except QueryError (List Question) :=
  let required := requiredParams (levelIdsOf toUpperCase difficulty)
  if poolParams = required then
    .ok (sampledPool toUpperCase number r bank subtopicId limit excludeIds difficulty)
  else .error (.protocolViolation poolParams required)

/-- The questions that the service picks from a pool, with all their columns. -/
def pickFrom (r : Randoms) (bank : Bank) (limit : ℕ) (excludeIds : List QuestionId)
    (difficulty : Option String) (pool : List Question) : List QuestionRow :=
  let requests := List.replicate limit { expectedLevel := difficulty : SelectionRequest }
  let selectedQ := selectBestQuestions toUpperCase r.unusedPool r.usedPool pool excludeIds requests
    true
  let selectedIds := selectedQ.reduceOption.map (·.id)
  bank.questions.filter fun q => selectedIds.contains q.id

/-- `QuestionBankService.getRandomQuestions`; an error of the pool leaves it. -/
def getRandomQuestions (r : Randoms) (bank : Bank) (subtopicId : CatalogId) (limit : ℕ)
    (excludeIds : List QuestionId) (difficulty : Option String) :
    Except QueryError (List QuestionRow) :=
  if limit = 0 then .ok []
  else do
    let pool ← findBoundedCandidatePool toUpperCase number r bank subtopicId limit excludeIds
      difficulty
    .ok (pickFrom toUpperCase r bank limit excludeIds difficulty pool)

/-- The strategy over all questions of the subtopic. -/
def selectFromAll (random randomUsed : ℕ → ℕ) (bank : Bank) (subtopicId : CatalogId) (limit : ℕ)
    (excludeIds : List QuestionId) (difficulty : Option String) : List Question :=
  (selectBestQuestions toUpperCase random randomUsed
    ((bank.baseRows subtopicId).map QuestionRow.toQuestion) excludeIds
    (List.replicate limit { expectedLevel := difficulty }) true).reduceOption

/-- How many questions of a selection are unused and of a level, how many are unused, and how many
there are. -/
def tierCounts (excludeIds : List QuestionId) (levelIds : List ℕ) (selected : List Question) :
    ℕ × ℕ × ℕ :=
  (selected.countP fun q => !excludeIds.contains q.id && levelIds.contains q.levelId,
    selected.countP fun q => !excludeIds.contains q.id,
    selected.length)

section Rows

variable {bank : Bank} {subtopicId : CatalogId}

/-- A list that gives each element at most itself is a part of the list. -/
theorem flatMap_sublist {α : Type} {f : α → List α} {xs : List α}
    (h : ∀ x ∈ xs, (f x).Sublist [x]) : (xs.flatMap f).Sublist xs := by
  induction xs with
  | nil => exact List.Sublist.refl _
  | cons x xs ih =>
    rw [List.flatMap_cons]
    exact (h x List.mem_cons_self).append (ih fun y hy => h y (List.mem_cons_of_mem x hy))

/-- Each question is a row of a subtopic at most once. -/
theorem baseRows_sublist : (bank.baseRows subtopicId).Sublist bank.questions := by
  refine flatMap_sublist fun q _ => ?_
  set mappings := bank.questionSubtopic.filter fun qs =>
    qs.questionId == q.id && qs.flStatus && qs.subtopicId == subtopicId && q.flStatus &&
      bank.flatQuestions.any fun fq => fq.questionId == q.id with hmappings
  have hkeys : mappings.map (fun m => (m.questionId, m.subtopicId)) =
      List.replicate mappings.length (q.id, subtopicId) := by
    rw [List.eq_replicate_iff, List.length_map]
    refine ⟨rfl, fun key hkey => ?_⟩
    obtain ⟨m, hm, rfl⟩ := List.mem_map.mp hkey
    have hcond := (List.mem_filter.mp hm).2
    simp only [Bool.and_eq_true, beq_iff_eq] at hcond
    rw [hcond.1.1.1.1, hcond.1.1.2]
  have hnodup : (mappings.map fun m => (m.questionId, m.subtopicId)).Nodup :=
    (List.filter_sublist.map _).nodup bank.questionSubtopic_key
  rw [hkeys, List.nodup_replicate] at hnodup
  match hm : mappings, hnodup with
  | [], _ => exact List.nil_sublist _
  | [_], _ => exact List.Sublist.refl _

/-- The rows of a subtopic are distinct. -/
theorem nodup_baseRows : (bank.baseRows subtopicId).Nodup :=
  baseRows_sublist.nodup bank.questions_key.of_map

/-- The questions of a subtopic are distinct. -/
theorem toQuestion_inj {row row' : QuestionRow} (hrow : row ∈ bank.questions)
    (hrow' : row' ∈ bank.questions) (hid : row.id = row'.id) : row = row' :=
  List.inj_on_of_nodup_map bank.questions_key hrow hrow' hid

end Rows

section Counts

variable {excludeIds : List QuestionId} {difficulty : Option String}

/-- The difficulties have no key for a missing level. -/
theorem zero_notMem_levelIdsOf : 0 ∉ levelIdsOf toUpperCase difficulty := by
  unfold levelIdsOf
  cases difficulty.filter (· ≠ "") with
  | none => simp
  | some difficulty =>
    simp only [Option.map_some, Option.getD_some, getLevelIdsForDifficulty_eq]
    cases difficultyOf toUpperCase difficulty with
    | none => simp
    | some level => cases level <;> simp [QuestionDifficultyLevel.levelIds]

/-- The level keys of a call are those of the level that its requests ask for. -/
theorem levelIdsOf_eq :
    levelIdsOf toUpperCase difficulty =
      ((SelectionRequest.level toUpperCase ⟨difficulty⟩).map
        QuestionDifficultyLevel.levelIds).getD [] := by
  unfold levelIdsOf SelectionRequest.level
  cases difficulty.filter (· ≠ "") with
  | none => rfl
  | some difficulty =>
    simp only [Option.map_some, Option.getD_some, Option.bind_some, getLevelIdsForDifficulty_eq]

/-- **What a selection of one difficulty takes** from a pool: of each step as much as there is, up
to the number of requests. -/
theorem tierCounts_selected (excludeIds : List QuestionId) (difficulty : Option String)
    (random randomUsed : ℕ → ℕ) (pool : List Question) (limit : ℕ) :
    tierCounts excludeIds (levelIdsOf toUpperCase difficulty)
        (selectBestQuestions toUpperCase random randomUsed pool excludeIds
          (List.replicate limit { expectedLevel := difficulty }) true).reduceOption =
      (min limit (pool.countP fun q => !excludeIds.contains q.id &&
          (levelIdsOf toUpperCase difficulty).contains q.levelId),
        min limit (pool.countP fun q => !excludeIds.contains q.id), min limit pool.length) := by
  rw [selectBestQuestions_eq, selectBestQuestions_eq_picks, List.map_replicate]
  set level := SelectionRequest.level toUpperCase ⟨difficulty⟩ with hlevel
  set cands := candidates random randomUsed pool excludeIds true with hcands
  change tierCounts _ _ (taken (standing excludeIds) (List.replicate limit level) cands) = _
  have hunused := countP_unused_taken true random randomUsed pool excludeIds
    (List.replicate limit level)
  have hlength : (taken (standing excludeIds) (List.replicate limit level) cands).length =
      min limit pool.length := by
    rw [length_taken, List.length_replicate, hcands, length_candidates, if_pos rfl,
      length_unused_add_used]
  rw [List.length_replicate] at hunused
  refine Prod.ext ?_ (Prod.ext hunused hlength)
  change (taken (standing excludeIds) (List.replicate limit level) cands).countP _ = min limit _
  rw [levelIdsOf_eq, ← hlevel]
  cases hlevel' : level with
  | none => simp
  | some level' =>
    have hsupply : ∀ qs : List Question, (qs.countP fun q => !excludeIds.contains q.id &&
        level'.levelIds.contains q.levelId) = supply (standing excludeIds) qs (some level') := by
      intro qs
      rw [supply, List.count, List.countP_map]
      refine List.countP_congr fun q _ => ?_
      rw [Function.comp_apply, Bool.and_eq_true, beq_iff_eq, standing_eq_some_iff,
        Question.level_eq_some_iff]
      simp
    simp only [Option.map_some, Option.getD_some, hsupply]
    have hmin := min_le_supply_taken (standing excludeIds) (List.replicate limit (some level'))
      cands level'
    have hsplit := supply_eq_taken_add_left (standing excludeIds)
      (List.replicate limit (some level')) cands (some level')
    have htaken := List.countP_le_length (p := fun q => !excludeIds.contains q.id &&
      level'.levelIds.contains q.levelId)
      (l := taken (standing excludeIds) (List.replicate limit (some level')) cands)
    rw [hsupply, length_taken, List.length_replicate] at htaken
    rw [List.count_replicate_self] at hmin
    rw [hcands, supply_candidates, ← hcands] at hmin hsplit
    omega

end Counts

section Pool

variable {toUpperCase number} {r : Randoms} {bank : Bank} {subtopicId : CatalogId} {limit : ℕ}
  {excludeIds : List QuestionId} {difficulty : Option String}

/-- A union of samples has at least one of them, and at most the rows. -/
theorem countP_dedup_bounds {tiers tier rows : List QuestionRow} {p : QuestionRow → Bool}
    (htiers : tiers ⊆ rows) (hnodup : tier.Nodup) (htier : tier ⊆ tiers)
    (hp : ∀ row ∈ tier, p row = true) :
    tier.length ≤ tiers.dedup.countP p ∧ tiers.dedup.countP p ≤ rows.countP p := by
  constructor
  · have hsubperm : tier.Subperm tiers.dedup :=
      hnodup.subperm fun row hrow => List.mem_dedup.mpr (htier hrow)
    have hle := hsubperm.countP_le p
    rwa [List.countP_eq_length.mpr hp] at hle
  · have hsubperm : tiers.dedup.Subperm rows :=
      tiers.nodup_dedup.subperm fun row hrow => htiers (List.mem_dedup.mp hrow)
    exact hsubperm.countP_le p

/-- The level of a row, as the strategy sees it. -/
theorem contains_toQuestion (row : QuestionRow) :
    (levelIdsOf toUpperCase difficulty).contains row.toQuestion.levelId =
      row.levelId.any (levelIdsOf toUpperCase difficulty).contains := by
  unfold QuestionRow.toQuestion
  cases row.levelId with
  | none => simpa using zero_notMem_levelIdsOf toUpperCase
  | some levelId => rfl

/-- The tiers are rows of the subtopic. -/
theorem tiers_subset {perTier : ℕ} {levelIds : List ℕ} :
    bank.tiers r subtopicId perTier excludeIds levelIds ⊆ bank.baseRows subtopicId := by
  intro row hrow
  rcases List.mem_append.mp hrow with hrow | hrow
  · rcases List.mem_append.mp hrow with hrow | hrow
    · unfold levelTier at hrow
      split at hrow
      · cases hrow
      · have hunused := (List.mem_filter.mp (mem_of_mem_orderByRandomLimit hrow)).1
        exact (List.mem_filter.mp hunused).1
    · exact (List.mem_filter.mp (mem_of_mem_orderByRandomLimit hrow)).1
  · exact (List.mem_filter.mp (mem_of_mem_orderByRandomLimit hrow)).1

/-- The rows of a tier, counted in the union. -/
theorem countP_tiers_bounds {perTier : ℕ} {levelIds : List ℕ} {random : ℕ → ℕ}
    {p : QuestionRow → Bool}
    (htier : orderByRandomLimit random perTier ((bank.baseRows subtopicId).filter p) ⊆
      bank.tiers r subtopicId perTier excludeIds levelIds) :
    min perTier ((bank.baseRows subtopicId).countP p) ≤
        (bank.tiers r subtopicId perTier excludeIds levelIds).dedup.countP p ∧
      (bank.tiers r subtopicId perTier excludeIds levelIds).dedup.countP p ≤
        (bank.baseRows subtopicId).countP p := by
  have hrows : ((bank.baseRows subtopicId).filter p).Nodup := nodup_baseRows.filter p
  have hbounds := countP_dedup_bounds tiers_subset (nodup_orderByRandomLimit hrows random perTier)
    htier fun row hrow => (List.mem_filter.mp (mem_of_mem_orderByRandomLimit hrow)).2
  rwa [length_orderByRandomLimit, ← List.countP_eq_length_filter] at hbounds

/-- What the strategy sees of the pool, counted in the rows of the tiers. -/
theorem countP_pool (hcanonical : ∀ id ∈ excludeIds, number id = some id) (p : Question → Bool) :
    (sampledPool toUpperCase number r bank subtopicId limit excludeIds
        difficulty).countP p =
      (bank.tiers r subtopicId (limit * poolOversample) excludeIds
        (levelIdsOf toUpperCase difficulty)).dedup.countP (p ∘ QuestionRow.toQuestion) := by
  have hexcluded : excludeIds.filterMap number = excludeIds := by
    rw [List.filterMap_congr hcanonical]
    exact List.filterMap_some
  rw [sampledPool, hexcluded, List.countP_map, (shuffle_perm _ _).countP_eq]

/-- **The pool holds enough** of the questions that one of its tiers samples. -/
theorem min_countP_pool (hcanonical : ∀ id ∈ excludeIds, number id = some id) (random : ℕ → ℕ)
    (p : Question → Bool)
    (htier : orderByRandomLimit random (limit * poolOversample)
        ((bank.baseRows subtopicId).filter (p ∘ QuestionRow.toQuestion)) ⊆
      bank.tiers r subtopicId (limit * poolOversample) excludeIds
        (levelIdsOf toUpperCase difficulty)) :
    min limit ((sampledPool toUpperCase number r bank subtopicId limit excludeIds
        difficulty).countP p) =
      min limit (((bank.baseRows subtopicId).map QuestionRow.toQuestion).countP p) := by
  have hbounds := countP_tiers_bounds htier
  rw [countP_pool hcanonical, List.countP_map]
  unfold poolOversample at *
  omega

variable (toUpperCase r bank subtopicId limit difficulty) in
/-- **The pool is as good as the whole list** for the strategy: it has as many unused questions of
the level, unused questions and questions, up to the number of requests. -/
theorem min_tierCounts_pool (hcanonical : ∀ id ∈ excludeIds, number id = some id) :
    let pool := sampledPool toUpperCase number r bank subtopicId limit excludeIds difficulty
    let all := (bank.baseRows subtopicId).map QuestionRow.toQuestion
    min limit (pool.countP fun q => !excludeIds.contains q.id &&
        (levelIdsOf toUpperCase difficulty).contains q.levelId) =
      min limit (all.countP fun q => !excludeIds.contains q.id &&
        (levelIdsOf toUpperCase difficulty).contains q.levelId) ∧
    min limit (pool.countP fun q => !excludeIds.contains q.id) =
      min limit (all.countP fun q => !excludeIds.contains q.id) ∧
    min limit pool.length = min limit all.length := by
  intro pool all
  have hunused : min limit (pool.countP fun q => !excludeIds.contains q.id) =
      min limit (all.countP fun q => !excludeIds.contains q.id) := by
    refine min_countP_pool hcanonical r.unusedTier _ fun row hrow => ?_
    exact List.mem_append_left _ (List.mem_append_right _ hrow)
  have hused : min limit (pool.countP fun q => excludeIds.contains q.id) =
      min limit (all.countP fun q => excludeIds.contains q.id) := by
    refine min_countP_pool hcanonical r.usedTier _ fun row hrow => ?_
    exact List.mem_append_right _ hrow
  refine ⟨?_, hunused, ?_⟩
  · by_cases hlevels : levelIdsOf toUpperCase difficulty = []
    · simp [hlevels]
    · refine min_countP_pool hcanonical r.levelTier _ fun row hrow => ?_
      refine List.mem_append_left _ (List.mem_append_left _ ?_)
      have hfilter : (bank.unusedRows subtopicId excludeIds).filter
          (fun row => row.levelId.any (levelIdsOf toUpperCase difficulty).contains) =
          (bank.baseRows subtopicId).filter ((fun q : Question => !excludeIds.contains q.id &&
            (levelIdsOf toUpperCase difficulty).contains q.levelId) ∘ QuestionRow.toQuestion) := by
        rw [Bank.unusedRows, List.filter_filter]
        refine List.filter_congr fun row _ => ?_
        rw [Function.comp_apply, contains_toQuestion, Bool.and_comm]
        rfl
      rw [levelTier, if_neg (by simpa using hlevels), hfilter]
      exact hrow
  · have hsplit : ∀ qs : List Question, qs.length =
        qs.countP (fun q => excludeIds.contains q.id) +
          qs.countP fun q => !excludeIds.contains q.id := by
      intro qs
      rw [List.length_eq_countP_add_countP fun q : Question => excludeIds.contains q.id]
      congr 1
      refine List.countP_congr fun q _ => ?_
      simp
    rw [hsplit pool, hsplit all]
    omega

end Pool

section Answer

variable {toUpperCase number} {r : Randoms} {bank : Bank} {subtopicId : CatalogId} {limit : ℕ}
  {excludeIds : List QuestionId} {difficulty : Option String}

/-- The questions of the pool are rows of the bank. -/
theorem exists_of_mem_pool (hcanonical : ∀ id ∈ excludeIds, number id = some id) {q : Question}
    (hq : q ∈ sampledPool toUpperCase number r bank subtopicId limit excludeIds
      difficulty) : ∃ row ∈ bank.questions, row.toQuestion = q := by
  have hexcluded : excludeIds.filterMap number = excludeIds := by
    rw [List.filterMap_congr hcanonical]
    exact List.filterMap_some
  rw [sampledPool, hexcluded] at hq
  obtain ⟨row, hrow, rfl⟩ := List.mem_map.mp hq
  have htier := List.mem_dedup.mp (mem_of_mem_shuffle hrow)
  exact ⟨row, baseRows_sublist.subset (tiers_subset htier), rfl⟩

/-- The questions of the pool have distinct keys. -/
theorem nodup_pool (hcanonical : ∀ id ∈ excludeIds, number id = some id) :
    ((sampledPool toUpperCase number r bank subtopicId limit excludeIds
      difficulty).map (·.id)).Nodup := by
  have hexcluded : excludeIds.filterMap number = excludeIds := by
    rw [List.filterMap_congr hcanonical]
    exact List.filterMap_some
  rw [sampledPool, hexcluded, List.map_map]
  refine List.Nodup.map_on ?_ ((shuffle_perm _ _).nodup_iff.mpr (List.nodup_dedup _))
  intro row hrow row' hrow' hid
  have hmem : ∀ row ∈ shuffle r.union (bank.tiers r subtopicId (limit * poolOversample) excludeIds
      (levelIdsOf toUpperCase difficulty)).dedup, row ∈ bank.questions := fun row hrow =>
    baseRows_sublist.subset (tiers_subset (List.mem_dedup.mp (mem_of_mem_shuffle hrow)))
  exact toQuestion_inj (hmem row hrow) (hmem row' hrow') hid

variable (toUpperCase r bank subtopicId limit difficulty) in
/-- **The answer is the selection:** the bank is asked for the keys that the strategy picked. -/
theorem pickFrom_perm (hcanonical : ∀ id ∈ excludeIds, number id = some id) :
    ((pickFrom toUpperCase r bank limit excludeIds difficulty
        (sampledPool toUpperCase number r bank subtopicId limit excludeIds difficulty)).map
      QuestionRow.toQuestion).Perm
      (selectBestQuestions toUpperCase r.unusedPool r.usedPool
        (sampledPool toUpperCase number r bank subtopicId limit excludeIds difficulty)
        excludeIds (List.replicate limit { expectedLevel := difficulty }) true).reduceOption := by
  set selected := (selectBestQuestions toUpperCase r.unusedPool r.usedPool
    (sampledPool toUpperCase number r bank subtopicId limit excludeIds difficulty)
    excludeIds (List.replicate limit { expectedLevel := difficulty }) true).reduceOption
    with hselected
  have hnodup : (selected.map (·.id)).Nodup := by
    rw [hselected, selectBestQuestions_eq]
    exact nodup_selectBestQuestions true _ _ (nodup_pool hcanonical) _ _
  have hrow : ∀ q ∈ selected, ∃ row ∈ bank.questions, row.toQuestion = q := by
    intro q hq
    rw [hselected, selectBestQuestions_eq, List.reduceOption_mem_iff] at hq
    exact exists_of_mem_pool hcanonical (mem_of_selectBestQuestions hq)
  rw [List.perm_ext_iff_of_nodup _ hnodup.of_map]
  · intro q
    constructor
    · intro hq
      obtain ⟨row, hfound, rfl⟩ := List.mem_map.mp hq
      obtain ⟨hmem, hid⟩ := List.mem_filter.mp hfound
      obtain ⟨p, hp, hpid⟩ := List.mem_map.mp (List.contains_iff_mem.mp hid)
      obtain ⟨row', hmem', rfl⟩ := hrow p hp
      rwa [toQuestion_inj hmem hmem' hpid.symm]
    · intro hq
      obtain ⟨row, hmem, rfl⟩ := hrow q hq
      refine List.mem_map_of_mem (List.mem_filter.mpr ⟨hmem, ?_⟩)
      exact List.contains_iff_mem.mpr (List.mem_map_of_mem (f := (·.id)) hq)
  · refine List.Nodup.map_on ?_ (bank.questions_key.of_map.filter _)
    intro row hmem row' hmem' heq
    exact toQuestion_inj (List.mem_filter.mp hmem).1 (List.mem_filter.mp hmem').1
      (congrArg Question.id heq)

/-- The query names as many parameters as it is bound to where a known level is asked for. -/
theorem poolParams_eq_requiredParams_iff :
    poolParams = requiredParams (levelIdsOf toUpperCase difficulty) ↔
      ∃ d, difficulty = some d ∧ d ≠ "" ∧ getLevelIdsForDifficulty toUpperCase d ≠ [] := by
  unfold poolParams requiredParams levelIdsOf
  cases difficulty with
  | none => simp
  | some d =>
    by_cases hempty : d = ""
    · simp [Option.filter, hempty]
    · simp [Option.filter, hempty]

/-- The counts of what is picked from the pool are those of the whole list. -/
theorem tierCounts_pickFrom (random randomUsed : ℕ → ℕ)
    (hcanonical : ∀ id ∈ excludeIds, number id = some id) :
    tierCounts excludeIds (levelIdsOf toUpperCase difficulty)
        ((pickFrom toUpperCase r bank limit excludeIds difficulty
          (sampledPool toUpperCase number r bank subtopicId limit excludeIds difficulty)).map
          QuestionRow.toQuestion) =
      tierCounts excludeIds (levelIdsOf toUpperCase difficulty)
        (selectFromAll toUpperCase random randomUsed bank subtopicId limit excludeIds
          difficulty) := by
  have hperm := pickFrom_perm toUpperCase r bank subtopicId limit difficulty hcanonical
  obtain ⟨hlevel, hunused, hlength⟩ :=
    min_tierCounts_pool toUpperCase r bank subtopicId limit difficulty hcanonical
  have hanswer := tierCounts_selected toUpperCase excludeIds difficulty r.unusedPool r.usedPool
    (sampledPool toUpperCase number r bank subtopicId limit excludeIds difficulty) limit
  have hcounts : ∀ qs qs' : List Question, qs.Perm qs' →
      tierCounts excludeIds (levelIdsOf toUpperCase difficulty) qs =
        tierCounts excludeIds (levelIdsOf toUpperCase difficulty) qs' := by
    intro qs qs' h
    rw [tierCounts, tierCounts, h.countP_eq, h.countP_eq, h.length_eq]
  rw [hcounts _ _ hperm, hanswer, selectFromAll, tierCounts_selected, hlevel, hunused, hlength]

/-- A call answers with as many unused questions of the asked level, as many unused questions and
as many questions as the strategy selects from all questions of the subtopic. -/
def PoolAsGood (toUpperCase : String → String) (number : QuestionId → Option ℕ) (r : Randoms)
    (random randomUsed : ℕ → ℕ) (bank : Bank) (subtopicId : CatalogId) (limit : ℕ)
    (excludeIds : List QuestionId) (difficulty : Option String) : Prop :=
  ∃ rows, getRandomQuestions toUpperCase number r bank subtopicId limit excludeIds difficulty =
      .ok rows ∧
    tierCounts excludeIds (levelIdsOf toUpperCase difficulty)
        (rows.map QuestionRow.toQuestion) =
      tierCounts excludeIds (levelIdsOf toUpperCase difficulty)
        (selectFromAll toUpperCase random randomUsed bank subtopicId limit excludeIds difficulty)

/-- **The bounded candidate pool is as good as the whole bank** exactly where a known level is
asked for, in every outcome of the samples and of the shuffles; elsewhere the query fails. -/
theorem poolAsGood_iff_knownLevel (toUpperCase : String → String)
    (number : QuestionId → Option ℕ) (r : Randoms) (random randomUsed : ℕ → ℕ) (bank : Bank)
    (subtopicId : CatalogId) (limit : ℕ) (excludeIds : List QuestionId)
    (difficulty : Option String) (hlimit : 1 ≤ limit)
    (hcanonical : ∀ id ∈ excludeIds, number id = some id) :
    PoolAsGood toUpperCase number r random randomUsed bank subtopicId limit excludeIds
        difficulty ↔
      ∃ d, difficulty = some d ∧ d ≠ "" ∧ getLevelIdsForDifficulty toUpperCase d ≠ [] := by
  have hpositive : ¬limit = 0 := by omega
  rw [← poolParams_eq_requiredParams_iff, PoolAsGood, getRandomQuestions, if_neg hpositive,
    findBoundedCandidatePool]
  by_cases hparams : poolParams = requiredParams (levelIdsOf toUpperCase difficulty)
  · simp only [hparams, iff_true]
    exact ⟨_, rfl, tierCounts_pickFrom random randomUsed hcanonical⟩
  · simp only [hparams, iff_false]
    rintro ⟨rows, hrows, _⟩
    cases hrows

end Answer

section Small

/-- An easy and a hard question. -/
def smallQuestions : List QuestionRow := [⟨1, some 43, true⟩, ⟨2, some 46, true⟩]

theorem smallQuestions_key : (smallQuestions.map (·.id)).Nodup := by decide

/-- The rows of the view for them. -/
def smallFlatQuestions : List FlatQuestion := [⟨1, some 43⟩, ⟨2, some 46⟩]

theorem smallFlatQuestions_key : (smallFlatQuestions.map (·.questionId)).Nodup := by decide

/-- Their mappings to one subtopic. -/
def smallMappings : List QuestionSubtopic := [⟨1, 7, true⟩, ⟨2, 7, true⟩]

theorem smallMappings_key :
    (smallMappings.map fun m => (m.questionId, m.subtopicId)).Nodup := by decide

/-- A bank with two questions of one subtopic. -/
def smallBank : Bank :=
  { questions := smallQuestions
    flatQuestions := smallFlatQuestions
    questionSubtopic := smallMappings
    subtopics := [⟨7, some 70⟩]
    topics := [⟨70, some 700⟩]
    questions_key := smallQuestions_key
    flatQuestions_key := smallFlatQuestions_key
    questionSubtopic_key := smallMappings_key }

/-- The second question is used, and two easy ones are asked for. -/
theorem poolAsGood_iff_knownLevel_smallBank :
    PoolAsGood id some ⟨id, id, id, id, id, id⟩ id id smallBank 7 2 [2] (some "EASY") ↔
      ∃ d, some "EASY" = some d ∧ d ≠ "" ∧ getLevelIdsForDifficulty id d ≠ [] :=
  poolAsGood_iff_knownLevel id some ⟨id, id, id, id, id, id⟩ id id smallBank 7 2 [2]
    (some "EASY") (by decide) fun _ _ => rfl

/-- Two questions of any level are asked for, and the query fails. -/
theorem not_poolAsGood :
    ¬PoolAsGood id some ⟨id, id, id, id, id, id⟩ id id smallBank 7 2 [2] none := by
  rintro ⟨rows, hrows, _⟩
  have hfails : getRandomQuestions id some ⟨id, id, id, id, id, id⟩ smallBank 7 2 [2] none =
      .error (.protocolViolation 4 3) := rfl
  rw [hfails] at hrows
  cases hrows

end Small

end Odiseo.QuestionBank
