import Odiseo.QuestionBank.Bank
import Odiseo.Picking.Sampling

/-!
# Alternatives for a question

`GetMaterialQuestionsUseCase.getQuestionAlternatives` over
`FlatQuestionsRepository.searchQuestionIds`, and the visibility gate of `getQuestionPreview`. The
search joins the view with the mappings, so a question is as many rows as it has mappings in the
scope, and the rows are what is sampled and sliced.
-/

namespace Odiseo.QuestionBank

open Odiseo.Materials Picking

/-- `FlatQuestionSearchFilters`. Of a list of keys, which is a text in the source, the numeric parts
are kept; a missing and an empty text are `none`. -/
structure FlatQuestionSearchFilters where
  courseId : Option (List CatalogId)
  topicId : Option (List CatalogId)
  subtopicId : Option (List CatalogId)
  level : Option String
  excludeIds : List QuestionId
  excludeTopicIds : List CatalogId
  limit : ℕ
  deriving DecidableEq, Repr

/-- `SEARCH_OVERSAMPLE`. -/
def searchOversample : ℕ := 3

/-- `DEFAULT_SEARCH_LIMIT`. -/
def defaultSearchLimit : ℕ := 25

/-- A row of the join of the view with its mappings, their subtopics and, when a course is asked
for, the topics of these. -/
structure JoinRow where
  question : FlatQuestion
  subtopic : Subtopic
  topic : Option Topic
  deriving DecidableEq, Repr

variable (toUpperCase : String → String) (number : String → ℕ)

/-- The join of a search. -/
def Bank.join (bank : Bank) (withTopic : Bool) : List JoinRow :=
  bank.flatQuestions.flatMap fun fq =>
    (bank.questionSubtopic.filter fun qs => qs.questionId == fq.questionId && qs.flStatus).flatMap
      fun qs => (bank.subtopics.filter fun s => s.id == qs.subtopicId).flatMap fun s =>
        if withTopic then
          (bank.topics.filter fun t => s.topicId == some t.id).map fun t => ⟨fq, s, some t⟩
        else [⟨fq, s, none⟩]

/-- The condition on the scope: the first of subtopic, topic and course that is given. -/
def FlatQuestionSearchFilters.inScope (filters : FlatQuestionSearchFilters) (row : JoinRow) : Bool :=
  match filters.subtopicId, filters.topicId, filters.courseId with
  | some ids, _, _ => ids.isEmpty || ids.contains row.subtopic.id
  | none, some ids, _ => ids.isEmpty || row.subtopic.topicId.any ids.contains
  | none, none, some ids => ids.isEmpty || row.topic.any fun t => t.courseId.any ids.contains
  | none, none, none => true

/-- The level keys that a search asks for: those of a difficulty, or the key itself. -/
def searchLevelIds (level : String) : List ℕ :=
  let mappedLevelIds := getLevelIdsForDifficulty toUpperCase level
  if mappedLevelIds.isEmpty then [number level] else mappedLevelIds

/-- The condition on the level. -/
def FlatQuestion.atLevel (fq : FlatQuestion) (level : Option String) : Bool :=
  match level.filter (· ≠ "") with
  | some level => fq.levelId.any (searchLevelIds toUpperCase number level).contains
  | none => true

/-- The condition on hidden topics; a missing topic is not known to be another one. -/
def FlatQuestionSearchFilters.shows (filters : FlatQuestionSearchFilters) (row : JoinRow) : Bool :=
  filters.excludeTopicIds.isEmpty ||
    row.subtopic.topicId.any fun id => !filters.excludeTopicIds.contains id

/-- The keys of the rows that a search finds, one for each row. -/
def Bank.matching (bank : Bank) (filters : FlatQuestionSearchFilters) : List QuestionId :=
  ((bank.join filters.courseId.isSome).filter fun row =>
    filters.inScope row && row.question.atLevel toUpperCase number filters.level &&
      !filters.excludeIds.contains row.question.questionId && filters.shows row).map
        (·.question.questionId)

/-- `searchQuestionIds`. -/
def searchQuestionIds (random : ℕ → ℕ) (bank : Bank) (filters : FlatQuestionSearchFilters) :
    List QuestionId :=
  let desiredLimit := if 0 < filters.limit then filters.limit else defaultSearchLimit
  orderByRandomLimit random (desiredLimit * searchOversample)
    (bank.matching toUpperCase number filters)

/-- `findByIds`. -/
def Bank.findByIds (bank : Bank) (ids : List QuestionId) : List FlatQuestion :=
  bank.flatQuestions.filter fun fq => ids.contains fq.questionId

/-- The random numbers of a call: of the two samples and the two shuffles. -/
structure SearchRandoms where
  primary : ℕ → ℕ
  primaryShuffle : ℕ → ℕ
  fallback : ℕ → ℕ
  fallbackShuffle : ℕ → ℕ

/-- The search without its level and without the questions that are already selected. -/
def FlatQuestionSearchFilters.fallback (filters : FlatQuestionSearchFilters)
    (selectedIds : List QuestionId) : FlatQuestionSearchFilters :=
  { filters with
    level := none
    excludeIds := filters.excludeIds ++ selectedIds }

/-- `selectedIds` of `getQuestionAlternatives`. -/
def selectedIds (r : SearchRandoms) (bank : Bank) (filters : FlatQuestionSearchFilters) :
    List QuestionId :=
  let primaryIds := searchQuestionIds toUpperCase number r.primary bank filters
  let selected := (shuffle r.primaryShuffle primaryIds).take filters.limit
  if selected.length < filters.limit && (filters.level.filter (· ≠ "")).isSome then
    let fallbackIds := searchQuestionIds toUpperCase number r.fallback bank
      (filters.fallback selected)
    selected ++ (shuffle r.fallbackShuffle fallbackIds).take (filters.limit - selected.length)
  else selected

/-- `getQuestionAlternatives`. -/
def getQuestionAlternatives (r : SearchRandoms) (bank : Bank)
    (filters : FlatQuestionSearchFilters) : List FlatQuestion :=
  bank.findByIds (selectedIds toUpperCase number r bank filters)

/-- `findTopicIdsForQuestion`. -/
def Bank.findTopicIdsForQuestion (bank : Bank) (questionId : QuestionId) : List CatalogId :=
  ((bank.questionSubtopic.filter fun qs => qs.questionId == questionId && qs.flStatus).flatMap
    fun qs => (bank.subtopics.filter fun s => s.id == qs.subtopicId).filterMap (·.topicId)).eraseDups

/-- The visibility gate of `getQuestionPreview`. -/
def Bank.isVisible (bank : Bank) (hiddenTopicIds : List CatalogId) (questionId : QuestionId) : Bool :=
  let topicIds := bank.findTopicIdsForQuestion questionId
  topicIds.isEmpty || hiddenTopicIds.isEmpty || topicIds.any fun id => !hiddenTopicIds.contains id

/-- The condition on the scope, for a subtopic of the bank. -/
def Bank.scoped (bank : Bank) (filters : FlatQuestionSearchFilters) (s : Subtopic) : Bool :=
  match filters.subtopicId, filters.topicId, filters.courseId with
  | some ids, _, _ => ids.isEmpty || ids.contains s.id
  | none, some ids, _ => ids.isEmpty || s.topicId.any ids.contains
  | none, none, some ids => ids.isEmpty || bank.topics.any fun t =>
      s.topicId == some t.id && t.courseId.any ids.contains
  | none, none, none => true

/-- A question is mapped to the requested scope. -/
def Bank.isMapped (bank : Bank) (filters : FlatQuestionSearchFilters) (questionId : QuestionId) :
    Bool :=
  (bank.questionSubtopic.filter fun qs => qs.questionId == questionId && qs.flStatus).any fun qs =>
    bank.subtopics.any fun s => s.id == qs.subtopicId && bank.scoped filters s

/-- The questions that a request may answer: mapped to its scope, not excluded, and accepted by the
gate. -/
def Bank.eligible (bank : Bank) (filters : FlatQuestionSearchFilters) : List FlatQuestion :=
  bank.flatQuestions.filter fun fq =>
    bank.isMapped filters fq.questionId && !filters.excludeIds.contains fq.questionId &&
      bank.isVisible filters.excludeTopicIds fq.questionId

/-- What the alternatives for a question have to be: distinct, eligible, as many as asked for or
all, and those of the requested level first. -/
structure Alternatives (bank : Bank) (filters : FlatQuestionSearchFilters)
    (answer : List FlatQuestion) : Prop where
  nodup : (answer.map (·.questionId)).Nodup
  eligible : answer ⊆ bank.eligible filters
  count : answer.length = min filters.limit (bank.eligible filters).length
  levelFirst : answer.countP (·.atLevel toUpperCase number filters.level) =
    min filters.limit
      ((bank.eligible filters).countP (·.atLevel toUpperCase number filters.level))

/-- The rows are spread over enough questions. When the level has enough rows: no fewer questions
than wanted fill the answer. Otherwise each eligible question of the level has a row, and no fewer
of the other questions than are missing fill what the rows of the level leave. -/
def Bank.Spreads (bank : Bank) (filters : FlatQuestionSearchFilters) : Prop :=
  let rows := bank.matching toUpperCase number filters
  let others := bank.matching toUpperCase number (filters.fallback rows)
  if rows.length < filters.limit ∧ (filters.level.filter (· ≠ "")).isSome then
    rows.toFinset.card =
        (bank.eligible filters).countP (·.atLevel toUpperCase number filters.level) ∧
      Spread others (min (filters.limit - rows.length) others.length)
        (min filters.limit (bank.eligible filters).length - rows.toFinset.card)
  else
    Spread rows (min filters.limit rows.length)
      (min filters.limit (bank.eligible filters).length)

section Rows

variable {toUpperCase number} {bank : Bank} {filters : FlatQuestionSearchFilters}

/-- The rows of a join. -/
theorem mem_join {withTopic : Bool} {row : JoinRow} (h : row ∈ bank.join withTopic) :
    row.question ∈ bank.flatQuestions ∧ ∃ qs ∈ bank.questionSubtopic,
      qs.questionId = row.question.questionId ∧ qs.flStatus = true ∧
        row.subtopic ∈ bank.subtopics ∧ row.subtopic.id = qs.subtopicId ∧
          ∀ t, row.topic = some t → t ∈ bank.topics ∧ row.subtopic.topicId = some t.id := by
  obtain ⟨fq, hfq, h⟩ := List.mem_flatMap.mp h
  obtain ⟨qs, hqs, h⟩ := List.mem_flatMap.mp h
  obtain ⟨s, hs, h⟩ := List.mem_flatMap.mp h
  obtain ⟨hqs, hactive⟩ := List.mem_filter.mp hqs
  obtain ⟨hs, hid⟩ := List.mem_filter.mp hs
  simp only [Bool.and_eq_true, beq_iff_eq] at hactive hid
  split at h
  · obtain ⟨t, ht, rfl⟩ := List.mem_map.mp h
    obtain ⟨ht, htopic⟩ := List.mem_filter.mp ht
    refine ⟨hfq, qs, hqs, hactive.1, hactive.2, hs, hid, fun t' ht' => ?_⟩
    obtain rfl := Option.some.inj ht'
    exact ⟨ht, beq_iff_eq.mp htopic⟩
  · obtain rfl := List.mem_singleton.mp h
    exact ⟨hfq, qs, hqs, hactive.1, hactive.2, hs, hid, fun t ht => by cases ht⟩

/-- A row in the scope is a mapping to the scope. -/
theorem isMapped_of_row {withTopic : Bool} {row : JoinRow} (h : row ∈ bank.join withTopic)
    (hscope : filters.inScope row = true) :
    bank.isMapped filters row.question.questionId = true := by
  obtain ⟨_, qs, hqs, hquestion, hactive, hs, hid, htopic⟩ := mem_join h
  have hscoped : bank.scoped filters row.subtopic = true := by
    unfold FlatQuestionSearchFilters.inScope at hscope
    unfold Bank.scoped
    split at hscope
    · exact hscope
    · exact hscope
    · rcases Bool.or_eq_true_iff.mp hscope with hscope | hscope
      · exact Bool.or_eq_true_iff.mpr (Or.inl hscope)
      · obtain ⟨t, ht, hcourse⟩ := (Option.any_eq_true _ _).mp hscope
        obtain ⟨htopics, hrow⟩ := htopic t ht
        refine Bool.or_eq_true_iff.mpr (Or.inr (List.any_eq_true.mpr ⟨t, htopics, ?_⟩))
        simp only [hrow, hcourse, beq_self_eq_true, Bool.and_self]
    · rfl
  refine List.any_eq_true.mpr ⟨qs, List.mem_filter.mpr ⟨hqs, by simp [hquestion, hactive]⟩, ?_⟩
  exact List.any_eq_true.mpr ⟨row.subtopic, hs, by simp [hid, hscoped]⟩

/-- A row of a topic that is not hidden makes the question visible. -/
theorem isVisible_of_row {withTopic : Bool} {row : JoinRow} (h : row ∈ bank.join withTopic)
    (hshows : filters.shows row = true) :
    bank.isVisible filters.excludeTopicIds row.question.questionId = true := by
  obtain ⟨_, qs, hqs, hquestion, hactive, hs, hid, _⟩ := mem_join h
  unfold Bank.isVisible
  rcases Bool.or_eq_true_iff.mp hshows with hnone | hshown
  · simp [hnone]
  · obtain ⟨topicId, htopicId, hvisible⟩ := (Option.any_eq_true _ _).mp hshown
    have hmem : topicId ∈ bank.findTopicIdsForQuestion row.question.questionId := by
      refine List.mem_eraseDups.mpr (List.mem_flatMap.mpr
        ⟨qs, List.mem_filter.mpr ⟨hqs, by simp [hquestion, hactive]⟩, ?_⟩)
      exact List.mem_filterMap.mpr
        ⟨row.subtopic, List.mem_filter.mpr ⟨hs, by simp [hid]⟩, htopicId⟩
    exact Bool.or_eq_true_iff.mpr (Or.inr (List.any_eq_true.mpr ⟨topicId, hmem, hvisible⟩))

/-- The keys that a search finds. -/
theorem mem_matching {x : QuestionId} :
    x ∈ bank.matching toUpperCase number filters ↔
      ∃ row ∈ bank.join filters.courseId.isSome, row.question.questionId = x ∧
        filters.inScope row = true ∧
          row.question.atLevel toUpperCase number filters.level = true ∧
            x ∉ filters.excludeIds ∧ filters.shows row = true := by
  unfold Bank.matching
  rw [List.mem_map]
  constructor
  · rintro ⟨row, hrow, rfl⟩
    obtain ⟨hjoin, hcond⟩ := List.mem_filter.mp hrow
    simp only [Bool.and_eq_true, Bool.not_eq_true', List.contains_eq_mem, decide_eq_false_iff_not]
      at hcond
    exact ⟨row, hjoin, rfl, hcond.1.1.1, hcond.1.1.2, hcond.1.2, hcond.2⟩
  · rintro ⟨row, hjoin, rfl, hscope, hlevel, hexcluded, hshows⟩
    refine ⟨row, List.mem_filter.mpr ⟨hjoin, ?_⟩, rfl⟩
    simp [hscope, hlevel, hexcluded, hshows]

/-- **What a search finds is eligible**, and of the level that it asks for. -/
theorem eligible_of_mem_matching {x : QuestionId}
    (h : x ∈ bank.matching toUpperCase number filters) :
    ∃ fq ∈ bank.eligible filters, fq.questionId = x ∧
      fq.atLevel toUpperCase number filters.level = true := by
  obtain ⟨row, hjoin, rfl, hscope, hlevel, hexcluded, hshows⟩ := mem_matching.mp h
  refine ⟨row.question, List.mem_filter.mpr ⟨(mem_join hjoin).1, ?_⟩, rfl, hlevel⟩
  simp [isMapped_of_row hjoin hscope, hexcluded, isVisible_of_row hjoin hshows]

/-- The fallback finds none of the questions that are already selected. -/
theorem notMem_of_mem_fallback {ids : List QuestionId} {x : QuestionId}
    (h : x ∈ bank.matching toUpperCase number (filters.fallback ids)) : x ∉ ids := by
  obtain ⟨_, _, _, _, _, hexcluded, _⟩ := mem_matching.mp h
  exact fun hx => hexcluded (List.mem_append_right _ hx)

/-- What is eligible for the fallback is eligible. -/
theorem eligible_of_fallback {ids : List QuestionId} {fq : FlatQuestion}
    (h : fq ∈ bank.eligible (filters.fallback ids)) : fq ∈ bank.eligible filters := by
  obtain ⟨hmem, hcond⟩ := List.mem_filter.mp h
  refine List.mem_filter.mpr ⟨hmem, ?_⟩
  simp only [Bool.and_eq_true, Bool.not_eq_true', List.contains_eq_mem, decide_eq_false_iff_not]
    at hcond ⊢
  exact ⟨⟨hcond.1.1, fun hx => hcond.1.2 (List.mem_append_left _ hx)⟩, hcond.2⟩

/-- A question of the view is known by its key. -/
theorem flatQuestion_inj {fq fq' : FlatQuestion} (h : fq ∈ bank.flatQuestions)
    (h' : fq' ∈ bank.flatQuestions) (hid : fq.questionId = fq'.questionId) : fq = fq' :=
  List.inj_on_of_nodup_map bank.flatQuestions_key h h' hid

/-- A question of the level that the fallback finds was found before. -/
theorem mem_matching_of_fallback {ids : List QuestionId} {fq : FlatQuestion}
    (hmem : fq ∈ bank.flatQuestions)
    (h : fq.questionId ∈ bank.matching toUpperCase number (filters.fallback ids))
    (hlevel : fq.atLevel toUpperCase number filters.level = true) :
    fq.questionId ∈ bank.matching toUpperCase number filters := by
  obtain ⟨row, hjoin, hid, hscope, _, hexcluded, hshows⟩ := mem_matching.mp h
  have hrow : row.question = fq := flatQuestion_inj (mem_join hjoin).1 hmem hid
  refine mem_matching.mpr ⟨row, hjoin, hid, hscope, ?_, fun hx => ?_, hshows⟩
  · rwa [hrow]
  · exact hexcluded (List.mem_append_left _ hx)

/-- What the fallback finds only depends on which questions are selected. -/
theorem matching_fallback_congr {ids ids' : List QuestionId} (h : ∀ x, x ∈ ids ↔ x ∈ ids') :
    bank.matching toUpperCase number (filters.fallback ids) =
      bank.matching toUpperCase number (filters.fallback ids') := by
  unfold Bank.matching
  congr 1
  refine List.filter_congr fun row _ => ?_
  have hcontains : (filters.fallback ids).excludeIds.contains row.question.questionId =
      (filters.fallback ids').excludeIds.contains row.question.questionId := by
    rw [Bool.eq_iff_iff]
    simp [FlatQuestionSearchFilters.fallback, h]
  rw [hcontains]
  rfl

end Rows

section Answer

variable {toUpperCase number} {bank : Bank} {filters : FlatQuestionSearchFilters}
  {ids : List QuestionId}

/-- The questions under a list of keys, by their keys. -/
theorem nodup_findByIds : ((bank.findByIds ids).map (·.questionId)).Nodup :=
  (List.filter_sublist.map _).nodup bank.flatQuestions_key

/-- As many questions are found as there are distinct keys. -/
theorem length_findByIds (h : ∀ x ∈ ids, ∃ fq ∈ bank.eligible filters, fq.questionId = x) :
    (bank.findByIds ids).length = ids.toFinset.card := by
  rw [← List.length_map (fun fq : FlatQuestion => fq.questionId),
    ← List.toFinset_card_of_nodup nodup_findByIds]
  congr 1
  ext x
  rw [List.mem_toFinset, List.mem_toFinset]
  constructor
  · intro hx
    obtain ⟨fq, hfq, rfl⟩ := List.mem_map.mp hx
    exact List.contains_iff_mem.mp (List.mem_filter.mp hfq).2
  · intro hx
    obtain ⟨fq, hfq, rfl⟩ := h x hx
    refine List.mem_map_of_mem (List.mem_filter.mpr ⟨(List.mem_filter.mp hfq).1, ?_⟩)
    exact List.contains_iff_mem.mpr hx

/-- Only eligible questions are found. -/
theorem findByIds_subset (h : ∀ x ∈ ids, ∃ fq ∈ bank.eligible filters, fq.questionId = x) :
    bank.findByIds ids ⊆ bank.eligible filters := by
  intro fq hfq
  obtain ⟨hmem, hid⟩ := List.mem_filter.mp hfq
  obtain ⟨fq', hfq', heq⟩ := h fq.questionId (List.contains_iff_mem.mp hid)
  rwa [flatQuestion_inj hmem (List.mem_filter.mp hfq').1 heq.symm]

/-- No more questions are found than are eligible. -/
theorem card_le_eligible (h : ∀ x ∈ ids, ∃ fq ∈ bank.eligible filters, fq.questionId = x) :
    ids.toFinset.card ≤ (bank.eligible filters).length := by
  rw [← length_findByIds h]
  exact (nodup_findByIds.of_map.subperm (findByIds_subset h)).length_le

/-- No more questions of the level are found than are eligible. -/
theorem countP_le_eligible (h : ∀ x ∈ ids, ∃ fq ∈ bank.eligible filters, fq.questionId = x)
    (p : FlatQuestion → Bool) :
    (bank.findByIds ids).countP p ≤ (bank.eligible filters).countP p :=
  (nodup_findByIds.of_map.subperm (findByIds_subset h)).countP_le p

/-- **An answer is what it has to be** when it has as many questions as it should, and as many of
the level. -/
theorem alternatives_iff (h : ∀ x ∈ ids, ∃ fq ∈ bank.eligible filters, fq.questionId = x) :
    Alternatives toUpperCase number bank filters (bank.findByIds ids) ↔
      ids.toFinset.card = min filters.limit (bank.eligible filters).length ∧
      (bank.findByIds ids).countP (·.atLevel toUpperCase number filters.level) =
        min filters.limit
          ((bank.eligible filters).countP (·.atLevel toUpperCase number filters.level)) := by
  rw [← length_findByIds h]
  constructor
  · intro halternatives
    exact ⟨halternatives.count, halternatives.levelFirst⟩
  · intro ⟨hcount, hlevel⟩
    exact ⟨nodup_findByIds, findByIds_subset h, hcount, hlevel⟩

end Answer

section Calls

variable {toUpperCase number} {bank : Bank} {filters : FlatQuestionSearchFilters}

/-- A search samples more rows than the answer has questions. -/
theorem limit_le_sample (limit : ℕ) :
    limit ≤ (if 0 < limit then limit else defaultSearchLimit) * searchOversample := by
  unfold searchOversample
  split <;> omega

/-- `selectedIds` after the first search. -/
def primarySelection (toUpperCase : String → String) (number : String → ℕ) (r : SearchRandoms)
    (bank : Bank) (filters : FlatQuestionSearchFilters) : List QuestionId :=
  (shuffle r.primaryShuffle (searchQuestionIds toUpperCase number r.primary bank filters)).take
    filters.limit

variable (toUpperCase number bank filters) in
/-- The first search fills the answer as far as its rows go. -/
theorem length_primarySelection (r : SearchRandoms) :
    (primarySelection toUpperCase number r bank filters).length =
      min filters.limit (bank.matching toUpperCase number filters).length :=
  length_sampled _ _ (limit_le_sample filters.limit) _

/-- The first search answers a part of its rows. -/
theorem primarySelection_subperm (r : SearchRandoms) :
    (primarySelection toUpperCase number r bank filters).Subperm
      (bank.matching toUpperCase number filters) :=
  sampled_subperm _ _ _ _ _

/-- What the first search selects is eligible and of the level. -/
theorem eligible_of_primarySelection {r : SearchRandoms} {x : QuestionId}
    (h : x ∈ primarySelection toUpperCase number r bank filters) :
    ∃ fq ∈ bank.eligible filters, fq.questionId = x ∧
      fq.atLevel toUpperCase number filters.level = true :=
  eligible_of_mem_matching ((primarySelection_subperm r).subset h)

/-- The questions of the first search are all of the level. -/
theorem countP_findByIds_primary {ids : List QuestionId}
    (h : ∀ x ∈ ids, ∃ fq ∈ bank.eligible filters, fq.questionId = x ∧
      fq.atLevel toUpperCase number filters.level = true) :
    (bank.findByIds ids).countP (·.atLevel toUpperCase number filters.level) =
      ids.toFinset.card := by
  rw [← length_findByIds fun x hx => (h x hx).imp fun fq hfq => ⟨hfq.1, hfq.2.1⟩]
  refine List.countP_eq_length.mpr fun fq hfq => ?_
  obtain ⟨hmem, hid⟩ := List.mem_filter.mp hfq
  obtain ⟨fq', hfq', heq, hlevel⟩ := h fq.questionId (List.contains_iff_mem.mp hid)
  rwa [flatQuestion_inj hmem (List.mem_filter.mp hfq').1 heq.symm]

variable (toUpperCase number bank filters) in
/-- **When the first search is enough**, the answer is right exactly when it has enough distinct
questions. -/
theorem alternatives_primary_iff (r : SearchRandoms)
    (henough : ¬((bank.matching toUpperCase number filters).length < filters.limit ∧
      (filters.level.filter (· ≠ "")).isSome)) :
    Alternatives toUpperCase number bank filters
        (getQuestionAlternatives toUpperCase number r bank filters) ↔
      min filters.limit (bank.eligible filters).length ≤
        (primarySelection toUpperCase number r bank filters).toFinset.card := by
  have hlength := length_primarySelection toUpperCase number bank filters r
  have hids : selectedIds toUpperCase number r bank filters =
      primarySelection toUpperCase number r bank filters := by
    unfold selectedIds
    dsimp only
    rw [if_neg]
    · rfl
    · intro hcond
      rw [Bool.and_eq_true, decide_eq_true_eq] at hcond
      have hlt : (primarySelection toUpperCase number r bank filters).length < filters.limit :=
        hcond.1
      exact henough ⟨by omega, hcond.2⟩
  have heligible : ∀ x ∈ primarySelection toUpperCase number r bank filters,
      ∃ fq ∈ bank.eligible filters, fq.questionId = x := fun x hx =>
    (eligible_of_primarySelection hx).imp fun fq hfq => ⟨hfq.1, hfq.2.1⟩
  rw [getQuestionAlternatives, hids, alternatives_iff heligible]
  have hlevel : (bank.findByIds (primarySelection toUpperCase number r bank filters)).countP
      (·.atLevel toUpperCase number filters.level) = _ :=
    countP_findByIds_primary fun x hx => eligible_of_primarySelection hx
  have hcard := card_le_eligible heligible
  have hcount := countP_le_eligible heligible (·.atLevel toUpperCase number filters.level)
  have hdistinct := List.toFinset_card_le (primarySelection toUpperCase number r bank filters)
  have hle := List.countP_le_length (p := fun fq : FlatQuestion =>
    fq.atLevel toUpperCase number filters.level) (l := bank.eligible filters)
  omega

/-- `selectedIds` of the fallback search. -/
def fallbackSelection (toUpperCase : String → String) (number : String → ℕ) (r : SearchRandoms)
    (bank : Bank) (filters : FlatQuestionSearchFilters) (selected : List QuestionId) :
    List QuestionId :=
  (shuffle r.fallbackShuffle (searchQuestionIds toUpperCase number r.fallback bank
    (filters.fallback selected))).take (filters.limit - selected.length)

/-- The fallback only depends on which rows are selected. -/
theorem fallbackSelection_congr {ids ids' : List QuestionId} (hperm : ids.Perm ids')
    (r : SearchRandoms) : fallbackSelection toUpperCase number r bank filters ids =
      fallbackSelection toUpperCase number r bank filters ids' := by
  rw [fallbackSelection, fallbackSelection, searchQuestionIds, searchQuestionIds,
    matching_fallback_congr fun x => hperm.mem_iff, hperm.length_eq]
  rfl

variable (toUpperCase number bank filters) in
/-- **When the level has too few rows**, the first search selects all of them, and the answer is
right exactly when each eligible question of the level has a row and the fallback finds enough
distinct questions. -/
theorem alternatives_fallback_iff (r : SearchRandoms)
    (hfew : (bank.matching toUpperCase number filters).length < filters.limit)
    (hlevel : (filters.level.filter (· ≠ "")).isSome) :
    Alternatives toUpperCase number bank filters
        (getQuestionAlternatives toUpperCase number r bank filters) ↔
      (bank.matching toUpperCase number filters).toFinset.card =
          (bank.eligible filters).countP (·.atLevel toUpperCase number filters.level) ∧
        min filters.limit (bank.eligible filters).length -
            (bank.matching toUpperCase number filters).toFinset.card ≤
          (fallbackSelection toUpperCase number r bank filters
            (bank.matching toUpperCase number filters)).toFinset.card := by
  have hlength := length_primarySelection toUpperCase number bank filters r
  set rows := bank.matching toUpperCase number filters with hrows
  set primary := primarySelection toUpperCase number r bank filters with hprimary
  have hall : rows.length ≤ primary.length := by omega
  have hperm : primary.Perm rows := (primarySelection_subperm r).perm_of_length_le hall
  rw [← fallbackSelection_congr hperm]
  set others := fallbackSelection toUpperCase number r bank filters primary with hothers
  have hids : selectedIds toUpperCase number r bank filters = primary ++ others := by
    unfold selectedIds
    dsimp only
    rw [if_pos]
    · rfl
    · rw [Bool.and_eq_true, decide_eq_true_eq]
      refine ⟨?_, hlevel⟩
      have hlt : primary.length < filters.limit := by omega
      exact hlt
  have hfound : ∀ x ∈ others, x ∈ bank.matching toUpperCase number (filters.fallback primary) :=
    fun x hx => (sampled_subperm _ _ _ _ _).subset hx
  have heligible : ∀ x ∈ primary ++ others, ∃ fq ∈ bank.eligible filters, fq.questionId = x := by
    intro x hx
    rcases List.mem_append.mp hx with hx | hx
    · exact (eligible_of_primarySelection hx).imp fun fq hfq => ⟨hfq.1, hfq.2.1⟩
    · exact (eligible_of_mem_matching (hfound x hx)).imp fun fq hfq =>
        ⟨eligible_of_fallback hfq.1, hfq.2.1⟩
  have hcard : (primary ++ others).toFinset.card =
      rows.toFinset.card + others.toFinset.card := by
    rw [List.toFinset_append, Finset.card_union_of_disjoint, List.toFinset_eq_of_perm _ _ hperm]
    rw [Finset.disjoint_left]
    intro x hx hx'
    exact notMem_of_mem_fallback (hfound x (List.mem_toFinset.mp hx')) (List.mem_toFinset.mp hx)
  -- No question of the fallback is of the level.
  have hcount : (bank.findByIds (primary ++ others)).countP
      (·.atLevel toUpperCase number filters.level) = rows.toFinset.card := by
    have hprimaryCount : (bank.findByIds primary).countP
        (·.atLevel toUpperCase number filters.level) = primary.toFinset.card :=
      countP_findByIds_primary fun x hx => eligible_of_primarySelection hx
    rw [← List.toFinset_eq_of_perm _ _ hperm, ← hprimaryCount, Bank.findByIds, Bank.findByIds,
      List.countP_filter, List.countP_filter]
    refine List.countP_congr fun fq hfq => ?_
    simp only [Bool.and_eq_true, List.contains_iff_mem, List.mem_append]
    constructor
    · rintro ⟨hatLevel, hmem | hmem⟩
      · exact ⟨hatLevel, hmem⟩
      · exact ⟨hatLevel, hperm.mem_iff.mpr
          (mem_matching_of_fallback hfq (hfound _ hmem) hatLevel)⟩
    · rintro ⟨hatLevel, hmem⟩
      exact ⟨hatLevel, Or.inl hmem⟩
  have hothersLength : others.length ≤ filters.limit - primary.length := by
    rw [hothers, fallbackSelection, List.length_take]
    exact Nat.min_le_left _ _
  have htotal := card_le_eligible heligible
  have hrowsCard := List.toFinset_card_le rows
  have hothersCard := List.toFinset_card_le others
  have hlevelCount := countP_le_eligible heligible (·.atLevel toUpperCase number filters.level)
  rw [getQuestionAlternatives, hids, alternatives_iff heligible, hcard, hcount]
  rw [hcard] at htotal
  rw [hcount] at hlevelCount
  omega

end Calls

/-- **The alternatives are what they have to be exactly when the rows are spread**, for every bank,
every search and every outcome of the samples and the shuffles. -/
theorem alternatives_iff_spreads (bank : Bank) (filters : FlatQuestionSearchFilters) :
    (∀ r, Alternatives toUpperCase number bank filters
      (getQuestionAlternatives toUpperCase number r bank filters)) ↔
        bank.Spreads toUpperCase number filters := by
  unfold Bank.Spreads
  dsimp only
  split
  · rename_i hfew
    simp only [fun r => alternatives_fallback_iff toUpperCase number bank filters r hfew.1 hfew.2]
    rw [spread_iff]
    have hk (limit rows : ℕ) : limit - rows ≤
        (if 0 < limit then limit else defaultSearchLimit) * searchOversample :=
      (Nat.sub_le limit rows).trans (limit_le_sample limit)
    constructor
    · intro hall
      refine ⟨(hall ⟨id, id, id, id⟩).1, fun sample hsample hlength => ?_⟩
      obtain ⟨random, random', rfl⟩ := exists_sampled (hk filters.limit _) hsample hlength
      exact (hall ⟨id, id, random, random'⟩).2
    · intro ⟨hlevel, hsamples⟩ r
      exact ⟨hlevel, hsamples _ (sampled_subperm _ _ _ _ _)
        (length_sampled _ _ (hk filters.limit _) _)⟩
  · rename_i henough
    simp only [fun r => alternatives_primary_iff toUpperCase number bank filters r henough]
    rw [spread_iff]
    constructor
    · intro hall sample hsample hlength
      obtain ⟨random, random', rfl⟩ :=
        exists_sampled (limit_le_sample filters.limit) hsample hlength
      exact hall ⟨random, random', id, id⟩
    · intro hsamples r
      exact hsamples _ (primarySelection_subperm r)
        (length_primarySelection toUpperCase number bank filters r)

/-- Two questions of the view. -/
def topicQuestions : List FlatQuestion := [⟨1, some 43⟩, ⟨2, some 45⟩]

theorem topicQuestions_key : (topicQuestions.map (·.questionId)).Nodup := by decide

/-- The first question is mapped to two subtopics of a topic. -/
def topicMappings : List QuestionSubtopic := [⟨1, 7, true⟩, ⟨1, 8, true⟩, ⟨2, 7, true⟩]

theorem topicMappings_key :
    (topicMappings.map fun m => (m.questionId, m.subtopicId)).Nodup := by decide

/-- A bank with a topic of two subtopics. -/
def topicBank : Bank :=
  { questions := []
    flatQuestions := topicQuestions
    questionSubtopic := topicMappings
    subtopics := [⟨7, some 70⟩, ⟨8, some 70⟩]
    topics := [⟨70, some 700⟩]
    questions_key := List.nodup_nil
    flatQuestions_key := topicQuestions_key
    questionSubtopic_key := topicMappings_key }

/-- A request for two alternatives from the topic. -/
def topicSearch : FlatQuestionSearchFilters :=
  { courseId := none
    topicId := some [70]
    subtopicId := none
    level := none
    excludeIds := []
    excludeTopicIds := []
    limit := 2 }

/-- The two rows of the first question fill the answer, although there is another question. -/
theorem not_alternatives_topicBank :
    ¬Alternatives id (fun _ => 0) topicBank topicSearch
      (getQuestionAlternatives id (fun _ => 0) ⟨id, id, id, id⟩ topicBank topicSearch) := by
  intro h
  have hcount := h.count
  revert hcount
  decide

end Odiseo.QuestionBank
