import Odiseo.QuestionBank.Strategy

/-!
# Tables of the question bank

The rows of the external bank that `FlatQuestionsRepository` and `QuestionBankService` read. The
bank is read-only here. Its keys are part of the model: a question, a row of the view
`flat_questions` and the mapping of a question to a subtopic occur once each.
-/

namespace Odiseo.QuestionBank

open Odiseo.Materials

/-- A row of `odiseo.question`. -/
structure QuestionRow where
  id : QuestionId
  levelId : Option ℕ
  flStatus : Bool
  deriving DecidableEq, Repr

/-- A row of the view `odiseo.flat_questions`. -/
structure FlatQuestion where
  questionId : QuestionId
  levelId : Option ℕ
  deriving DecidableEq, Repr

/-- A row of `odiseo.question_subtopic`. -/
structure QuestionSubtopic where
  questionId : QuestionId
  subtopicId : CatalogId
  flStatus : Bool
  deriving DecidableEq, Repr

/-- A row of `odiseo.subtopic`. -/
structure Subtopic where
  id : CatalogId
  topicId : Option CatalogId
  deriving DecidableEq, Repr

/-- A row of `odiseo.topic`. -/
structure Topic where
  id : CatalogId
  courseId : Option CatalogId
  deriving DecidableEq, Repr

/-- A state of the question bank. -/
structure Bank where
  questions : List QuestionRow
  flatQuestions : List FlatQuestion
  questionSubtopic : List QuestionSubtopic
  subtopics : List Subtopic
  topics : List Topic
  questions_key : (questions.map (·.id)).Nodup
  flatQuestions_key : (flatQuestions.map (·.questionId)).Nodup
  questionSubtopic_key : (questionSubtopic.map fun m => (m.questionId, m.subtopicId)).Nodup

section Sample

variable {α : Type}

/-- `ORDER BY random() LIMIT n`: every order of the rows is an outcome. -/
def orderByRandomLimit (random : ℕ → ℕ) (n : ℕ) (rows : List α) : List α :=
  (shuffle random rows).take n

/-- A sample is a part of the rows. -/
theorem orderByRandomLimit_subperm (random : ℕ → ℕ) (n : ℕ) (rows : List α) :
    (orderByRandomLimit random n rows).Subperm rows :=
  (List.take_sublist n _).subperm.trans (shuffle_perm random rows).subperm

/-- A sample has as many rows as asked for, when there are so many. -/
@[simp]
theorem length_orderByRandomLimit (random : ℕ → ℕ) (n : ℕ) (rows : List α) :
    (orderByRandomLimit random n rows).length = min n rows.length := by
  rw [orderByRandomLimit, List.length_take, (shuffle_perm random rows).length_eq]

/-- Distinct rows stay distinct in a sample. -/
theorem nodup_orderByRandomLimit {rows : List α} (h : rows.Nodup) (random : ℕ → ℕ) (n : ℕ) :
    (orderByRandomLimit random n rows).Nodup :=
  (List.take_sublist n _).nodup ((shuffle_perm random rows).nodup_iff.mpr h)

/-- The rows of a sample are rows. -/
theorem mem_of_mem_orderByRandomLimit {random : ℕ → ℕ} {n : ℕ} {rows : List α} {a : α}
    (h : a ∈ orderByRandomLimit random n rows) : a ∈ rows :=
  (orderByRandomLimit_subperm random n rows).subset h

variable {n k : ℕ} {rows : List α}

/-- A slice of a shuffled sample is a part of the rows. -/
theorem sampled_subperm (random random' : ℕ → ℕ) (n k : ℕ) (rows : List α) :
    ((shuffle random' (orderByRandomLimit random k rows)).take n).Subperm rows :=
  ((List.take_sublist n _).subperm.trans (shuffle_perm random' _).subperm).trans
    (orderByRandomLimit_subperm random k rows)

/-- A slice of a larger sample is as long as the rows allow. -/
theorem length_sampled (random random' : ℕ → ℕ) (hk : n ≤ k) (rows : List α) :
    ((shuffle random' (orderByRandomLimit random k rows)).take n).length = min n rows.length := by
  rw [List.length_take, (shuffle_perm random' _).length_eq, length_orderByRandomLimit]
  omega

/-- **Every part of the rows of this length is an outcome.** -/
theorem exists_sampled (hk : n ≤ k) {sample : List α} (hsample : sample.Subperm rows)
    (hlength : sample.length = min n rows.length) :
    ∃ random random', (shuffle random' (orderByRandomLimit random k rows)).take n = sample := by
  obtain ⟨sub, hsub, hsublist⟩ := hsample
  obtain ⟨rest, hrest⟩ := hsublist.exists_perm_append
  have hperm : rows.Perm (sample ++ rest) := hrest.trans (hsub.append_right rest)
  obtain ⟨random, hrandom⟩ := exists_shuffle_eq hperm
  obtain ⟨random', hrandom'⟩ := exists_shuffle_eq
    (List.Perm.refl (orderByRandomLimit random k rows))
  refine ⟨random, random', ?_⟩
  have hrows := hperm.length_eq
  rw [List.length_append] at hrows
  rw [hrandom', orderByRandomLimit, hrandom, List.take_take, Nat.min_eq_left hk]
  by_cases hn : n ≤ rows.length
  · rw [Nat.min_eq_left hn] at hlength
    exact List.take_left' hlength
  · have hrest : rest = [] := List.length_eq_zero_iff.mp (by omega)
    rw [hrest, List.append_nil, List.take_of_length_le (by omega)]

end Sample

end Odiseo.QuestionBank
