import Odiseo.Materials.Processor

/-!
# The account of the review slots

Every review slot of a course is either printed or reported missing, and the ledger records
follow the printed order. Whether a record comes from a replaced slot is looked up by the
question: where a question is printed for a replaced slot and for another one, the record of
the other one counts as a replacement too.
-/

namespace Odiseo.Materials

/-- A slot has a question that the bank has. -/
def MaterialReviewQuestion.printable (slot : MaterialReviewQuestion) (bank : List QuestionId) :
    Bool :=
  slot.status != .empty && slot.status != .removed && slot.questionId.any bank.contains

/-- The slots that are printed. -/
def printedSlots (bank : List QuestionId) (slots : List MaterialReviewQuestion) :
    List MaterialReviewQuestion :=
  slots.filter fun slot => slot.printable bank

/-- A question is printed for a slot. -/
def PrintsSlot (slot : MaterialReviewQuestion) (q : ExtractedQuestion) : Prop :=
  slot.questionId = some q.id ∧ q.topicId = slot.topicId ∧ q.subtopicId = slot.subtopicId

/-- **The account of a course**: what the handler does with its review slots. -/
structure SlotsAccounted (job : CourseJob) (run : CourseRun)
    (slots : List MaterialReviewQuestion) : Prop where
  /-- The questions are those of the printed slots, in their order. -/
  questions : slots ≠ [] → List.Forall₂ PrintsSlot (printedSlots run.bank slots)
    (run.loadCourseQuestions job.dist slots).allQuestions
  /-- The missing entries are those of the other slots, in their order. -/
  missing : slots ≠ [] → List.Forall₂ (fun slot message => missingSlot run.bank slot = some message)
    (slots.filter fun slot => !slot.printable run.bank)
    (run.loadCourseQuestions job.dist slots).missingDesglose
  completed : run.error = none →
    ((job.report run slots).statusData.status = some "completed" ↔
      (run.loadCourseQuestions job.dist slots).allQuestions ≠ [] ∧
        (run.loadCourseQuestions job.dist slots).missingDesglose = [])
  completedWithWarnings : run.error = none →
    ((job.report run slots).statusData.status = some "completed_with_warnings" ↔
      (run.loadCourseQuestions job.dist slots).allQuestions ≠ [] ∧
        (run.loadCourseQuestions job.dist slots).missingDesglose ≠ [])
  emptyBank : run.error = none →
    ((job.report run slots).statusData.status = some "empty_bank" ↔
      (run.loadCourseQuestions job.dist slots).allQuestions = [])
  /-- The records follow the questions. -/
  records : ((run.loadCourseQuestions job.dist slots).buildUsageRecords job.cycleId).map
    (·.questionId) = (run.loadCourseQuestions job.dist slots).allQuestions.map (·.id)
  /-- The positions are consecutive from 1. -/
  positions : ((run.loadCourseQuestions job.dist slots).buildUsageRecords job.cycleId).map
    (·.positionInPdf) =
      List.range' 1 (run.loadCourseQuestions job.dist slots).allQuestions.length
  /-- The replacements are the records of the replaced slots. -/
  replacements : slots ≠ [] →
    ((run.loadCourseQuestions job.dist slots).buildUsageRecords job.cycleId).map
      (·.wasReplacement) = (printedSlots run.bank slots).map fun slot => slot.status == .replaced
  /-- Without review slots nothing is a replacement. -/
  noReplacement : slots = [] →
    ∀ u ∈ (run.loadCourseQuestions job.dist slots).buildUsageRecords job.cycleId,
      u.wasReplacement = false

/-- No question is printed both for a replaced slot and for one that is not. -/
def ReplacedApart (bank : List QuestionId) (slots : List MaterialReviewQuestion) : Prop :=
  ∀ s ∈ printedSlots bank slots, ∀ s' ∈ printedSlots bank slots, s.questionId = s'.questionId →
    s'.status = .replaced → s.status = .replaced

section Slots

variable {bank : List QuestionId} {slot : MaterialReviewQuestion}
  {slots : List MaterialReviewQuestion}

/-- The question of a printable slot. -/
def MaterialReviewQuestion.question (slot : MaterialReviewQuestion) : ExtractedQuestion :=
  ⟨slot.questionId.getD 0, slot.topicId, slot.subtopicId⟩

/-- **A slot** is loaded exactly when it is printable. -/
theorem loadedQuestion_eq (bank : List QuestionId) (slot : MaterialReviewQuestion) :
    loadedQuestion bank slot = if slot.printable bank then some slot.question else none := by
  unfold loadedQuestion loadSlot MaterialReviewQuestion.printable MaterialReviewQuestion.question
  cases hstatus : slot.status <;> cases hid : slot.questionId <;> simp
  all_goals
    rename_i questionId
    by_cases hbank : questionId ∈ bank <;> simp [hbank]

/-- A slot is missing exactly when it is not printable. -/
theorem missingSlot_isSome (bank : List QuestionId) (slot : MaterialReviewQuestion) :
    (missingSlot bank slot).isSome = !slot.printable bank := by
  have hloaded := loadedQuestion_eq bank slot
  unfold loadedQuestion at hloaded
  unfold missingSlot
  cases hload : loadSlot bank slot <;> cases hprintable : slot.printable bank <;>
    simp [hload, hprintable] at hloaded ⊢

/-- The questions of the slots are those of the printed ones. -/
theorem allQuestions_loadSlots (bank : List QuestionId) (slots : List MaterialReviewQuestion) :
    (loadSlots bank slots).allQuestions = (printedSlots bank slots).map (·.question) := by
  unfold loadSlots printedSlots
  dsimp only
  induction slots with
  | nil => rfl
  | cons slot slots ih =>
    have hslot := loadedQuestion_eq bank slot
    cases hprintable : slot.printable bank with
    | true =>
      rw [hprintable, if_pos rfl] at hslot
      rw [List.filterMap_cons_some hslot, List.filter_cons_of_pos (by simpa using hprintable),
        List.map_cons, ih]
    | false =>
      rw [hprintable, if_neg Bool.false_ne_true] at hslot
      rw [List.filterMap_cons_none hslot, List.filter_cons_of_neg (by simp [hprintable]), ih]

/-- The missing entries of the slots are those of the slots that are not printed. -/
theorem missing_loadSlots (bank : List QuestionId) (slots : List MaterialReviewQuestion) :
    List.Forall₂ (fun slot message => missingSlot bank slot = some message)
      (slots.filter fun slot => !slot.printable bank) (loadSlots bank slots).missingDesglose := by
  unfold loadSlots
  dsimp only
  induction slots with
  | nil => exact .nil
  | cons slot slots ih =>
    have hslot := missingSlot_isSome bank slot
    cases hprintable : slot.printable bank with
    | true =>
      rw [hprintable, Bool.not_true, Option.isSome_eq_false_iff, Option.isNone_iff_eq_none] at hslot
      rw [List.filterMap_cons_none hslot, List.filter_cons_of_neg (by simp [hprintable])]
      exact ih
    | false =>
      rw [hprintable, Bool.not_false] at hslot
      obtain ⟨message, hmessage⟩ := Option.isSome_iff_exists.mp hslot
      rw [List.filterMap_cons_some hmessage, List.filter_cons_of_pos (by simp [hprintable])]
      exact .cons hmessage ih

/-- A printed slot has its question. -/
theorem questionId_of_printable (h : slot.printable bank = true) :
    slot.questionId = some slot.question.id := by
  unfold MaterialReviewQuestion.printable at h
  unfold MaterialReviewQuestion.question
  cases hid : slot.questionId with
  | none => simp [hid] at h
  | some questionId => rfl

/-- The questions that count as replacements are those of the replaced slots. -/
theorem mem_replacedQuestionIds {id : QuestionId} :
    id ∈ (loadSlots bank slots).replacedQuestionIds ↔
      ∃ s ∈ printedSlots bank slots, s.status = .replaced ∧ s.question.id = id := by
  unfold loadSlots printedSlots
  simp only [List.mem_filterMap, List.mem_filter, loadedQuestion_eq]
  constructor
  · rintro ⟨s, ⟨hs, hreplaced⟩, hid⟩
    cases hprintable : s.printable bank with
    | true =>
      refine ⟨s, ⟨hs, hprintable⟩, by simpa using hreplaced, ?_⟩
      simpa [hprintable] using hid
    | false => simp [hprintable] at hid
  · rintro ⟨s, ⟨hs, hprintable⟩, hreplaced, hid⟩
    refine ⟨s, ⟨hs, by simp [hreplaced]⟩, ?_⟩
    simp [hprintable, hid]

/-- **The replacements** are the records of the replaced slots exactly when no question is printed
for both kinds of slots. -/
theorem wasReplacement_iff (bank : List QuestionId) (slots : List MaterialReviewQuestion) :
    ((printedSlots bank slots).map fun slot =>
        (loadSlots bank slots).replacedQuestionIds.contains slot.question.id) =
      ((printedSlots bank slots).map fun slot => slot.status == .replaced) ↔
        ReplacedApart bank slots := by
  have hprinted : ∀ s ∈ printedSlots bank slots, s.questionId = some s.question.id := fun s hs =>
    questionId_of_printable (List.mem_filter.mp hs).2
  have hcontains : ∀ s : MaterialReviewQuestion, (loadSlots bank slots).replacedQuestionIds.contains
      s.question.id = true ↔
      ∃ s' ∈ printedSlots bank slots, s'.status = .replaced ∧ s'.question.id = s.question.id := by
    intro s
    rw [List.contains_iff_mem]
    exact mem_replacedQuestionIds
  rw [List.map_inj_left]
  constructor
  · intro h s hs s' hs' hsame hreplaced
    have hid : s'.question.id = s.question.id := by
      rw [hprinted s hs, hprinted s' hs'] at hsame
      exact (Option.some.inj hsame).symm
    have hmarked := (hcontains s).mpr ⟨s', hs', hreplaced, hid⟩
    rw [h s hs] at hmarked
    simpa using hmarked
  · intro h s hs
    rw [Bool.eq_iff_iff, hcontains]
    constructor
    · rintro ⟨s', hs', hreplaced, hid⟩
      have hsame : s.questionId = s'.questionId := by rw [hprinted s hs, hprinted s' hs', hid]
      simpa using h s hs s' hs' hsame hreplaced
    · intro hreplaced
      exact ⟨s, hs, by simpa using hreplaced, rfl⟩

end Slots

section Records

variable {loaded : LoadedQuestions} {cycleId : Uuid}

/-- The records are those of the questions. -/
theorem questionId_buildUsageRecords :
    (loaded.buildUsageRecords cycleId).map (·.questionId) = loaded.allQuestions.map (·.id) := by
  unfold LoadedQuestions.buildUsageRecords
  rw [List.map_map]
  conv_rhs => rw [← List.zipIdx_map_fst 0 loaded.allQuestions]
  rw [List.map_map]
  rfl

/-- Whether a record is a replacement is looked up by its question. -/
theorem wasReplacement_buildUsageRecords :
    (loaded.buildUsageRecords cycleId).map (·.wasReplacement) =
      loaded.allQuestions.map fun q => loaded.replacedQuestionIds.contains q.id := by
  unfold LoadedQuestions.buildUsageRecords
  rw [List.map_map]
  conv_rhs => rw [← List.zipIdx_map_fst 0 loaded.allQuestions]
  rw [List.map_map]
  rfl

/-- The positions are consecutive from 1. -/
theorem positionInPdf_buildUsageRecords :
    (loaded.buildUsageRecords cycleId).map (·.positionInPdf) =
      List.range' 1 loaded.allQuestions.length := by
  have hsnd : (loaded.buildUsageRecords cycleId).map (·.positionInPdf) =
      (loaded.allQuestions.zipIdx.map Prod.snd).map (· + 1) := by
    unfold LoadedQuestions.buildUsageRecords
    rw [List.map_map, List.map_map]
    rfl
  rw [hsnd, List.zipIdx_map_snd, ← List.range'_succ_left]

end Records

/-- The status of a course without an exception. -/
theorem status_report {job : CourseJob} {run : CourseRun} {slots : List MaterialReviewQuestion}
    (h : run.error = none) : (job.report run slots).statusData.status =
      some (if (run.loadCourseQuestions job.dist slots).allQuestions.isEmpty then "empty_bank"
        else if (run.loadCourseQuestions job.dist slots).missingDesglose.isEmpty then "completed"
        else "completed_with_warnings") := by
  unfold CourseJob.report CourseJob.reportLoaded
  rw [h]
  dsimp only
  split
  · rfl
  · rfl

/-- What the statuses of a course without an exception say. -/
theorem statuses_report {job : CourseJob} {run : CourseRun} {slots : List MaterialReviewQuestion}
    (h : run.error = none) :
    ((job.report run slots).statusData.status = some "completed" ↔
        (run.loadCourseQuestions job.dist slots).allQuestions ≠ [] ∧
          (run.loadCourseQuestions job.dist slots).missingDesglose = []) ∧
      ((job.report run slots).statusData.status = some "completed_with_warnings" ↔
        (run.loadCourseQuestions job.dist slots).allQuestions ≠ [] ∧
          (run.loadCourseQuestions job.dist slots).missingDesglose ≠ []) ∧
      ((job.report run slots).statusData.status = some "empty_bank" ↔
        (run.loadCourseQuestions job.dist slots).allQuestions = []) := by
  rw [status_report h]
  rcases (run.loadCourseQuestions job.dist slots).allQuestions with _ | ⟨q, qs⟩ <;>
    rcases (run.loadCourseQuestions job.dist slots).missingDesglose with _ | ⟨m, ms⟩ <;>
    simp

/-- **The account of the slots** of a course is right exactly when no question is printed both
for a replaced slot and for one that is not. -/
theorem slotsAccounted_iff (job : CourseJob) (run : CourseRun)
    (slots : List MaterialReviewQuestion) :
    SlotsAccounted job run slots ↔ ReplacedApart run.bank slots := by
  have hload : slots ≠ [] → run.loadCourseQuestions job.dist slots = loadSlots run.bank slots := by
    intro hne
    unfold CourseRun.loadCourseQuestions
    rw [if_neg (by simpa using hne)]
  have hreplacements : slots ≠ [] →
      ((run.loadCourseQuestions job.dist slots).buildUsageRecords job.cycleId).map
        (·.wasReplacement) = (printedSlots run.bank slots).map fun slot =>
          (loadSlots run.bank slots).replacedQuestionIds.contains slot.question.id := by
    intro hne
    rw [hload hne, wasReplacement_buildUsageRecords, allQuestions_loadSlots, List.map_map]
    rfl
  constructor
  · intro h
    by_cases hne : slots = []
    · subst hne
      intro s hs
      cases hs
    · have hmarked := h.replacements hne
      rw [hreplacements hne] at hmarked
      exact (wasReplacement_iff _ _).mp hmarked
  · intro h
    refine ⟨?_, ?_, fun herror => (statuses_report herror).1,
      fun herror => (statuses_report herror).2.1, fun herror => (statuses_report herror).2.2,
      questionId_buildUsageRecords, positionInPdf_buildUsageRecords, ?_, ?_⟩
    · intro hne
      rw [hload hne, allQuestions_loadSlots, List.forall₂_map_right_iff, List.forall₂_same]
      intro s hs
      exact ⟨questionId_of_printable (List.mem_filter.mp hs).2, rfl, rfl⟩
    · intro hne
      rw [hload hne]
      exact missing_loadSlots run.bank slots
    · intro hne
      rw [hreplacements hne]
      exact (wasReplacement_iff _ _).mpr h
    · rintro rfl u hu
      obtain ⟨⟨q, idx⟩, _, rfl⟩ := List.mem_map.mp hu
      rfl

/-- A course of a job. -/
def repeatingJob : CourseJob where
  materialRequestId := 1
  tenantId := 7
  cycleId := 3
  weekNumber := 2
  templateName := "Material"
  dist := ⟨9, [], [], some 4⟩
  variants := [.student]

/-- A run without an exception, in which the bank has one question. -/
def repeatingRun : CourseRun where
  bank := [5]
  random := []
  error := none
  pageCount := some 1
  fileSizeBytes := 100
  now := 0
  ledgerFails := false

/-- Two slots with the same question: the one that was found, and another one that was replaced
by it. -/
def repeatingSlots : List MaterialReviewQuestion :=
  [⟨1, 1, some 5, 8, 80, none, 1, .found⟩, ⟨2, 1, some 5, 8, 80, none, 2, .replaced⟩]

/-- The record of the slot that was found counts as a replacement. -/
theorem not_slotsAccounted : ¬ SlotsAccounted repeatingJob repeatingRun repeatingSlots := by
  intro h
  have hmarked := h.replacements (by decide)
  revert hmarked
  decide

end Odiseo.Materials
