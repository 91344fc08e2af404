import Odiseo.Database.DistinctOn
import Odiseo.Database.Transition
import Odiseo.Tenancy.Migrations

/-!
# Constraints on existing data

Five of the tenant migrations turn rules that only the application kept into unique indexes. A
unique index is refused while two rows violate it, so some of them delete rows first: the duplicates
of a key but its earliest one, or all dismissals of the onboarding. The other tables of a schema,
and the columns that no migration reads, are left out.
-/

namespace Odiseo.Tenancy

open Database Database.Transition

/-- `uuid`. -/
abbrev RowId := ℕ

/-- `timestamptz`. -/
abbrev Instant := ℕ

/-- The identifier of a course, a topic or a subtopic of the shared catalog. -/
abbrev CatalogKey := ℕ

/-- `00000000-0000-0000-0000-000000000000`. -/
def nilUuid : RowId := 0

/-- `syllabus`. -/
structure SyllabusRow where
  id : RowId
  cycleId : RowId
  courseId : CatalogKey
  isActive : Bool
  deriving DecidableEq, Repr

/-- `cycle_weeks`. -/
structure CycleWeekRow where
  id : RowId
  cycleId : RowId
  weekNumber : ℕ
  deletedAt : Option Instant
  deriving DecidableEq, Repr

/-- `materials`. -/
structure MaterialRow where
  id : RowId
  tenantId : ℕ
  profileId : RowId
  weekNumber : ℕ
  deriving DecidableEq, Repr

/-- `pdf_design_templates`. -/
structure PdfDesignRow where
  id : RowId
  tenantId : Option ℕ
  isDefault : Bool
  deriving DecidableEq, Repr

/-- `onboarding_progress`; there is no `user_id` before its migration. -/
structure OnboardingRow where
  id : RowId
  createdAt : Instant
  userId : Option RowId
  deriving DecidableEq, Repr

/-- `material_question_usage`. -/
structure QuestionUsageRow where
  id : RowId
  materialRequestId : RowId
  courseId : CatalogKey
  questionId : ℕ
  usedAt : Instant
  deriving DecidableEq, Repr

/-- `syllabus_distribution`. -/
structure DistributionRow where
  id : RowId
  syllabusId : RowId
  templateId : Option RowId
  weekNumber : ℕ
  topicId : CatalogKey
  subtopicId : CatalogKey
  createdAt : Instant
  deriving DecidableEq, Repr

instance : Keyed RowId SyllabusRow := ⟨SyllabusRow.id⟩
instance : Keyed RowId CycleWeekRow := ⟨CycleWeekRow.id⟩
instance : Keyed RowId MaterialRow := ⟨MaterialRow.id⟩
instance : Keyed RowId PdfDesignRow := ⟨PdfDesignRow.id⟩
instance : Keyed RowId OnboardingRow := ⟨OnboardingRow.id⟩
instance : Keyed RowId QuestionUsageRow := ⟨QuestionUsageRow.id⟩
instance : Keyed RowId DistributionRow := ⟨DistributionRow.id⟩

/-- The key of `uq_syllabus_cycle_course_active`. -/
def SyllabusRow.activeKey (r : SyllabusRow) : Option (RowId × CatalogKey) :=
  if r.isActive then some (r.cycleId, r.courseId) else none

/-- The key of `uq_cycle_weeks_cycle_week_live`. -/
def CycleWeekRow.liveKey (r : CycleWeekRow) : Option (RowId × ℕ) :=
  if r.deletedAt = none then some (r.cycleId, r.weekNumber) else none

/-- The key of `uq_materials_tenant_profile_week`. -/
def MaterialRow.weekKey (r : MaterialRow) : Option (ℕ × RowId × ℕ) :=
  some (r.tenantId, r.profileId, r.weekNumber)

/-- The key of `idx_tenant_default`; a `NULL` differs from every other one. -/
def PdfDesignRow.defaultKey (r : PdfDesignRow) : Option ℕ :=
  if r.isDefault then r.tenantId else none

/-- `(material_request_id, course_id, question_id)`. -/
def QuestionUsageRow.naturalKey (r : QuestionUsageRow) : RowId ×ₗ CatalogKey ×ₗ ℕ :=
  toLex (r.materialRequestId, toLex (r.courseId, r.questionId))

/-- `(used_at, id)`. -/
def QuestionUsageRow.age (r : QuestionUsageRow) : Instant ×ₗ RowId := toLex (r.usedAt, r.id)

/-- The key of `UQ_syllabus_template_week_topic_subtopic`; a `NULL` differs from every other one. -/
def DistributionRow.plainKey (r : DistributionRow) :
    Option (RowId × RowId × ℕ × CatalogKey × CatalogKey) :=
  r.templateId.map fun templateId =>
    (r.syllabusId, templateId, r.weekNumber, r.topicId, r.subtopicId)

/-- `(syllabus_id, COALESCE(template_id, nil), week_number, topic_id, subtopic_id)`. -/
def DistributionRow.nullSafeKey (r : DistributionRow) :
    RowId ×ₗ RowId ×ₗ ℕ ×ₗ CatalogKey ×ₗ CatalogKey :=
  toLex (r.syllabusId, toLex (r.templateId.getD nilUuid,
    toLex (r.weekNumber, toLex (r.topicId, r.subtopicId))))

/-- `(created_at, id)`. -/
def DistributionRow.age (r : DistributionRow) : Instant ×ₗ RowId := toLex (r.createdAt, r.id)

/-- `(created_at, id)`. -/
def OnboardingRow.age (r : OnboardingRow) : Instant ×ₗ RowId := toLex (r.createdAt, r.id)

/-- The unique indexes, and the unique constraint, of the migrations. -/
inductive UniqueIndex
  /-- `UQ_syllabus_template_week_topic_subtopic`. -/
  | syllabusTemplateWeekTopicSubtopic
  /-- `uq_syllabus_cycle_course_active`. -/
  | syllabusCycleCourseActive
  /-- `uq_cycle_weeks_cycle_week_live`. -/
  | cycleWeeksCycleWeekLive
  /-- `uq_onboarding_progress_singleton`. -/
  | onboardingProgressSingleton
  /-- `uq_materials_tenant_profile_week`. -/
  | materialsTenantProfileWeek
  /-- `idx_tenant_default`. -/
  | tenantDefault
  /-- `uq_onboarding_progress_user`. -/
  | onboardingProgressUser
  /-- `uq_material_question_usage_request_course_question`. -/
  | materialQuestionUsageRequestCourseQuestion
  /-- `uq_syllabus_distribution_template_week_topic_subtopic`. -/
  | syllabusDistributionTemplateWeekTopicSubtopic
  deriving DecidableEq, Repr

/-- The tables of a schema that the migrations constrain, with the unique indexes on them. -/
structure Content where
  syllabus : Table RowId SyllabusRow
  cycleWeeks : Table RowId CycleWeekRow
  materials : Table RowId MaterialRow
  pdfDesignTemplates : Table RowId PdfDesignRow
  onboardingProgress : Table RowId OnboardingRow
  materialQuestionUsage : Table RowId QuestionUsageRow
  syllabusDistribution : Table RowId DistributionRow
  uniqueIndexes : List UniqueIndex

namespace Content

/-- No two rows share the key of an index. -/
def Satisfies (c : Content) : UniqueIndex → Prop
  | .syllabusTemplateWeekTopicSubtopic =>
    UniqueOn DistributionRow.plainKey c.syllabusDistribution.rows
  | .syllabusCycleCourseActive => UniqueOn SyllabusRow.activeKey c.syllabus.rows
  | .cycleWeeksCycleWeekLive => UniqueOn CycleWeekRow.liveKey c.cycleWeeks.rows
  | .onboardingProgressSingleton => UniqueOn (fun _ => some true) c.onboardingProgress.rows
  | .materialsTenantProfileWeek => UniqueOn MaterialRow.weekKey c.materials.rows
  | .tenantDefault => UniqueOn PdfDesignRow.defaultKey c.pdfDesignTemplates.rows
  | .onboardingProgressUser => UniqueOn OnboardingRow.userId c.onboardingProgress.rows
  | .materialQuestionUsageRequestCourseQuestion =>
    UniqueOn (fun r => some r.naturalKey) c.materialQuestionUsage.rows
  | .syllabusDistributionTemplateWeekTopicSubtopic =>
    UniqueOn (fun r => some r.nullSafeKey) c.syllabusDistribution.rows

instance (c : Content) (index : UniqueIndex) : Decidable (c.Satisfies index) :=
  match index with
  | .syllabusTemplateWeekTopicSubtopic | .syllabusCycleCourseActive | .cycleWeeksCycleWeekLive
  | .onboardingProgressSingleton | .materialsTenantProfileWeek | .tenantDefault
  | .onboardingProgressUser | .materialQuestionUsageRequestCourseQuestion
  | .syllabusDistributionTemplateWeekTopicSubtopic => inferInstanceAs (Decidable (UniqueOn _ _))

/-- `CREATE UNIQUE INDEX IF NOT EXISTS`. -/
def createUniqueIndex (index : UniqueIndex) (c : Content) : Option Content :=
  if index ∈ c.uniqueIndexes then some c
  else if c.Satisfies index then some { c with uniqueIndexes := c.uniqueIndexes ++ [index] }
  else none

/-- `DROP INDEX IF EXISTS` and `DROP CONSTRAINT IF EXISTS`. -/
def dropIndex (index : UniqueIndex) (c : Content) : Content :=
  { c with uniqueIndexes := c.uniqueIndexes.filter (· ≠ index) }

/-- `0004_tenant_integrity_constraints`. -/
def tenantIntegrityConstraints (c : Content) : Option Content := do
  let c ← c.createUniqueIndex .syllabusCycleCourseActive
  let c ← c.createUniqueIndex .cycleWeeksCycleWeekLive
  let c := { c with onboardingProgress := c.onboardingProgress.keepFirst OnboardingRow.age }
  c.createUniqueIndex .onboardingProgressSingleton

/-- `0006_material_and_default_design_uniqueness`. -/
def materialAndDefaultDesignUniqueness (c : Content) : Option Content := do
  let c ← c.createUniqueIndex .materialsTenantProfileWeek
  c.createUniqueIndex .tenantDefault

/-- `0007_onboarding_progress_per_user`. -/
def onboardingProgressPerUser (c : Content) : Option Content :=
  let c := { c with onboardingProgress := c.onboardingProgress.delete fun _ => true }
  let c := c.dropIndex .onboardingProgressSingleton
  c.createUniqueIndex .onboardingProgressUser

/-- `0009_material_question_usage_natural_key`. -/
def materialQuestionUsageNaturalKey (c : Content) : Option Content :=
  let c := { c with
    materialQuestionUsage :=
      c.materialQuestionUsage.collapse QuestionUsageRow.naturalKey QuestionUsageRow.age }
  c.createUniqueIndex .materialQuestionUsageRequestCourseQuestion

/-- `0011_syllabus_distribution_null_safe_unique`. -/
def syllabusDistributionNullSafeUnique (c : Content) : Option Content :=
  let c := { c with
    syllabusDistribution :=
      c.syllabusDistribution.collapse DistributionRow.nullSafeKey DistributionRow.age }
  let c := c.dropIndex .syllabusTemplateWeekTopicSubtopic
  c.createUniqueIndex .syllabusDistributionTemplateWeekTopicSubtopic

end Content

/-- `migration.up` on these tables. -/
def integrityDdl : Ddl Content := fun id c =>
  if id = "0004_tenant_integrity_constraints" then c.tenantIntegrityConstraints
  else if id = "0006_material_and_default_design_uniqueness" then
    c.materialAndDefaultDesignUniqueness
  else if id = "0007_onboarding_progress_per_user" then c.onboardingProgressPerUser
  else if id = "0009_material_question_usage_natural_key" then c.materialQuestionUsageNaturalKey
  else if id = "0011_syllabus_distribution_null_safe_unique" then
    c.syllabusDistributionNullSafeUnique
  else some c

namespace Content

/-- What a migration does to the list of unique indexes. -/
def alterIndexes (indexes : List UniqueIndex) (id : String) : List UniqueIndex :=
  if id = "0004_tenant_integrity_constraints" then
    indexes ++ [.syllabusCycleCourseActive, .cycleWeeksCycleWeekLive, .onboardingProgressSingleton]
  else if id = "0006_material_and_default_design_uniqueness" then
    indexes ++ [.materialsTenantProfileWeek, .tenantDefault]
  else if id = "0007_onboarding_progress_per_user" then
    indexes.filter (· ≠ .onboardingProgressSingleton) ++ [.onboardingProgressUser]
  else if id = "0009_material_question_usage_natural_key" then
    indexes ++ [.materialQuestionUsageRequestCourseQuestion]
  else if id = "0011_syllabus_distribution_null_safe_unique" then
    indexes.filter (· ≠ .syllabusTemplateWeekTopicSubtopic) ++
      [.syllabusDistributionTemplateWeekTopicSubtopic]
  else indexes

/-- The unique indexes after some migrations. The constraint of 0001 is among them from the start:
it is created with its table, and there are no rows without the table. -/
def indexesAfter (ids : List String) : List UniqueIndex :=
  ids.foldl alterIndexes [.syllabusTemplateWeekTopicSubtopic]

/-- No rows stand in the way of a migration. -/
def Clear (c : Content) (id : String) : Prop :=
  (id = "0004_tenant_integrity_constraints" →
    c.Satisfies .syllabusCycleCourseActive ∧ c.Satisfies .cycleWeeksCycleWeekLive) ∧
  (id = "0006_material_and_default_design_uniqueness" →
    c.Satisfies .materialsTenantProfileWeek ∧ c.Satisfies .tenantDefault)

instance (c : Content) (id : String) : Decidable (c.Clear id) := inferInstanceAs (Decidable (_ ∧ _))

/-- The content that a migration leaves when no rows stand in its way. -/
def migrated (c : Content) (id : String) : Content :=
  { c with
    onboardingProgress :=
      if id = "0004_tenant_integrity_constraints" then
        c.onboardingProgress.keepFirst OnboardingRow.age
      else if id = "0007_onboarding_progress_per_user" then
        c.onboardingProgress.delete fun _ => true
      else c.onboardingProgress
    materialQuestionUsage :=
      if id = "0009_material_question_usage_natural_key" then
        c.materialQuestionUsage.collapse QuestionUsageRow.naturalKey QuestionUsageRow.age
      else c.materialQuestionUsage
    syllabusDistribution :=
      if id = "0011_syllabus_distribution_null_safe_unique" then
        c.syllabusDistribution.collapse DistributionRow.nullSafeKey DistributionRow.age
      else c.syllabusDistribution
    uniqueIndexes := alterIndexes c.uniqueIndexes id }

variable {c c' : Content} {index : UniqueIndex} {id : String}

/-- The ages of two dismissals are different. -/
theorem id_of_onboardingAge (r s : OnboardingRow) (h : r.age = s.age) : key r = key s :=
  congrArg (fun x => (ofLex x).2) h

/-- The ages of two uses are different. -/
theorem id_of_usageAge (r s : QuestionUsageRow) (h : r.age = s.age) : key r = key s :=
  congrArg (fun x => (ofLex x).2) h

/-- The ages of two distributions are different. -/
theorem id_of_distributionAge (r s : DistributionRow) (h : r.age = s.age) : key r = key s :=
  congrArg (fun x => (ofLex x).2) h

/-- The first dismissal is the only one that is left. -/
theorem satisfies_singleton (t : Table RowId OnboardingRow) :
    UniqueOn (fun _ => some true) (t.keepFirst OnboardingRow.age).rows := by
  have hmap : (t.keepFirst OnboardingRow.age).rows.filterMap (fun _ => some true) =
      (t.keepFirst OnboardingRow.age).rows.map fun _ => true :=
    congrFun List.filterMap_eq_map _
  rw [UniqueOn, hmap, List.nodup_map_iff_inj_on (List.Nodup.of_map _ (Table.nodup _))]
  exact fun r hr s hs _ => Table.eq_of_mem_keepFirst id_of_onboardingAge hr hs

/-- `0004_tenant_integrity_constraints`, on a schema without its indexes. -/
theorem tenantIntegrityConstraints_eq (hsyllabus : .syllabusCycleCourseActive ∉ c.uniqueIndexes)
    (hweeks : .cycleWeeksCycleWeekLive ∉ c.uniqueIndexes)
    (honboarding : .onboardingProgressSingleton ∉ c.uniqueIndexes) :
    c.tenantIntegrityConstraints =
      if c.Clear "0004_tenant_integrity_constraints" then
        some (c.migrated "0004_tenant_integrity_constraints")
      else none := by
  by_cases hactive : UniqueOn SyllabusRow.activeKey c.syllabus.rows
  · by_cases hlive : UniqueOn CycleWeekRow.liveKey c.cycleWeeks.rows
    · have hclear : c.Clear "0004_tenant_integrity_constraints" :=
        ⟨fun _ => ⟨hactive, hlive⟩, fun h => absurd h (by decide)⟩
      have hsingle := satisfies_singleton c.onboardingProgress
      rw [if_pos hclear]
      simp [tenantIntegrityConstraints, createUniqueIndex, Satisfies, migrated, alterIndexes,
        hsyllabus, hweeks, honboarding, hactive, hlive, hsingle]
    · have hblocked : ¬c.Clear "0004_tenant_integrity_constraints" :=
        fun h => hlive (h.1 rfl).2
      rw [if_neg hblocked]
      simp [tenantIntegrityConstraints, createUniqueIndex, Satisfies, hsyllabus, hweeks, hactive,
        hlive]
  · have hblocked : ¬c.Clear "0004_tenant_integrity_constraints" := fun h => hactive (h.1 rfl).1
    rw [if_neg hblocked]
    simp [tenantIntegrityConstraints, createUniqueIndex, Satisfies, hsyllabus, hactive]

/-- `0006_material_and_default_design_uniqueness`, on a schema without its indexes. -/
theorem materialAndDefaultDesignUniqueness_eq
    (hmaterials : .materialsTenantProfileWeek ∉ c.uniqueIndexes)
    (hdefault : .tenantDefault ∉ c.uniqueIndexes) :
    c.materialAndDefaultDesignUniqueness =
      if c.Clear "0006_material_and_default_design_uniqueness" then
        some (c.migrated "0006_material_and_default_design_uniqueness")
      else none := by
  by_cases hweek : UniqueOn MaterialRow.weekKey c.materials.rows
  · by_cases hsole : UniqueOn PdfDesignRow.defaultKey c.pdfDesignTemplates.rows
    · have hclear : c.Clear "0006_material_and_default_design_uniqueness" :=
        ⟨fun h => absurd h (by decide), fun _ => ⟨hweek, hsole⟩⟩
      rw [if_pos hclear]
      simp [materialAndDefaultDesignUniqueness, createUniqueIndex, Satisfies, migrated,
        alterIndexes, hmaterials, hdefault, hweek, hsole]
    · have hblocked : ¬c.Clear "0006_material_and_default_design_uniqueness" :=
        fun h => hsole (h.2 rfl).2
      rw [if_neg hblocked]
      simp [materialAndDefaultDesignUniqueness, createUniqueIndex, Satisfies, hmaterials, hdefault,
        hweek, hsole]
  · have hblocked : ¬c.Clear "0006_material_and_default_design_uniqueness" :=
      fun h => hweek (h.2 rfl).1
    rw [if_neg hblocked]
    simp [materialAndDefaultDesignUniqueness, createUniqueIndex, Satisfies, hmaterials, hweek]

/-- `0007_onboarding_progress_per_user`, on a schema without its index. -/
theorem onboardingProgressPerUser_eq (huser : .onboardingProgressUser ∉ c.uniqueIndexes) :
    c.onboardingProgressPerUser = some (c.migrated "0007_onboarding_progress_per_user") := by
  have hempty : UniqueOn OnboardingRow.userId (c.onboardingProgress.delete fun _ => true).rows := by
    simp [UniqueOn, Table.delete]
  simp [onboardingProgressPerUser, createUniqueIndex, dropIndex, Satisfies, migrated, alterIndexes,
    huser, hempty]

/-- `0009_material_question_usage_natural_key`, on a schema without its index. -/
theorem materialQuestionUsageNaturalKey_eq
    (husage : .materialQuestionUsageRequestCourseQuestion ∉ c.uniqueIndexes) :
    c.materialQuestionUsageNaturalKey =
      some (c.migrated "0009_material_question_usage_natural_key") := by
  have hunique : UniqueOn (fun r => some r.naturalKey)
      (c.materialQuestionUsage.collapse QuestionUsageRow.naturalKey QuestionUsageRow.age).rows :=
    Table.uniqueOn_collapse id_of_usageAge
  simp [materialQuestionUsageNaturalKey, createUniqueIndex, Satisfies, migrated, alterIndexes,
    husage, hunique]

/-- `0011_syllabus_distribution_null_safe_unique`, on a schema without its index. -/
theorem syllabusDistributionNullSafeUnique_eq
    (hsafe : .syllabusDistributionTemplateWeekTopicSubtopic ∉ c.uniqueIndexes) :
    c.syllabusDistributionNullSafeUnique =
      some (c.migrated "0011_syllabus_distribution_null_safe_unique") := by
  have hunique : UniqueOn (fun r => some r.nullSafeKey)
      (c.syllabusDistribution.collapse DistributionRow.nullSafeKey DistributionRow.age).rows :=
    Table.uniqueOn_collapse id_of_distributionAge
  simp [syllabusDistributionNullSafeUnique, createUniqueIndex, dropIndex, Satisfies, migrated,
    alterIndexes, hsafe, hunique]

/-- The other migrations do not touch these tables. -/
theorem integrityDdl_of_other (h4 : id ≠ "0004_tenant_integrity_constraints")
    (h6 : id ≠ "0006_material_and_default_design_uniqueness")
    (h7 : id ≠ "0007_onboarding_progress_per_user")
    (h9 : id ≠ "0009_material_question_usage_natural_key")
    (h11 : id ≠ "0011_syllabus_distribution_null_safe_unique") :
    integrityDdl id c = if c.Clear id then some (c.migrated id) else none := by
  have hclear : c.Clear id := ⟨fun h => absurd h h4, fun h => absurd h h6⟩
  have hsame : c.migrated id = c := by simp [migrated, alterIndexes, h4, h6, h7, h9, h11]
  rw [if_pos hclear, hsame]
  simp [integrityDdl, h4, h6, h7, h9, h11]

/-- **The next migration** of a schema that has the first `n` of them is refused exactly when rows
stand in its way. -/
theorem integrityDdl_next {n : ℕ} (hn : n < tenantMigrationIds.length)
    (h : c.uniqueIndexes = indexesAfter (tenantMigrationIds.take n)) :
    integrityDdl tenantMigrationIds[n] c =
      if c.Clear tenantMigrationIds[n] then some (c.migrated tenantMigrationIds[n]) else none := by
  have hclear (id : String) (h4 : id ≠ "0004_tenant_integrity_constraints")
      (h6 : id ≠ "0006_material_and_default_design_uniqueness") : c.Clear id :=
    ⟨fun h => absurd h h4, fun h => absurd h h6⟩
  have hlength : n < 12 := hn
  by_cases hspecial : n = 3 ∨ n = 5 ∨ n = 6 ∨ n = 8 ∨ n = 10
  · rcases hspecial with rfl | rfl | rfl | rfl | rfl
    · exact tenantIntegrityConstraints_eq (h ▸ by decide) (h ▸ by decide) (h ▸ by decide)
    · exact materialAndDefaultDesignUniqueness_eq (h ▸ by decide) (h ▸ by decide)
    · exact (onboardingProgressPerUser_eq (h ▸ by decide)).trans
        (if_pos (hclear "0007_onboarding_progress_per_user" (by decide) (by decide))).symm
    · exact (materialQuestionUsageNaturalKey_eq (h ▸ by decide)).trans
        (if_pos (hclear "0009_material_question_usage_natural_key" (by decide) (by decide))).symm
    · exact (syllabusDistributionNullSafeUnique_eq (h ▸ by decide)).trans
        (if_pos (hclear "0011_syllabus_distribution_null_safe_unique" (by decide) (by decide))).symm
  · have hne {m : ℕ} (hm : m < tenantMigrationIds.length) (hnm : n ≠ m) :
        tenantMigrationIds[n] ≠ tenantMigrationIds[m] :=
      fun heq => hnm ((nodup_tenantMigrationIds.getElem_inj_iff).mp heq)
    simp only [not_or] at hspecial
    obtain ⟨h4, h6, h7, h9, h11⟩ := hspecial
    exact integrityDdl_of_other (hne (m := 3) (by decide) h4) (hne (m := 5) (by decide) h6)
      (hne (m := 6) (by decide) h7) (hne (m := 8) (by decide) h9) (hne (m := 10) (by decide) h11)

/-- A content with fewer rows. -/
structure Fewer (c' c : Content) : Prop where
  syllabus : c'.syllabus.rows.Sublist c.syllabus.rows
  cycleWeeks : c'.cycleWeeks.rows.Sublist c.cycleWeeks.rows
  materials : c'.materials.rows.Sublist c.materials.rows
  pdfDesignTemplates : c'.pdfDesignTemplates.rows.Sublist c.pdfDesignTemplates.rows
  onboardingProgress : c'.onboardingProgress.rows.Sublist c.onboardingProgress.rows
  materialQuestionUsage : c'.materialQuestionUsage.rows.Sublist c.materialQuestionUsage.rows
  syllabusDistribution : c'.syllabusDistribution.rows.Sublist c.syllabusDistribution.rows

/-- Fewer rows violate no index that more rows satisfy. -/
theorem Satisfies.of_fewer (h : c.Satisfies index) (hfewer : Fewer c' c) : c'.Satisfies index := by
  cases index with
  | syllabusTemplateWeekTopicSubtopic => exact h.sublist (hfewer.syllabusDistribution.filterMap _)
  | syllabusCycleCourseActive => exact h.sublist (hfewer.syllabus.filterMap _)
  | cycleWeeksCycleWeekLive => exact h.sublist (hfewer.cycleWeeks.filterMap _)
  | onboardingProgressSingleton => exact h.sublist (hfewer.onboardingProgress.filterMap _)
  | materialsTenantProfileWeek => exact h.sublist (hfewer.materials.filterMap _)
  | tenantDefault => exact h.sublist (hfewer.pdfDesignTemplates.filterMap _)
  | onboardingProgressUser => exact h.sublist (hfewer.onboardingProgress.filterMap _)
  | materialQuestionUsageRequestCourseQuestion =>
    exact h.sublist (hfewer.materialQuestionUsage.filterMap _)
  | syllabusDistributionTemplateWeekTopicSubtopic =>
    exact h.sublist (hfewer.syllabusDistribution.filterMap _)

/-- A migration only deletes rows. -/
theorem fewer_migrated (c : Content) (id : String) : Fewer (c.migrated id) c where
  syllabus := .refl _
  cycleWeeks := .refl _
  materials := .refl _
  pdfDesignTemplates := .refl _
  onboardingProgress := by
    simp only [migrated]
    split
    · exact List.filter_sublist
    · split
      · exact List.filter_sublist
      · exact .refl _
  materialQuestionUsage := by
    simp only [migrated]
    split
    · exact List.filter_sublist
    · exact .refl _
  syllabusDistribution := by
    simp only [migrated]
    split
    · exact List.filter_sublist
    · exact .refl _

/-- The indexes that a migration leaves hold, when those before it do. -/
theorem satisfies_migrated (h : ∀ index ∈ c.uniqueIndexes, c.Satisfies index)
    (hclear : c.Clear id) :
    ∀ index ∈ (c.migrated id).uniqueIndexes, (c.migrated id).Satisfies index := by
  intro index hindex
  by_cases hold : index ∈ c.uniqueIndexes
  · exact (h index hold).of_fewer (fewer_migrated c id)
  change index ∈ alterIndexes c.uniqueIndexes id at hindex
  unfold alterIndexes at hindex
  split_ifs at hindex with h4 h6 h7 h9 h11
  · subst h4
    obtain ⟨hactive, hlive⟩ := hclear.1 rfl
    have hnew := (List.mem_append.mp hindex).resolve_left hold
    simp only [List.mem_cons, List.not_mem_nil, or_false] at hnew
    rcases hnew with rfl | rfl | rfl
    · exact hactive
    · exact hlive
    · exact satisfies_singleton c.onboardingProgress
  · subst h6
    obtain ⟨hweek, hsole⟩ := hclear.2 rfl
    have hnew := (List.mem_append.mp hindex).resolve_left hold
    simp only [List.mem_cons, List.not_mem_nil, or_false] at hnew
    rcases hnew with rfl | rfl
    · exact hweek
    · exact hsole
  · subst h7
    have hnew := (List.mem_append.mp hindex).resolve_left
      fun hmem => hold (List.mem_filter.mp hmem).1
    obtain rfl := List.mem_singleton.mp hnew
    change UniqueOn OnboardingRow.userId (c.onboardingProgress.delete fun _ => true).rows
    simp [UniqueOn, Table.delete]
  · subst h9
    have hnew := (List.mem_append.mp hindex).resolve_left hold
    obtain rfl := List.mem_singleton.mp hnew
    exact Table.uniqueOn_collapse id_of_usageAge
  · subst h11
    have hnew := (List.mem_append.mp hindex).resolve_left
      fun hmem => hold (List.mem_filter.mp hmem).1
    obtain rfl := List.mem_singleton.mp hnew
    exact Table.uniqueOn_collapse id_of_distributionAge
  · exact absurd hindex hold

end Content

end Odiseo.Tenancy
