import Odiseo.Tenancy.Integrity

/-!
# Migrating a schema that is in use

The application goes on writing to a schema while it is migrated, between two migrations of a run as
well. Runs may fail at any migration and start again; that they hold the lock of the schema is not
used, so several of them may be under way.
-/

namespace Odiseo.Tenancy

open Database Database.Transition

/-- Two uses of one question by one course of a request. -/
def QuestionUsageRow.SameUse (r s : QuestionUsageRow) : Prop :=
  r.materialRequestId = s.materialRequestId ∧ r.courseId = s.courseId ∧ r.questionId = s.questionId

/-- Two distributions of one cell of a syllabus, of no template or of the same one. -/
def DistributionRow.SameCell (r s : DistributionRow) : Prop :=
  r.syllabusId = s.syllabusId ∧ r.templateId = s.templateId ∧ r.weekNumber = s.weekNumber ∧
    r.topicId = s.topicId ∧ r.subtopicId = s.subtopicId

/-- No template has the nil identifier. -/
def Content.NoNilTemplate (c : Content) : Prop :=
  ∀ r ∈ c.syllabusDistribution.rows, r.templateId ≠ some nilUuid

instance (c : Content) : Decidable c.NoNilTemplate :=
  inferInstanceAs (Decidable (∀ r ∈ c.syllabusDistribution.rows, r.templateId ≠ some nilUuid))

/-- The dismissals have a user once they can have one. -/
def Content.UsersKnown (c : Content) : Prop :=
  ∀ r ∈ c.onboardingProgress.rows,
    r.userId.isSome = decide (.onboardingProgressUser ∈ c.uniqueIndexes)

instance (c : Content) : Decidable c.UsersKnown :=
  inferInstanceAs (Decidable (∀ r ∈ c.onboardingProgress.rows, _ = _))

/-- What a transaction of the application may leave. -/
def Content.Accepts (c c' : Content) : Prop :=
  c'.uniqueIndexes = c.uniqueIndexes ∧ (∀ index ∈ c.uniqueIndexes, c'.Satisfies index) ∧
    c'.NoNilTemplate ∧ c'.UsersKnown

instance (c c' : Content) : Decidable (c.Accepts c') := inferInstanceAs (Decidable (_ ∧ _))

/-- A schema, and what each run that is under way has left. -/
structure LiveSchema where
  schema : SchemaState Content
  runs : List (List String)

/-- What happens next. -/
inductive LiveAction
  /-- A transaction of the application commits. -/
  | write (content : Content)
  /-- A run has created the table of the records and read them. -/
  | start
  /-- The next migration of a run. -/
  | next (k : ℕ) (finish : TransactionEnd)
  /-- A run ends, or its process does. -/
  | stop (k : ℕ)

namespace LiveSchema

/-- One step, when it can happen. -/
def step (w : LiveSchema) : LiveAction → Option LiveSchema
  | .write content =>
    if w.schema.content.Accepts content then
      some { w with schema := { w.schema with content := content } }
    else none
  | .start =>
    some
      { schema := { w.schema with markerTable := true }
        runs := w.runs ++ [tenantMigrationIds.filter (· ∉ w.schema.recorded)] }
  | .next k finish =>
    match w.runs[k]? with
    | some (id :: ids) =>
      match applyMigration integrityDdl id finish w.schema with
      | (schema, true) => some ⟨schema, w.runs.set k ids⟩
      | (schema, false) => some ⟨schema, w.runs.eraseIdx k⟩
    | _ => none
  | .stop k => some { w with runs := w.runs.eraseIdx k }

/-- A schema that no run has seen. -/
def unmigrated (content : Content) : LiveSchema := ⟨freshSchema content, []⟩

/-- What holds at any time: `n` migrations have been applied. -/
structure Sound (w : LiveSchema) (n : ℕ) : Prop where
  recorded : w.schema.recorded = tenantMigrationIds.take n
  indexes : w.schema.content.uniqueIndexes = Content.indexesAfter (tenantMigrationIds.take n)
  satisfied : ∀ index ∈ w.schema.content.uniqueIndexes, w.schema.content.Satisfies index
  noNil : w.schema.content.NoNilTemplate
  users : w.schema.content.UsersKnown
  /-- A run has not seen more records than there are. -/
  runs : ∀ run ∈ w.runs, ∃ m ≤ n, run = tenantMigrationIds.drop m

variable {w w' : LiveSchema} {n : ℕ}

/-- The migrations that are left after the first ones. -/
theorem filter_notMem_take (n : ℕ) :
    tenantMigrationIds.filter (· ∉ tenantMigrationIds.take n) = tenantMigrationIds.drop n := by
  have hdisjoint := List.disjoint_take_drop nodup_tenantMigrationIds (Nat.le_refl n)
  have htaken : (tenantMigrationIds.take n).filter (· ∉ tenantMigrationIds.take n) = [] :=
    List.filter_eq_nil_iff.mpr fun id hid => by simpa using hid
  have hleft : (tenantMigrationIds.drop n).filter (· ∉ tenantMigrationIds.take n) =
      tenantMigrationIds.drop n :=
    List.filter_eq_self.mpr fun id hid => by simpa using fun htake => hdisjoint htake hid
  calc tenantMigrationIds.filter (· ∉ tenantMigrationIds.take n)
      = (tenantMigrationIds.take n ++ tenantMigrationIds.drop n).filter
          (· ∉ tenantMigrationIds.take n) := by rw [List.take_append_drop]
    _ = tenantMigrationIds.drop n := by rw [List.filter_append, htaken, hleft, List.nil_append]

/-- A transaction of the application. -/
theorem Sound.write (h : w.Sound n) {content : Content}
    (haccepts : w.schema.content.Accepts content) :
    Sound { w with schema := { w.schema with content := content } } n where
  recorded := h.recorded
  indexes := haccepts.1.trans h.indexes
  satisfied index hindex := haccepts.2.1 index (haccepts.1 ▸ hindex)
  noNil := haccepts.2.2.1
  users := haccepts.2.2.2
  runs := h.runs

/-- A run reads the records. -/
theorem Sound.start (h : w.Sound n) :
    Sound ⟨{ w.schema with markerTable := true },
      w.runs ++ [tenantMigrationIds.filter (· ∉ w.schema.recorded)]⟩ n where
  recorded := h.recorded
  indexes := h.indexes
  satisfied := h.satisfied
  noNil := h.noNil
  users := h.users
  runs := by
    intro run hrun
    rcases List.mem_append.mp hrun with hrun | hrun
    · exact h.runs run hrun
    · rw [List.mem_singleton.mp hrun, h.recorded, filter_notMem_take]
      exact ⟨n, le_rfl, rfl⟩

/-- A run ends. -/
theorem Sound.stop (h : w.Sound n) (k : ℕ) : Sound { w with runs := w.runs.eraseIdx k } n where
  recorded := h.recorded
  indexes := h.indexes
  satisfied := h.satisfied
  noNil := h.noNil
  users := h.users
  runs run hrun := h.runs run (List.mem_of_mem_eraseIdx hrun)

/-- The next migration of a run is one that has been recorded, or the first that has not. -/
theorem Sound.next_of_run (h : w.Sound n) {id : String} {ids : List String}
    (hrun : id :: ids ∈ w.runs) :
    id ∈ w.schema.recorded ∨
      ∃ hn : n < tenantMigrationIds.length, id = tenantMigrationIds[n] ∧
        id ∉ w.schema.recorded := by
  obtain ⟨m, hmn, hdrop⟩ := h.runs _ hrun
  have hm : m < tenantMigrationIds.length := by
    by_contra hge
    rw [List.drop_eq_nil_of_le (by omega)] at hdrop
    cases hdrop
  rw [List.drop_eq_getElem_cons hm] at hdrop
  obtain ⟨rfl, rfl⟩ := List.cons.inj hdrop
  rw [h.recorded]
  rcases Nat.lt_or_eq_of_le hmn with hlt | rfl
  · exact .inl (List.mem_take_iff_getElem.mpr ⟨m, by omega, rfl⟩)
  · refine .inr ⟨hm, rfl, fun hmem => ?_⟩
    obtain ⟨i, hi, heq⟩ := List.mem_take_iff_getElem.mp hmem
    have := (nodup_tenantMigrationIds.getElem_inj_iff).mp heq
    omega

/-- What the transaction of a migration does to a schema. -/
def migrate (s : SchemaState Content) (id : String) : SchemaState Content :=
  { s with recorded := s.recorded ++ [id], content := s.content.migrated id }

/-- The transaction of a migration takes effect when it is not rolled back, it is the first one of
it and no rows stand in its way. -/
def TakesEffect (w : LiveSchema) (id : String) (finish : TransactionEnd) : Prop :=
  finish ≠ .rollsBack ∧ id ∉ w.schema.recorded ∧ w.schema.content.Clear id

instance (w : LiveSchema) (id : String) (finish : TransactionEnd) :
    Decidable (w.TakesEffect id finish) := inferInstanceAs (Decidable (_ ∧ _))

/-- **The transaction of a migration**, by whether it takes effect. -/
theorem Sound.applyMigration_eq (h : w.Sound n) {id : String} {ids : List String}
    (hrun : id :: ids ∈ w.runs) (finish : TransactionEnd) :
    applyMigration integrityDdl id finish w.schema =
      if w.TakesEffect id finish then (migrate w.schema id, finish == .commits)
      else (w.schema, false) := by
  rcases h.next_of_run hrun with hrecorded | ⟨hn, rfl, hnew⟩
  · rw [if_neg fun hcond => hcond.2.1 hrecorded]
    cases hddl : integrityDdl id w.schema.content <;> cases finish <;>
      simp [applyMigration, hddl, hrecorded]
  · have hddl := Content.integrityDdl_next hn h.indexes
    by_cases hclear : w.schema.content.Clear tenantMigrationIds[n]
    · rw [if_pos hclear] at hddl
      cases finish <;> simp [applyMigration, hddl, hclear, hnew, LiveSchema.migrate, TakesEffect]
    · rw [if_neg hclear] at hddl
      cases finish <;> simp [applyMigration, hddl, hclear, TakesEffect]

/-- Only the migration of the dismissals creates their index. -/
theorem mem_alterIndexes_user (indexes : List UniqueIndex) {id : String}
    (hid : id ≠ "0007_onboarding_progress_per_user") :
    .onboardingProgressUser ∈ Content.alterIndexes indexes id ↔
      .onboardingProgressUser ∈ indexes := by
  unfold Content.alterIndexes
  split_ifs <;> simp

/-- Only the migration of the dismissals changes whether they have a user, and it leaves none. -/
theorem usersKnown_migrated {c : Content} (hn : n < tenantMigrationIds.length)
    (hindexes : c.uniqueIndexes = Content.indexesAfter (tenantMigrationIds.take n))
    (h : c.UsersKnown) : (c.migrated tenantMigrationIds[n]).UsersKnown := by
  intro r hr
  have hold : r ∈ c.onboardingProgress.rows :=
    (Content.fewer_migrated c _).onboardingProgress.subset hr
  by_cases h7 : n = 6
  · subst h7
    change r ∈ (c.onboardingProgress.delete fun _ => true).rows at hr
    simp [Table.delete] at hr
  · rw [h r hold]
    have hseventh : tenantMigrationIds[6] = "0007_onboarding_progress_per_user" := rfl
    have hid : tenantMigrationIds[n] ≠ "0007_onboarding_progress_per_user" := fun heq =>
      h7 ((nodup_tenantMigrationIds.getElem_inj_iff).mp (heq.trans hseventh.symm))
    exact decide_eq_decide.mpr (mem_alterIndexes_user c.uniqueIndexes hid).symm

/-- A migration takes effect. -/
theorem Sound.migrate (h : w.Sound n) (hn : n < tenantMigrationIds.length)
    (hclear : w.schema.content.Clear tenantMigrationIds[n]) (runs : List (List String))
    (hruns : ∀ run ∈ runs, ∃ m ≤ n + 1, run = tenantMigrationIds.drop m) :
    Sound ⟨migrate w.schema tenantMigrationIds[n], runs⟩ (n + 1) where
  recorded := by
    rw [LiveSchema.migrate, h.recorded, List.take_append_getElem hn]
  indexes := by
    rw [← List.take_append_getElem hn, Content.indexesAfter, List.foldl_append]
    exact congrArg (Content.alterIndexes · _) h.indexes
  satisfied := Content.satisfies_migrated h.satisfied hclear
  noNil r hr :=
    h.noNil r ((Content.fewer_migrated _ _).syllabusDistribution.subset hr)
  users := usersKnown_migrated hn h.indexes h.users
  runs := hruns

/-- What the next migration of a run does to the schema, and to the runs. -/
theorem Sound.step_next (h : w.Sound n) {k : ℕ} {finish : TransactionEnd}
    (hs : w.step (.next k finish) = some w') :
    ∃ id ids, w.runs[k]? = some (id :: ids) ∧
      (w.TakesEffect id finish ∧ w'.schema = LiveSchema.migrate w.schema id ∧
          (w'.runs = w.runs.set k ids ∨ w'.runs = w.runs.eraseIdx k) ∨
        ¬w.TakesEffect id finish ∧ w' = { w with runs := w.runs.eraseIdx k }) := by
  simp only [LiveSchema.step] at hs
  split at hs
  · rename_i id ids hrun
    refine ⟨id, ids, hrun, ?_⟩
    rw [h.applyMigration_eq (List.mem_of_getElem? hrun)] at hs
    by_cases hcond : w.TakesEffect id finish
    · refine .inl ⟨hcond, ?_⟩
      rw [if_pos hcond] at hs
      cases hgoes : finish == .commits <;> simp only [hgoes, Option.some.injEq] at hs <;> subst hs
      · exact ⟨rfl, .inr rfl⟩
      · exact ⟨rfl, .inl rfl⟩
    · refine .inr ⟨hcond, ?_⟩
      rw [if_neg hcond] at hs
      cases hs
      rfl
  · cases hs

/-- The runs after one of them has gone on or ended. -/
theorem Sound.runs_next (h : w.Sound n) {k : ℕ} {id : String} {ids : List String}
    {runs : List (List String)} (hrun : w.runs[k]? = some (id :: ids))
    (hruns : runs = w.runs.set k ids ∨ runs = w.runs.eraseIdx k) :
    ∀ run ∈ runs, ∃ m ≤ n + 1, run = tenantMigrationIds.drop m := by
  have hold : ∀ run ∈ w.runs, ∃ m ≤ n + 1, run = tenantMigrationIds.drop m := by
    intro run hmem
    obtain ⟨m, hm, hdrop⟩ := h.runs run hmem
    exact ⟨m, by omega, hdrop⟩
  intro run hmem
  rcases hruns with rfl | rfl
  · rcases List.mem_or_eq_of_mem_set hmem with hmem | rfl
    · exact hold run hmem
    · obtain ⟨m, hm, hdrop⟩ := h.runs _ (List.mem_of_getElem? hrun)
      refine ⟨m + 1, by omega, ?_⟩
      rw [← List.drop_drop, ← hdrop]
      rfl
  · exact hold run (List.mem_of_mem_eraseIdx hmem)

/-- **Step lemma.** -/
theorem Sound.step (h : w.Sound n) {a : LiveAction} (hs : w.step a = some w') :
    ∃ n', w'.Sound n' := by
  cases a with
  | write content =>
    simp only [LiveSchema.step, Option.ite_none_right_eq_some, Option.some.injEq] at hs
    obtain ⟨haccepts, rfl⟩ := hs
    exact ⟨n, h.write haccepts⟩
  | start =>
    cases hs
    exact ⟨n, h.start⟩
  | next k finish =>
    obtain ⟨id, ids, hrun, ⟨heffect, hschema, hruns⟩ | ⟨-, rfl⟩⟩ := h.step_next hs
    · obtain ⟨hn, rfl, -⟩ :=
        (h.next_of_run (List.mem_of_getElem? hrun)).resolve_left heffect.2.1
      have hsound := h.migrate hn heffect.2.2 w'.runs (h.runs_next hrun hruns)
      rw [← hschema] at hsound
      exact ⟨n + 1, hsound⟩
    · exact ⟨n, h.stop k⟩
  | stop k =>
    cases hs
    exact ⟨n, h.stop k⟩

/-- The migrations of the dismissals have been recorded when one of them has a user. -/
theorem Sound.recorded_of_user (h : w.Sound n) {r : OnboardingRow}
    (hr : r ∈ w.schema.content.onboardingProgress.rows) (huser : r.userId ≠ none) :
    "0004_tenant_integrity_constraints" ∈ w.schema.recorded ∧
      "0007_onboarding_progress_per_user" ∈ w.schema.recorded := by
  have hindex : .onboardingProgressUser ∈ Content.indexesAfter (tenantMigrationIds.take n) := by
    rw [← h.indexes]
    exact of_decide_eq_true ((h.users r hr).symm.trans (Option.isSome_iff_ne_none.mpr huser))
  have hearly : ∀ m ≤ 6, .onboardingProgressUser ∉
      Content.indexesAfter (tenantMigrationIds.take m) := by decide
  have hn : 7 ≤ n := by
    by_contra hlt
    exact hearly n (by omega) hindex
  rw [h.recorded]
  exact ⟨List.mem_take_iff_getElem.mpr ⟨3, by simp [tenantMigrationIds]; omega, rfl⟩,
    List.mem_take_iff_getElem.mpr ⟨6, by simp [tenantMigrationIds]; omega, rfl⟩⟩

/-- A content before its migrations. -/
structure Before (content : Content) : Prop where
  indexes : content.uniqueIndexes = [.syllabusTemplateWeekTopicSubtopic]
  satisfied : content.Satisfies .syllabusTemplateWeekTopicSubtopic
  noNil : content.NoNilTemplate
  users : content.UsersKnown

/-- **Run lemma.** -/
theorem sound_of_reaches {content : Content} (hbefore : Before content)
    (hreach : Reaches step (fun _ _ => True) (unmigrated content) w) : ∃ n, w.Sound n := by
  have hstep (w : LiveSchema) (a : LiveAction) (w' : LiveSchema) (h : ∃ n, w.Sound n) (_ : True)
      (hs : w.step a = some w') : ∃ n, w'.Sound n := by
    obtain ⟨n, h⟩ := h
    exact h.step hs
  refine hreach.invariant ?_ hstep
  exact ⟨0, {
    recorded := rfl
    indexes := hbefore.indexes
    satisfied := by
      intro index hindex
      change index ∈ content.uniqueIndexes at hindex
      rw [hbefore.indexes] at hindex
      rw [List.mem_singleton.mp hindex]
      exact hbefore.satisfied
    noNil := hbefore.noNil
    users := hbefore.users
    runs := fun run hrun => nomatch hrun }⟩

end LiveSchema

/-- What a migration leaves of the rows. -/
structure Spares (id : String) (c c' : Content) : Prop where
  /-- Nothing planned or generated is deleted. -/
  untouched : c'.syllabus = c.syllabus ∧ c'.cycleWeeks = c.cycleWeeks ∧ c'.materials = c.materials ∧
    c'.pdfDesignTemplates = c.pdfDesignTemplates
  /-- The first dismissal of the institution is kept, until the dismissals become those of users. -/
  onboardingProgress : ∀ r, r ∈ c'.onboardingProgress.rows ↔ r ∈ c.onboardingProgress.rows ∧
    (id = "0004_tenant_integrity_constraints" →
      ∀ s ∈ c.onboardingProgress.rows, r.age ≤ s.age) ∧
    id ≠ "0007_onboarding_progress_per_user"
  /-- The first use of a question is kept. -/
  materialQuestionUsage : ∀ r, r ∈ c'.materialQuestionUsage.rows ↔
    r ∈ c.materialQuestionUsage.rows ∧
    (id = "0009_material_question_usage_natural_key" →
      ∀ s ∈ c.materialQuestionUsage.rows, s.SameUse r → r.age ≤ s.age)
  /-- The first distribution of a cell is kept. -/
  syllabusDistribution : ∀ r, r ∈ c'.syllabusDistribution.rows ↔
    r ∈ c.syllabusDistribution.rows ∧
    (id = "0011_syllabus_distribution_null_safe_unique" →
      ∀ s ∈ c.syllabusDistribution.rows, s.SameCell r → r.age ≤ s.age)

/-- The natural key of a use. -/
theorem QuestionUsageRow.naturalKey_eq_iff (r s : QuestionUsageRow) :
    r.naturalKey = s.naturalKey ↔ r.SameUse s := by
  simp [naturalKey, SameUse]

/-- As no template has the nil identifier, the key of a cell tells it from the others. -/
theorem DistributionRow.nullSafeKey_eq_iff {r s : DistributionRow}
    (hr : r.templateId ≠ some nilUuid) (hs : s.templateId ≠ some nilUuid) :
    r.nullSafeKey = s.nullSafeKey ↔ r.SameCell s := by
  have htemplate : r.templateId.getD nilUuid = s.templateId.getD nilUuid ↔
      r.templateId = s.templateId := by
    cases hrt : r.templateId <;> cases hst : s.templateId <;> simp_all [eq_comm]
  simp [nullSafeKey, SameCell, htemplate]

/-- A migration spares the rows. -/
theorem spares_migrated {c : Content} (hnoNil : c.NoNilTemplate) (id : String) :
    Spares id c (c.migrated id) where
  untouched := ⟨rfl, rfl, rfl, rfl⟩
  onboardingProgress r := by
    by_cases h4 : id = "0004_tenant_integrity_constraints"
    · simp [Content.migrated, h4, Table.mem_keepFirst Content.id_of_onboardingAge]
    · by_cases h7 : id = "0007_onboarding_progress_per_user"
      · simp [Content.migrated, h7, Table.delete]
      · simp [Content.migrated, h4, h7]
  materialQuestionUsage r := by
    by_cases h9 : id = "0009_material_question_usage_natural_key"
    · simp [Content.migrated, h9, Table.mem_collapse Content.id_of_usageAge,
        QuestionUsageRow.naturalKey_eq_iff]
    · simp [Content.migrated, h9]
  syllabusDistribution r := by
    by_cases h11 : id = "0011_syllabus_distribution_null_safe_unique"
    · have hkey {s : DistributionRow} (hr : r ∈ c.syllabusDistribution.rows)
          (hs : s ∈ c.syllabusDistribution.rows) :
          s.nullSafeKey = r.nullSafeKey ↔ s.SameCell r :=
        DistributionRow.nullSafeKey_eq_iff (hnoNil s hs) (hnoNil r hr)
      simp only [Content.migrated, h11, if_true, Table.mem_collapse Content.id_of_distributionAge,
        forall_const]
      constructor
      · rintro ⟨hr, hleast⟩
        exact ⟨hr, fun s hs hsame => hleast s hs ((hkey hr hs).mpr hsame)⟩
      · rintro ⟨hr, hleast⟩
        exact ⟨hr, fun s hs hsame => hleast s hs ((hkey hr hs).mp hsame)⟩
    · simp [Content.migrated, h11]

open LiveSchema in
/-- **Migrating a schema in use:** however the transactions of the application and the migrations of
any runs interleave, and wherever runs fail, the unique indexes of a schema are at any time those of
its recorded migrations, and its rows satisfy them. A migration is rolled back with its record, or
it is recorded for the first time and deletes exactly the rows that the uniqueness it introduces
does not allow, the earliest one of each key being kept. No dismissal of a user is ever deleted. -/
theorem migrating_live_schema {content : Content} (hbefore : Before content) {w : LiveSchema}
    (hreach : Reaches step (fun _ _ => True) (unmigrated content) w) :
    w.schema.recorded <+: tenantMigrationIds ∧
    w.schema.content.uniqueIndexes = Content.indexesAfter w.schema.recorded ∧
    (∀ index ∈ w.schema.content.uniqueIndexes, w.schema.content.Satisfies index) ∧
    ∀ k finish w', w.step (.next k finish) = some w' →
      w'.schema = w.schema ∨
      ∃ id, id ∉ w.schema.recorded ∧ w'.schema.recorded = w.schema.recorded ++ [id] ∧
        Spares id w.schema.content w'.schema.content ∧
        ∀ r ∈ w.schema.content.onboardingProgress.rows, r.userId ≠ none →
          r ∈ w'.schema.content.onboardingProgress.rows := by
  obtain ⟨n, h⟩ := sound_of_reaches hbefore hreach
  refine ⟨h.recorded ▸ List.take_prefix n _, h.recorded ▸ h.indexes, h.satisfied, ?_⟩
  intro k finish w' hs
  obtain ⟨id, ids, -, ⟨heffect, hschema, -⟩ | ⟨-, rfl⟩⟩ := h.step_next hs
  · have hspares := spares_migrated h.noNil id
    refine .inr ⟨id, heffect.2.1, ?_, ?_, fun r hr huser => ?_⟩ <;> rw [hschema]
    · rfl
    · exact hspares
    · obtain ⟨h4, h7⟩ := h.recorded_of_user hr huser
      exact (hspares.onboardingProgress r).mpr ⟨hr, fun hid => absurd (hid ▸ h4) heffect.2.1,
        fun hid => heffect.2.1 (hid ▸ h7)⟩
  · exact .inl rfl

namespace LiveSchema

variable {w w' : LiveSchema} {n : ℕ}

/-- A run that is not disturbed applies what it has left, when no rows stand in its way. -/
theorem applyPending_succeeds_iff {s : SchemaState Content} {applied : List String}
    (h : Sound ⟨s, [tenantMigrationIds.drop n]⟩ n)
    (hpending : ∀ id ∈ tenantMigrationIds.drop n, id ∉ applied) :
    (applyPending integrityDdl applied (fun _ => .commits) (tenantMigrationIds.drop n) s).2 = true ↔
      ∀ id ∈ tenantMigrationIds.drop n, s.content.Clear id := by
  induction hleft : tenantMigrationIds.length - n generalizing n s with
  | zero =>
    rw [List.drop_eq_nil_of_le (by omega)]
    simp [applyPending]
  | succ k ih =>
    have hn : n < tenantMigrationIds.length := by omega
    have hstep := h.applyMigration_eq (List.mem_singleton.mpr (List.drop_eq_getElem_cons hn).symm)
      .commits
    have hnew : tenantMigrationIds[n] ∉ s.recorded := fun hmem =>
      List.disjoint_take_drop nodup_tenantMigrationIds (Nat.le_refl n) (h.recorded ▸ hmem)
        (List.drop_eq_getElem_cons hn ▸ List.mem_cons_self ..)
    rw [List.drop_eq_getElem_cons hn] at hpending ⊢
    rw [applyPending, if_neg (hpending _ (List.mem_cons_self ..)), hstep, List.forall_mem_cons]
    by_cases hclear : s.content.Clear tenantMigrationIds[n]
    · have heffect : TakesEffect ⟨s, [tenantMigrationIds.drop n]⟩ tenantMigrationIds[n] .commits :=
        ⟨by decide, hnew, hclear⟩
      have hsound := h.migrate hn hclear [tenantMigrationIds.drop (n + 1)] fun run hrun =>
        ⟨n + 1, le_rfl, List.mem_singleton.mp hrun⟩
      rw [if_pos heffect]
      have hrest := ih hsound (fun id hid => hpending id (List.mem_cons_of_mem _ hid)) (by omega)
      exact hrest.trans ⟨fun hrest => ⟨hclear, hrest⟩, fun hall => hall.2⟩
    · rw [if_neg fun heffect => hclear heffect.2.2]
      simp [hclear]

/-- A run of migrations, when nothing else happens, is one of the system. -/
theorem reaches_applyPending {applied pending : List String} {runs : List (List String)}
    (hruns : w.runs = runs ++ [pending]) (hpending : ∀ id ∈ pending, id ∉ applied)
    (transaction : String → TransactionEnd) :
    ∃ w', Reaches step (fun _ _ => True) w w' ∧
      w'.schema = (applyPending integrityDdl applied transaction pending w.schema).1 := by
  induction pending generalizing w with
  | nil => exact ⟨w, .refl, rfl⟩
  | cons id pending ih =>
    have hrun : w.runs[runs.length]? = some (id :: pending) := by simp [hruns]
    rw [applyPending, if_neg (hpending id (List.mem_cons_self ..))]
    cases happly : applyMigration integrityDdl id (transaction id) w.schema with
    | mk schema goesOn =>
      cases goesOn with
      | false =>
        refine ⟨⟨schema, w.runs.eraseIdx runs.length⟩, .single ⟨.next runs.length (transaction id),
          trivial, ?_⟩, rfl⟩
        simp [step, hrun, happly]
      | true =>
        have hstep : w.step (.next runs.length (transaction id)) =
            some ⟨schema, w.runs.set runs.length pending⟩ := by simp [step, hrun, happly]
        obtain ⟨w', hreach, hschema⟩ :=
          ih (w := ⟨schema, w.runs.set runs.length pending⟩) (by simp [hruns])
            fun id' hid' => hpending id' (List.mem_cons_of_mem _ hid')
        exact ⟨w', .head ⟨_, trivial, hstep⟩ hreach, hschema⟩

/-- The loop over the migrations of a run that has read the records. -/
theorem Sound.applyPending_all (h : w.Sound n) (transaction : String → TransactionEnd)
    (s : SchemaState Content) :
    applyPending integrityDdl w.schema.recorded transaction tenantMigrationIds s =
      applyPending integrityDdl w.schema.recorded transaction (tenantMigrationIds.drop n) s := by
  have hskip : ∀ id ∈ tenantMigrationIds.take n, id ∈ w.schema.recorded := fun id hid =>
    h.recorded ▸ hid
  conv_lhs => rw [← List.take_append_drop n tenantMigrationIds]
  exact applyPending_append hskip

/-- What is left has not been recorded. -/
theorem Sound.notMem_recorded (h : w.Sound n) :
    ∀ id ∈ tenantMigrationIds.drop n, id ∉ w.schema.recorded := by
  intro id hid hmem
  rw [h.recorded] at hmem
  exact List.disjoint_take_drop nodup_tenantMigrationIds (Nat.le_refl n) hmem hid

/-- What `runMigrations` leaves is a state of the system. -/
theorem Sound.reaches_runMigrations (h : w.Sound n) (faults : RunFaults) :
    ∃ w', Reaches LiveSchema.step (fun _ _ => True) w w' ∧
      w'.schema = (runMigrations integrityDdl faults w.schema).1 := by
  have hstart : Reaches LiveSchema.step (fun _ _ => True) w
      ⟨{ w.schema with markerTable := true }, w.runs ++ [tenantMigrationIds.drop n]⟩ := by
    refine .single ⟨.start, trivial, ?_⟩
    rw [← filter_notMem_take n, ← h.recorded]
    rfl
  unfold runMigrations runMigrationList
  split_ifs
  · exact ⟨w, .refl, rfl⟩
  · exact ⟨_, hstart, rfl⟩
  · rw [h.applyPending_all]
    obtain ⟨w', hreach, hschema⟩ := reaches_applyPending (w := ⟨_, _⟩) rfl h.notMem_recorded
      faults.transaction
    exact ⟨w', hstart.trans hreach, hschema⟩

/-- A run without faults that is not disturbed. -/
def undisturbed : RunFaults := ⟨false, false, fun _ => .commits⟩

end LiveSchema

/-- A content with duplicates in the ledger and in the distributions, and with two dismissals. -/
def duplicated : Content where
  syllabus := Table.empty.insert ⟨4, 1, 3, true⟩
  cycleWeeks := .empty
  materials := .empty
  pdfDesignTemplates := .empty
  onboardingProgress := (Table.empty.insert ⟨1, 90, none⟩).insert ⟨2, 80, none⟩
  materialQuestionUsage := (Table.empty.insert ⟨1, 7, 3, 5, 20⟩).insert ⟨2, 7, 3, 5, 10⟩
  syllabusDistribution :=
    (Table.empty.insert ⟨1, 4, none, 1, 2, 3, 40⟩).insert ⟨2, 4, none, 1, 2, 3, 40⟩
  uniqueIndexes := [.syllabusTemplateWeekTopicSubtopic]

/-- Nothing is wrong with it yet. -/
theorem before_duplicated : LiveSchema.Before duplicated where
  indexes := rfl
  satisfied := by decide
  noNil := by decide
  users := by decide

/-- A run fails at the fourth migration. -/
def failedRun : List LiveAction :=
  [.start, .next 0 .commits, .next 0 .commits, .next 0 .commits, .next 0 .rollsBack]

/-- Another one goes on up to the eleventh. -/
def resumedRun : List LiveAction :=
  failedRun ++ [.start, .next 0 .commits, .next 0 .commits, .next 0 .commits, .next 0 .commits,
    .next 0 .commits, .next 0 .commits, .next 0 .commits, .next 0 .commits]

open LiveSchema in
/-- The earlier use is kept, and of the distributions that are equally old the one that comes
first. -/
theorem migrating_live_schema_resumed :
    let content := (after step (unmigrated duplicated) resumedRun).schema.content
    content.materialQuestionUsage.rows.map (·.id) = [2] ∧
    content.syllabusDistribution.rows.map (·.id) = [1] ∧
    content.onboardingProgress.rows = [] ∧
    ∀ index ∈ content.uniqueIndexes, content.Satisfies index :=
  ⟨by decide +kernel, by decide +kernel, by decide +kernel,
    (migrating_live_schema before_duplicated
      (reaches_after (by decide +kernel) fun _ _ _ => trivial)).2.2.1⟩

open LiveSchema in
/-- **When a schema can be migrated:** in every state that is reached, what a run of
`runMigrations` leaves, wherever it fails, is again such a state; and a run that nothing disturbs
succeeds exactly when no two active syllabuses share their cycle and course, no two live weeks their
cycle and number, no two materials their profile and week and no tenant has two default designs, as
far as the indexes against it are still to come. The duplicates in the ledger and in the
distributions never stop it. -/
theorem runMigrations_live_schema {content : Content} (hbefore : Before content) {w : LiveSchema}
    (hreach : Reaches step (fun _ _ => True) (unmigrated content) w) :
    (∀ faults, ∃ w', Reaches step (fun _ _ => True) (unmigrated content) w' ∧
      w'.schema = (runMigrations integrityDdl faults w.schema).1) ∧
    ((runMigrations integrityDdl undisturbed w.schema).2 = true ↔
      ("0004_tenant_integrity_constraints" ∉ w.schema.recorded →
        UniqueOn SyllabusRow.activeKey w.schema.content.syllabus.rows ∧
        UniqueOn CycleWeekRow.liveKey w.schema.content.cycleWeeks.rows) ∧
      ("0006_material_and_default_design_uniqueness" ∉ w.schema.recorded →
        UniqueOn MaterialRow.weekKey w.schema.content.materials.rows ∧
        UniqueOn PdfDesignRow.defaultKey w.schema.content.pdfDesignTemplates.rows)) := by
  obtain ⟨n, h⟩ := sound_of_reaches hbefore hreach
  refine ⟨fun faults => ?_, ?_⟩
  · obtain ⟨w', hreach', hschema⟩ := h.reaches_runMigrations faults
    exact ⟨w', hreach.trans hreach', hschema⟩
  · have halone : Sound ⟨{ w.schema with markerTable := true }, [tenantMigrationIds.drop n]⟩ n :=
      { recorded := h.recorded
        indexes := h.indexes
        satisfied := h.satisfied
        noNil := h.noNil
        users := h.users
        runs := fun run hrun => ⟨n, le_rfl, List.mem_singleton.mp hrun⟩ }
    have hrun : (runMigrations integrityDdl undisturbed w.schema).2 = true ↔
        ∀ id ∈ tenantMigrationIds.drop n, w.schema.content.Clear id := by
      rw [← applyPending_succeeds_iff halone h.notMem_recorded, ← h.applyPending_all]
      rfl
    have hleft {id : String} (hid : id ∈ tenantMigrationIds) :
        id ∈ tenantMigrationIds.drop n ↔ id ∉ w.schema.recorded := by
      refine ⟨h.notMem_recorded id, fun hnew => ?_⟩
      rw [← List.take_append_drop n tenantMigrationIds, List.mem_append, ← h.recorded] at hid
      exact hid.resolve_left hnew
    rw [hrun]
    constructor
    · intro hclear
      exact ⟨fun h4 => (hclear _ ((hleft (by decide)).mpr h4)).1 rfl,
        fun h6 => (hclear _ ((hleft (by decide)).mpr h6)).2 rfl⟩
    · rintro ⟨hfourth, hsixth⟩ id hid
      have hnew := (hleft (List.mem_of_mem_drop hid)).mp hid
      exact ⟨fun h4 => hfourth (h4 ▸ hnew), fun h6 => hsixth (h6 ▸ hnew)⟩

/-- The same content with two active syllabuses of one cycle and course. -/
def crowded : Content :=
  { duplicated with syllabus := (Table.empty.insert ⟨4, 1, 3, true⟩).insert ⟨5, 1, 3, true⟩ }

/-- Nothing is wrong with it yet. -/
theorem before_crowded : LiveSchema.Before crowded where
  indexes := rfl
  satisfied := by decide
  noNil := by decide
  users := by decide

open LiveSchema in
/-- Before the fourth migration, the duplicates in the ledger and in the distributions do not stop
the next run, and two active syllabuses of one course do. -/
theorem runMigrations_live_schema_resumed :
    (runMigrations integrityDdl undisturbed
      (after step (unmigrated duplicated) failedRun).schema).2 = true ∧
    ¬ (runMigrations integrityDdl undisturbed
      (after step (unmigrated crowded) failedRun).schema).2 = true := by
  constructor
  · refine (runMigrations_live_schema before_duplicated
      (reaches_after (by decide +kernel) fun _ _ _ => trivial)).2.mpr ⟨fun _ => ?_, fun _ => ?_⟩
    · decide +kernel
    · decide +kernel
  · intro hsucceeds
    have hclear := (runMigrations_live_schema before_crowded
      (reaches_after (by decide +kernel) fun _ _ _ => trivial)).2.mp hsucceeds
    exact absurd (hclear.1 (by decide +kernel)).1 (by decide +kernel)

end Odiseo.Tenancy
