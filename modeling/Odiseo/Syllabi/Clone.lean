import Odiseo.Syllabi.Distributions

/-!
# What a clone leaves

A clone of a syllabus that is not refused has deleted the cells of the target and inserted the copied
ones. This file says so for a whole transaction, so that no later argument runs its statements again.
-/

namespace Odiseo.Syllabi

open Database

/-- The templates of a cycle. -/
def Db.templatesOf (db : Db) (cycleId : Uuid) : List CycleMaterialTemplate :=
  db.templates.filter (·.cycleId == cycleId)

/-- The cells of a syllabus. -/
def Db.cellsOf (db : Db) (syllabusId : Uuid) : List SyllabusDistribution :=
  db.distributions.filter (·.syllabusId == syllabusId)

/-- The numbers of the active weeks of a cycle. -/
def Db.activeWeeks (db : Db) (cycleId : Uuid) : List ℕ :=
  ((db.weeksOf cycleId).filter (·.isActive)).map (·.weekNumber)

/-- What `buildTemplateMapping` answers on a database. -/
def Db.templateMapping (db : Db) (normalize : String → String) (source target : Syllabus) :
    Except AcademicError (List (Uuid × Option Uuid)) :=
  let ids := referencedTemplateIds source (db.cellsOf source.id)
  if source.cycleId = target.cycleId then .ok []
  else if ids.isEmpty then .ok []
  else if (db.templatesOf target.cycleId).isEmpty then .ok (ids.map fun id => (id, none))
  else
    matchTemplates normalize (db.templatesOf source.cycleId) (db.templatesOf target.cycleId) ids

/-- The cells that a clone inserts. -/
def Db.clonedRows (db : Db) (source target : Syllabus) (templateMap : List (Uuid × Option Uuid))
    (activeWeeks : List ℕ) (rowIds : ℕ → Uuid) : List SyllabusDistribution :=
  distributionsToCreate source target templateMap activeWeeks rowIds (db.cellsOf source.id)

variable {normalize : String → String} {db db' : Db}

/-- The mapping of the templates is a query. -/
theorem run_buildTemplateMapping (normalize : String → String) (source target : Syllabus) (db : Db) :
    (buildTemplateMapping normalize source target (db.cellsOf source.id)).run db =
      match db.templateMapping normalize source target with
      | .error e => .error e
      | .ok templateMap => .ok (templateMap, db, []) := by
  unfold buildTemplateMapping Db.templateMapping
  dsimp only
  split
  · rfl
  · split
    · rfl
    · have hget : ∀ cycleId, getTemplates cycleId = Program.select fun v => v.templatesOf cycleId :=
        fun _ => rfl
      simp only [hget, Program.bind_eq, Program.run_select_bind]
      split
      · rfl
      · cases matchTemplates normalize (db.templatesOf source.cycleId)
          (db.templatesOf target.cycleId) (referencedTemplateIds source (db.cellsOf source.id)) <;>
          rfl

section Inserting

/-- The database takes some new distributions: neither their keys nor their cells are taken, and
they have their syllabi. -/
structure Accepts (db : Db) (rows : List SyllabusDistribution) : Prop where
  ids : (rows.map (·.id)).Nodup
  cells : rows.Pairwise fun d e => sameCell d e = false
  free : ∀ d ∈ rows, distributionTaken d db = false

/-- A cell is that of a row exactly when the row is of the cell. -/
theorem sameCell_comm (d e : SyllabusDistribution) : sameCell d e = sameCell e d := by
  unfold sameCell
  simp only [Bool.beq_comm]

/-- The rows after a distribution with a free key has been inserted. -/
theorem rows_insertDistributionIn {dist : SyllabusDistribution}
    (hfree : distributionTaken dist db = false) :
    (insertDistributionIn dist db).distributions.rows = db.distributions.rows ++ [dist] := by
  unfold distributionTaken at hfree
  rw [Bool.or_eq_false_iff, Bool.or_eq_false_iff, Option.isSome_eq_false_iff] at hfree
  have hkey : key dist ∉ db.distributions.rows.map key := by
    intro hmem
    obtain ⟨d, hd, hid⟩ := List.mem_map.mp hmem
    exact Table.find_eq_none.mp (Option.isNone_iff_eq_none.mp hfree.1.1) d hd hid
  unfold insertDistributionIn Table.insert
  rw [dif_neg hkey]

/-- A second distribution is taken by what was there, or by the first one. -/
theorem distributionTaken_insert {d e : SyllabusDistribution}
    (hfree : distributionTaken d db = false) :
    distributionTaken e (insertDistributionIn d db) =
      (distributionTaken e db || d.id == e.id || sameCell e d) := by
  have hrows := rows_insertDistributionIn hfree
  have hfind : ((insertDistributionIn d db).distributions.find e.id).isSome =
      ((db.distributions.find e.id).isSome || d.id == e.id) := by
    unfold Table.find
    rw [hrows, List.find?_append, Option.isSome_or]
    congr 1
    rw [List.find?_singleton]
    by_cases hid : d.id = e.id
    · have hkey : key d = e.id := hid
      simp [hkey, hid]
    · have hkey : ¬key d = e.id := hid
      simp [hkey, hid]
  unfold distributionTaken
  rw [hfind, hrows, List.any_append]
  simp only [List.any_cons, List.any_nil, Bool.or_false]
  have hsyllabuses : (insertDistributionIn d db).syllabuses = db.syllabuses := rfl
  rw [hsyllabuses]
  cases (db.distributions.find e.id).isSome <;> cases d.id == e.id <;>
    cases db.distributions.rows.any (sameCell e) <;> cases sameCell e d <;>
    cases (db.syllabuses.find e.syllabusId).isNone <;> rfl

/-- The first of some distributions is inserted before the others, or refused. -/
theorem run_bulkCreateDistributions_cons (d : SyllabusDistribution)
    (rows : List SyllabusDistribution) (db : Db) :
    (bulkCreateDistributions (d :: rows)).run db =
      if distributionTaken d db then .error .queryFailed
      else (bulkCreateDistributions rows).run (insertDistributionIn d db) := by
  have hinsert : (insertDistribution d).run db =
      if distributionTaken d db then .error .queryFailed
      else .ok ((), insertDistributionIn d db, []) :=
    Program.run_attempt _ _ _ _ _
  change ((insertDistribution d).bind fun _ => bulkCreateDistributions rows).run db = _
  rw [Program.run_bind, hinsert]
  cases distributionTaken d db with
  | true => rfl
  | false =>
    simp only [Bool.false_eq_true, if_false]
    cases (bulkCreateDistributions rows).run (insertDistributionIn d db) with
    | error e => rfl
    | ok out => rfl

/-- **Inserting distributions** adds them in their order when the database takes them, and else
throws. -/
theorem run_bulkCreateDistributions (rows : List SyllabusDistribution) (db : Db) :
    (Accepts db rows ∧ ∃ db' jobs, (bulkCreateDistributions rows).run db = .ok ((), db', jobs) ∧
        db'.distributions.rows = db.distributions.rows ++ rows ∧
        db' = { db with distributions := db'.distributions }) ∨
      (¬Accepts db rows ∧ (bulkCreateDistributions rows).run db = .error .queryFailed) := by
  induction rows generalizing db with
  | nil =>
    refine Or.inl ⟨⟨List.nodup_nil, List.Pairwise.nil, fun _ hd => absurd hd List.not_mem_nil⟩,
      db, [], rfl, (List.append_nil _).symm, rfl⟩
  | cons d rows ih =>
    rw [run_bulkCreateDistributions_cons]
    cases hfree : distributionTaken d db with
    | true =>
      refine Or.inr ⟨fun haccepts => ?_, rfl⟩
      rw [haccepts.free d List.mem_cons_self] at hfree
      cases hfree
    | false =>
      have hrows := rows_insertDistributionIn hfree
      have hiff : Accepts (insertDistributionIn d db) rows ↔ Accepts db (d :: rows) := by
        constructor
        · rintro ⟨hids, hcells, hrest⟩
          have hsplit : ∀ e ∈ rows, distributionTaken e db = false ∧ d.id ≠ e.id ∧
              sameCell d e = false := by
            intro e he
            have hboth := hrest e he
            rw [distributionTaken_insert hfree, Bool.or_eq_false_iff, Bool.or_eq_false_iff] at hboth
            exact ⟨hboth.1.1, by simpa using hboth.1.2, sameCell_comm d e ▸ hboth.2⟩
          refine ⟨List.nodup_cons.mpr ⟨fun hmem => ?_, hids⟩, ?_, ?_⟩
          · obtain ⟨e, he, hid⟩ := List.mem_map.mp hmem
            exact (hsplit e he).2.1 hid.symm
          · exact List.pairwise_cons.mpr ⟨fun e he => (hsplit e he).2.2, hcells⟩
          · exact List.forall_mem_cons.mpr ⟨hfree, fun e he => (hsplit e he).1⟩
        · rintro ⟨hids, hcells, hrest⟩
          obtain ⟨hid, hids⟩ := List.nodup_cons.mp hids
          obtain ⟨hcell, hcells⟩ := List.pairwise_cons.mp hcells
          refine ⟨hids, hcells, fun e he => ?_⟩
          rw [distributionTaken_insert hfree, Bool.or_eq_false_iff, Bool.or_eq_false_iff]
          refine ⟨⟨hrest e (List.mem_cons_of_mem d he), ?_⟩, ?_⟩
          · have hne : d.id ≠ e.id := fun heq => hid (List.mem_map.mpr ⟨e, he, heq.symm⟩)
            simpa using hne
          · rw [sameCell_comm]
            exact hcell e he
      rcases ih (insertDistributionIn d db) with
        ⟨haccepts, db', jobs, hrest, happended, hothers⟩ | ⟨hrefuses, hrest⟩
      · refine Or.inl ⟨hiff.mp haccepts, db', jobs, ?_, ?_, ?_⟩
        · simp only [Bool.false_eq_true, if_false, hrest]
        · rw [happended, hrows, List.append_assoc]
          rfl
        · rw [hothers]
          rfl
      · refine Or.inr ⟨fun haccepts => hrefuses (hiff.mpr haccepts), ?_⟩
        simp only [Bool.false_eq_true, if_false, hrest]

end Inserting

section Cloning

/-- The template that a clone gives its target. -/
def defaultTemplate (source target : Syllabus) (templateMap : List (Uuid × Option Uuid)) :
    Option Uuid :=
  source.templateId.bind fun id =>
    if source.cycleId = target.cycleId then some id else (templateMap.lookup id).join

/-- The database after a clone has written the template of its target. -/
def withDefaultTemplate (source target : Syllabus) (templateMap : List (Uuid × Option Uuid))
    (db : Db) : Db :=
  match defaultTemplate source target templateMap with
  | none => db
  | some templateId => setTemplateIn target.id templateId db

/-- Writing the template of the target writes nothing else. -/
theorem withDefaultTemplate_distributions (source target : Syllabus)
    (templateMap : List (Uuid × Option Uuid)) (db : Db) :
    (withDefaultTemplate source target templateMap db).distributions = db.distributions := by
  unfold withDefaultTemplate
  split <;> rfl

/-- The template of the target is written in one statement at most. -/
theorem run_setDefaultTemplate (source target : Syllabus) (templateMap : List (Uuid × Option Uuid))
    (db : Db) : (setDefaultTemplate source target templateMap).run db =
      .ok ((), withDefaultTemplate source target templateMap db, []) := by
  have hcases : setDefaultTemplate source target templateMap =
      match defaultTemplate source target templateMap with
      | none => pure ()
      | some templateId => Program.write (fun _ => [.syllabus target.id])
          (fun _ => setTemplateIn target.id templateId) fun _ => () := rfl
  rw [hcases]
  unfold withDefaultTemplate
  cases defaultTemplate source target templateMap <;> rfl

/-- The text of the refusal of a clone for its limit. -/
def cloneLimitMessage (rows : List SyllabusDistribution) : String :=
  let numbers := String.intercalate ", " ((offendingWeeks rows).map toString)
  s!"La clonación superaría el límite de {weeklyQuestionLimit} preguntas en la(s) semana(s): {numbers}."

/-- A clone between two active syllabi, given the copied rows. -/
inductive CloneOutcome (normalize : String → String) (db : Db) (source target : Syllabus)
    (activeWeeks : List ℕ) (rowIds : ℕ → Uuid) :
    Except AcademicError (List SyllabusDistribution × Db × List Empty) → Prop
  | unmatched {e : AcademicError} (h : db.templateMapping normalize source target = .error e) :
      CloneOutcome normalize db source target activeWeeks rowIds (.error e)
  | overLimit {templateMap : List (Uuid × Option Uuid)}
      (h : db.templateMapping normalize source target = .ok templateMap)
      (hlimit : offendingWeeks (db.clonedRows source target templateMap activeWeeks rowIds) ≠ []) :
      CloneOutcome normalize db source target activeWeeks rowIds (.error (.badRequest
        (cloneLimitMessage (db.clonedRows source target templateMap activeWeeks rowIds))))
  | collision {templateMap : List (Uuid × Option Uuid)}
      (h : db.templateMapping normalize source target = .ok templateMap)
      (hlimit : offendingWeeks (db.clonedRows source target templateMap activeWeeks rowIds) = [])
      (hrefuses : ¬Accepts (clearDistributionsIn target.id db)
        (db.clonedRows source target templateMap activeWeeks rowIds)) :
      CloneOutcome normalize db source target activeWeeks rowIds (.error .queryFailed)
  | copied {templateMap : List (Uuid × Option Uuid)}
      (h : db.templateMapping normalize source target = .ok templateMap)
      (hlimit : offendingWeeks (db.clonedRows source target templateMap activeWeeks rowIds) = [])
      (haccepts : Accepts (clearDistributionsIn target.id db)
        (db.clonedRows source target templateMap activeWeeks rowIds))
      (distributions : Table Uuid SyllabusDistribution)
      (hrows : distributions.rows = db.distributions.rows.filter (!·.syllabusId == target.id) ++
        db.clonedRows source target templateMap activeWeeks rowIds) (jobs : List Empty) :
      CloneOutcome normalize db source target activeWeeks rowIds (.ok
        (distributions.filter (·.syllabusId == target.id),
          withDefaultTemplate source target templateMap { db with distributions }, jobs))

/-- **What a clone between two active syllabi does.** -/
theorem run_cloneSyllabus {syllabusId sourceSyllabusId : Uuid} {target source : Syllabus}
    (htarget : (db.syllabuses.find syllabusId).filter (·.isActive) = some target)
    (hsource : (db.syllabuses.find sourceSyllabusId).filter (·.isActive) = some source)
    (targetActiveWeeks : Option (List ℕ)) (rowIds : ℕ → Uuid) :
    CloneOutcome normalize db source target
      (targetActiveWeeks.getD (db.activeWeeks target.cycleId)) rowIds
      ((cloneSyllabus normalize syllabusId sourceSyllabusId targetActiveWeeks rowIds).run db) := by
  have hweeks : (cloneSyllabus normalize syllabusId sourceSyllabusId targetActiveWeeks rowIds).run
      db = ((buildTemplateMapping normalize source target (db.cellsOf source.id)).bind
        fun templateMap => (clearExistingDistributions target.id).bind fun _ =>
          (copyDistributions (db.clonedRows source target templateMap
            (targetActiveWeeks.getD (db.activeWeeks target.cycleId)) rowIds)).bind fun _ =>
              (setDefaultTemplate source target templateMap).bind fun _ =>
                getSummaryBySyllabus target.id).run db := by
    unfold cloneSyllabus findById
    simp only [Program.bind_eq, Program.run_select_bind, htarget, hsource]
    cases targetActiveWeeks <;> rfl
  rw [hweeks, Program.run_bind, run_buildTemplateMapping]
  cases h : db.templateMapping normalize source target with
  | error e => exact .unmatched h
  | ok templateMap =>
    have hclear : ∀ k : Tx (List SyllabusDistribution),
        ((clearExistingDistributions target.id).bind fun _ => k).run db =
          k.run (clearDistributionsIn target.id db) := fun _ => rfl
    simp only [hclear]
    generalize hrows : db.clonedRows source target templateMap
      (targetActiveWeeks.getD (db.activeWeeks target.cycleId)) rowIds = rows
    cases hlimit : offendingWeeks rows with
    | cons week weeks =>
      have hne : offendingWeeks rows ≠ [] := by
        rw [hlimit]
        exact List.cons_ne_nil week weeks
      have hthrow : copyDistributions rows =
          Program.throw (.badRequest (cloneLimitMessage rows)) := by
        unfold copyDistributions cloneLimitMessage
        rw [hlimit]
        rfl
      rw [hthrow, ← hrows]
      exact .overLimit h (hrows ▸ hne)
    | nil =>
      have hcopy : copyDistributions rows = bulkCreateDistributions rows := by
        unfold copyDistributions
        rw [hlimit]
        rfl
      rw [hcopy, Program.run_bind]
      rcases run_bulkCreateDistributions rows (clearDistributionsIn target.id db) with
        ⟨haccepts, db₁, jobs, hrun, happended, hothers⟩ | ⟨hrefuses, hrun⟩
      · rw [hrun]
        simp only [Program.run_bind, run_setDefaultTemplate]
        subst hrows
        generalize db₁.distributions = distributions at happended hothers
        subst hothers
        have hsummary : ∀ v : Db, (getSummaryBySyllabus target.id).run v =
            .ok (v.distributions.filter (·.syllabusId == target.id), v, []) := fun _ => rfl
        rw [hsummary, withDefaultTemplate_distributions]
        simp only [List.append_nil, List.nil_append]
        exact .copied h hlimit haccepts distributions happended jobs
      · rw [hrun]
        subst hrows
        exact .collision h hlimit hrefuses

/-- The rows that a clone inserts are cells of its target in the given weeks. -/
theorem syllabusId_of_mem_clonedRows {source target : Syllabus}
    {templateMap : List (Uuid × Option Uuid)} {activeWeeks : List ℕ} {rowIds : ℕ → Uuid}
    {d : SyllabusDistribution}
    (hd : d ∈ db.clonedRows source target templateMap activeWeeks rowIds) :
    d.syllabusId = target.id ∧ d.weekNumber ∈ activeWeeks := by
  unfold Db.clonedRows distributionsToCreate at hd
  obtain ⟨⟨row, i⟩, hrow, rfl⟩ := List.mem_map.mp hd
  have hmem := List.fst_mem_of_mem_zipIdx hrow
  obtain ⟨dist, -, hcopied⟩ := List.mem_filterMap.mp hmem
  split at hcopied
  · rename_i hactive
    obtain ⟨templateId, -, rfl⟩ := Option.map_eq_some_iff.mp hcopied
    exact ⟨rfl, by simpa using hactive⟩
  · cases hcopied

/-- A clone that is not refused has found both syllabi active. -/
theorem of_run_cloneSyllabus {syllabusId sourceSyllabusId : Uuid}
    {targetActiveWeeks : Option (List ℕ)} {rowIds : ℕ → Uuid} {out : List SyllabusDistribution}
    {jobs : List Empty}
    (h : (cloneSyllabus normalize syllabusId sourceSyllabusId targetActiveWeeks rowIds).run db =
      .ok (out, db', jobs)) :
    ∃ target source, (db.syllabuses.find syllabusId).filter (·.isActive) = some target ∧
      (db.syllabuses.find sourceSyllabusId).filter (·.isActive) = some source ∧
      CloneOutcome normalize db source target
        (targetActiveWeeks.getD (db.activeWeeks target.cycleId)) rowIds (.ok (out, db', jobs)) := by
  cases htarget : (db.syllabuses.find syllabusId).filter (·.isActive) with
  | none =>
    unfold cloneSyllabus findById at h
    simp only [Program.bind_eq, Program.run_select_bind, htarget] at h
    cases h
  | some target =>
    cases hsource : (db.syllabuses.find sourceSyllabusId).filter (·.isActive) with
    | none =>
      unfold cloneSyllabus findById at h
      simp only [Program.bind_eq, Program.run_select_bind, htarget, hsource] at h
      cases h
    | some source =>
      have hrun := @run_cloneSyllabus normalize db _ _ _ _ htarget hsource targetActiveWeeks rowIds
      rw [h] at hrun
      exact ⟨target, source, rfl, rfl, hrun⟩

/-- A clone keeps the syllabi apart from a template. -/
theorem mem_syllabuses_withDefaultTemplate {source target s : Syllabus}
    {templateMap : List (Uuid × Option Uuid)} (hs : s ∈ db.syllabuses.rows) :
    ∃ s' ∈ (withDefaultTemplate source target templateMap db).syllabuses.rows,
      s'.id = s.id ∧ s'.cycleId = s.cycleId := by
  unfold withDefaultTemplate
  split
  · exact ⟨s, hs, rfl, rfl⟩
  · refine ⟨_, List.mem_map.mpr ⟨s, hs, rfl⟩, ?_⟩
    split <;> exact ⟨rfl, rfl⟩

/-- A clone writes neither cycles nor weeks nor templates. -/
theorem withDefaultTemplate_calendar (source target : Syllabus)
    (templateMap : List (Uuid × Option Uuid)) (db : Db) :
    (withDefaultTemplate source target templateMap db).cycles = db.cycles ∧
      (withDefaultTemplate source target templateMap db).weeks = db.weeks ∧
      (withDefaultTemplate source target templateMap db).templates = db.templates := by
  unfold withDefaultTemplate
  split <;> exact ⟨rfl, rfl, rfl⟩

/-- The target of a clone is there with the cycle that it is found in. -/
theorem of_run_targetOf {existingTargets : List Syllabus} {targetCycleId id out : Uuid}
    {source : Syllabus} {jobs : List Empty}
    (hexisting : ∀ s ∈ existingTargets, ∃ s' ∈ db.syllabuses.rows, s'.id = s.id ∧
      s'.cycleId = targetCycleId)
    (h : (targetOf existingTargets targetCycleId source id).run db = .ok (out, db', jobs)) :
    (∃ s ∈ db'.syllabuses.rows, s.id = out ∧ s.cycleId = targetCycleId) ∧
      (db' = db ∨ ∃ s, s.cycleId = targetCycleId ∧ syllabusRefusal s db = none ∧
        db' = insertSyllabusIn s db) := by
  unfold targetOf at h
  split at h
  · rename_i existing hfind
    cases h
    have hmem := List.mem_reverse.mp (List.mem_of_find?_eq_some hfind)
    exact ⟨hexisting existing hmem, Or.inl rfl⟩
  · obtain ⟨_, db₁, _, _, hinsert, hdone, _⟩ := Program.of_run_bind h
    cases hdone
    obtain ⟨hfree, rfl⟩ := of_run_createSyllabus hinsert
    exact ⟨⟨_, (mem_insertSyllabusIn hfree).mpr (Or.inr rfl), rfl, rfl⟩,
      Or.inr ⟨_, rfl, hfree, rfl⟩⟩

/-- **Induction over the loop of a cycle's clone**: what the new syllabi of the target cycle and the
clones into its syllabi keep. -/
theorem cloneEach_induction {P : Db → Prop} {ids : CloneIds} {targetCycleId : Uuid}
    {targetActiveWeeks : List ℕ} {existingTargets sources : List Syllabus}
    (hinsert : ∀ v s, s.cycleId = targetCycleId → syllabusRefusal s v = none → P v →
      P (insertSyllabusIn s v))
    (hclone : ∀ v v' source target rowIds out jobs, target ∈ v.syllabuses.rows →
      target.cycleId = targetCycleId → P v →
      CloneOutcome normalize v source target targetActiveWeeks rowIds (.ok (out, v', jobs)) → P v')
    (hexisting : ∀ s ∈ existingTargets, ∃ s' ∈ db.syllabuses.rows, s'.id = s.id ∧
      s'.cycleId = targetCycleId) (hdb : P db) {i : ℕ} {jobs : List Empty}
    (h : (cloneEach normalize ids targetCycleId targetActiveWeeks existingTargets i sources).run
      db = .ok ((), db', jobs)) : P db' := by
  induction sources generalizing db i jobs with
  | nil =>
    cases h
    exact hdb
  | cons source sources ih =>
    obtain ⟨targetSyllabusId, db₁, _, _, htarget, h₁, -⟩ := Program.of_run_bind h
    obtain ⟨out, db₂, _, _, hrun, h₂, -⟩ := Program.of_run_bind h₁
    obtain ⟨⟨s, hs, hid, hcycle⟩, hdb₁⟩ := of_run_targetOf hexisting htarget
    obtain ⟨target, source', hfound, -, houtcome⟩ := of_run_cloneSyllabus hrun
    obtain ⟨hfind, -⟩ := Option.filter_eq_some_iff.mp hfound
    have hsame : target = s := by
      have hown := Table.find_of_mem hs
      change db₁.syllabuses.find s.id = some s at hown
      rw [hid, hfind] at hown
      exact Option.some.inj hown
    subst hsame
    have hfirst : P db₁ := by
      rcases hdb₁ with rfl | ⟨s, hcycle, hfree, rfl⟩
      · exact hdb
      · exact hinsert db s hcycle hfree hdb
    have hsecond := hclone db₁ db₂ source' target _ out _ hs hcycle hfirst houtcome
    refine ih (fun s hs => ?_) hsecond h₂
    obtain ⟨s₀, hs₀, hid₀, hcycle₀⟩ := hexisting s hs
    have hs₁ : s₀ ∈ db₁.syllabuses.rows := by
      rcases hdb₁ with rfl | ⟨s, -, hfree, rfl⟩
      · exact hs₀
      · exact (mem_insertSyllabusIn hfree).mpr (Or.inl hs₀)
    cases houtcome with
    | copied hmap hlimit haccepts distributions hrows jobs =>
      obtain ⟨s₂, hs₂, hid₂, hcycle₂⟩ :=
        @mem_syllabuses_withDefaultTemplate { db₁ with distributions } source' target s₀ _ hs₁
      exact ⟨s₂, hs₂, hid₂.trans hid₀, hcycle₂.trans hcycle₀⟩

/-- The clone of a cycle clones into its syllabi, in the weeks that are active at the start. -/
theorem of_run_cloneCycleSyllabuses {targetCycleId sourceCycleId : Uuid} {ids : CloneIds} {out : ℕ}
    {jobs : List Empty} (h : (cloneCycleSyllabuses normalize targetCycleId sourceCycleId ids).run
      db = .ok (out, db', jobs)) :
    ∃ sources more, (cloneEach normalize ids targetCycleId (db.activeWeeks targetCycleId)
      (db.syllabuses.filter (·.cycleId == targetCycleId)) 0 sources).run db =
        .ok ((), db', more) := by
  unfold cloneCycleSyllabuses findByCycle getActiveWeekNumbers at h
  simp only [Program.bind_eq, Program.run_select_bind] at h
  split at h
  · cases h
  · simp only [Program.run_select_bind] at h
    obtain ⟨_, _, _, more, heach, hdone, _⟩ := Program.of_run_bind h
    cases hdone
    exact ⟨_, _, heach⟩

/-- What clones keep, the clone of a cycle keeps. -/
theorem cloneCycle_induction {P : Db → Prop} {targetCycleId sourceCycleId : Uuid} {ids : CloneIds}
    (hinsert : ∀ v s, s.cycleId = targetCycleId → syllabusRefusal s v = none → P v →
      P (insertSyllabusIn s v))
    (hclone : ∀ v v' source target rowIds out jobs, target ∈ v.syllabuses.rows →
      target.cycleId = targetCycleId → P v →
      CloneOutcome normalize v source target (db.activeWeeks targetCycleId) rowIds
        (.ok (out, v', jobs)) → P v')
    (hdb : P db) {out : ℕ} {jobs : List Empty}
    (h : (cloneCycleSyllabuses normalize targetCycleId sourceCycleId ids).run db =
      .ok (out, db', jobs)) : P db' := by
  obtain ⟨sources, more, heach⟩ := of_run_cloneCycleSyllabuses h
  refine cloneEach_induction hinsert hclone (fun s hs => ?_) hdb heach
  obtain ⟨hrow, hcycle⟩ := List.mem_filter.mp hs
  exact ⟨s, hrow, rfl, beq_iff_eq.mp hcycle⟩

end Cloning

section Cells

/-- A statement that touches no cell. -/
def KeepsCells (v : Db) (_ : List Row) (change : Db → Db) : Prop :=
  (change v).distributions = v.distributions

/-- What touches no cell keeps them. -/
theorem distributions_of_run {α : Type} {p : Tx α} (hp : p.Writes KeepsCells) {a : α}
    {jobs : List Empty} (h : p.run db = .ok (a, db', jobs)) :
    db'.distributions = db.distributions := by
  have hkeeps : p.Writes fun v _ change => v.distributions = db.distributions →
      (change v).distributions = db.distributions :=
    hp.mono fun _ _ _ hchange hv => hchange.trans hv
  exact hkeeps.of_run (P := fun v => v.distributions = db.distributions) rfl h

/-- The creation of a syllabus touches no cell. -/
theorem keepsCells_create (dto : CreateSyllabus) (id : Uuid) :
    (create dto id).Writes KeepsCells := by
  have hselect : ∀ {α : Type} (f : Db → α), (Program.select f : Tx α).Writes KeepsCells :=
    fun f => Program.writes_select (fun _ => rfl) f
  refine (hselect _).bind fun courseVisible => ?_
  split
  · trivial
  · refine (hselect _).bind fun existing => ?_
    cases existing with
    | some _ => trivial
    | none =>
      refine Program.Writes.bind ?_ fun _ => trivial
      exact writes_insertUnless (fun _ => rfl) fun _ _ => rfl

/-- **A call of a cycle or of a syllabus** that clones nothing touches no cell. -/
theorem keepsCells_transactionOf (normalize : String → String) {call : Call}
    (hsyllabus : ∀ tid sid ids, call ≠ .cloneSyllabus tid sid ids)
    (hcycle : ∀ tid sid ids, call ≠ .cloneCycleSyllabuses tid sid ids) :
    (transactionOf normalize call).Writes KeepsCells := by
  have hcalendar : ∀ v change, CalendarWrite change → KeepsCells v [] change := by
    intro v change hchange
    cases hchange <;> rfl
  cases call with
  | createCycle dto cycleId weekIds =>
    refine Program.Writes.bind ?_ fun _ => trivial
    refine (calendarWrites_createCycle dto cycleId weekIds).mono fun v _ change hchange => ?_
    rcases hchange with hchange | ⟨cycle, rfl⟩
    · exact hcalendar v change hchange
    · rfl
  | updateCycle id dto weekIds =>
    exact (calendarWrites_updateCycle id dto weekIds).mono fun v _ change hchange =>
      hcalendar v change hchange
  | toggleCycleVisibility id isActive =>
    refine Program.Writes.bind (fun _ => ⟨rfl, trivial⟩) fun _ => ?_
    split
    · trivial
    · exact fun _ => ⟨rfl, trivial⟩
  | create dto id => exact (keepsCells_create dto id).bind fun _ => trivial
  | archiveSyllabus id isActive => exact Program.writes_attempt (fun _ => rfl) fun _ _ => rfl
  | cloneSyllabus tid sid ids => exact absurd rfl (hsyllabus tid sid ids)
  | cloneCycleSyllabuses tid sid ids => exact absurd rfl (hcycle tid sid ids)

end Cells

end Odiseo.Syllabi
