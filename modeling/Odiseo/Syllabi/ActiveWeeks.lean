import Odiseo.Syllabi.Weeks
import Odiseo.Syllabi.WeeklyLimit

/-!
# Cells outside the calendar

Clones copy only the cells of the active weeks of the target cycle. A single cell is added without a
look at the calendar, so that its week may be deactivated, deleted or beyond the end of the cycle.
-/

namespace Odiseo.Syllabi

open Database

/-- A week of the cycle of a syllabus is live and active. -/
def Db.ActiveWeek (db : Db) (syllabusId : Uuid) (weekNumber : ℕ) : Prop :=
  ∃ s ∈ db.syllabuses.rows, s.id = syllabusId ∧
    ∃ w ∈ db.weeks.rows, w.cycleId = s.cycleId ∧ w.deleted = false ∧ w.weekNumber = weekNumber ∧
      w.isActive = true

instance (db : Db) (syllabusId : Uuid) (weekNumber : ℕ) :
    Decidable (db.ActiveWeek syllabusId weekNumber) :=
  inferInstanceAs (Decidable (∃ s ∈ db.syllabuses.rows, s.id = syllabusId ∧
    ∃ w ∈ db.weeks.rows, w.cycleId = s.cycleId ∧ w.deleted = false ∧ w.weekNumber = weekNumber ∧
      w.isActive = true))

/-- A cell is new. -/
def Inserts (db db' : Db) (d : SyllabusDistribution) : Prop :=
  d ∈ db'.distributions.rows ∧ db.distributions.find d.id = none

/-- The cells that a call inserts lie in active weeks. -/
def Step.PlansInCalendar (setting : Setting) (step : Step) : Prop :=
  ∀ d, Inserts step.before (step.after setting) d →
    (step.after setting).ActiveWeek d.syllabusId d.weekNumber

/-- A single cell is of an active week, or is not inserted: the limit of its week, its key, its cell
or one of its references stands in the way. -/
def Step.NamesActiveWeek (setting : Setting) (step : Step) : Prop :=
  match step.call with
  | .addDistribution syllabusId dto id =>
    step.before.ActiveWeek syllabusId dto.weekNumber ∨
      weeklyQuestionLimit < total step.before.distributions.rows syllabusId dto.weekNumber +
        dto.questionCount ∨
      distributionTaken (dto.row syllabusId id) step.before = true ∨
      danglingKey setting.known (dto.row syllabusId id) step.before = true
  | _ => True

/-- In a run all cells that are inserted lie in weeks that are active at that moment. -/
def StaysInCalendar (setting : Setting) (db : Db) (calls : List PlanningCall) : Prop :=
  ∀ step ∈ planningSteps setting db calls, step.PlansInCalendar setting

section Steps

variable {setting : Setting} {db db' : Db}

/-- The active weeks that a clone asks for. -/
theorem mem_activeWeeks {cycleId : Uuid} {weekNumber : ℕ} :
    weekNumber ∈ db.activeWeeks cycleId ↔ ∃ w ∈ db.weeks.rows, w.cycleId = cycleId ∧
      w.deleted = false ∧ w.weekNumber = weekNumber ∧ w.isActive = true := by
  unfold Db.activeWeeks
  simp only [List.mem_map, List.mem_filter, mem_weeksOf, Db.LiveWeek]
  constructor
  · rintro ⟨w, ⟨⟨hw, hcycle, hdeleted⟩, hactive⟩, hnumber⟩
    exact ⟨w, hw, hcycle, hdeleted, hnumber, hactive⟩
  · rintro ⟨w, hw, hcycle, hdeleted, hnumber, hactive⟩
    exact ⟨w, ⟨⟨hw, hcycle, hdeleted⟩, hactive⟩, hnumber⟩

/-- A week that is active in the cycle of a syllabus. -/
theorem activeWeek_of_mem {s : Syllabus} {weekNumber : ℕ} (hs : s ∈ db.syllabuses.rows)
    (hweek : weekNumber ∈ db.activeWeeks s.cycleId) : db.ActiveWeek s.id weekNumber :=
  ⟨s, hs, rfl, mem_activeWeeks.mp hweek⟩

/-- Rows that were there before are not new. -/
theorem not_inserts_of_mem {d : SyllabusDistribution} (hold : d ∈ db.distributions.rows) :
    ¬Inserts db db' d := by
  rintro ⟨-, hnone⟩
  exact Table.find_eq_none.mp hnone d hold rfl

/-- The cells that a clone inserts lie in the weeks that it is given. -/
theorem of_inserts_cloneOutcome {normalize : String → String} {source target : Syllabus}
    {activeWeeks : List ℕ} {rowIds : ℕ → Uuid} {out : List SyllabusDistribution} {jobs : List Empty}
    (htarget : target ∈ db.syllabuses.rows)
    (h : CloneOutcome normalize db source target activeWeeks rowIds (.ok (out, db', jobs))) :
    db'.weeks = db.weeks ∧
      (∃ s ∈ db'.syllabuses.rows, s.id = target.id ∧ s.cycleId = target.cycleId) ∧
      (∀ s ∈ db.syllabuses.rows, ∃ s' ∈ db'.syllabuses.rows, s'.id = s.id ∧
        s'.cycleId = s.cycleId) ∧
      ∀ d ∈ db'.distributions.rows, d ∈ db.distributions.rows ∨
        (d.syllabusId = target.id ∧ d.weekNumber ∈ activeWeeks) := by
  cases h with
  | @copied templateMap hmap hlimit haccepts distributions hrows jobs =>
    have hkept : ∀ s ∈ db.syllabuses.rows,
        ∃ s' ∈ (withDefaultTemplate source target templateMap
          { db with distributions }).syllabuses.rows, s'.id = s.id ∧ s'.cycleId = s.cycleId :=
      fun s hs => @mem_syllabuses_withDefaultTemplate { db with distributions } _ _ s _ hs
    refine ⟨(withDefaultTemplate_calendar source target templateMap _).2.1, hkept target htarget,
      hkept, fun d hd => ?_⟩
    rw [withDefaultTemplate_distributions] at hd
    dsimp only at hd
    rw [hrows] at hd
    rcases List.mem_append.mp hd with hold | hnew
    · exact Or.inl (List.mem_filter.mp hold).1
    · exact Or.inr (syllabusId_of_mem_clonedRows hnew)

/-- The cells that the clone of a cycle inserts lie in the active weeks of the target cycle. -/
theorem plansInCalendar_cloneCycle {normalize : String → String}
    {targetCycleId sourceCycleId : Uuid} {ids : CloneIds} {out : ℕ} {jobs : List Empty}
    (h : (cloneCycleSyllabuses normalize targetCycleId sourceCycleId ids).run db =
      .ok (out, db', jobs)) {d : SyllabusDistribution} (hd : Inserts db db' d) :
    db'.ActiveWeek d.syllabusId d.weekNumber := by
  have hkeeps : db'.weeks = db.weeks ∧ ∀ d ∈ db'.distributions.rows,
      d ∈ db.distributions.rows ∨ ∃ s ∈ db'.syllabuses.rows, s.id = d.syllabusId ∧
        s.cycleId = targetCycleId ∧ d.weekNumber ∈ db.activeWeeks targetCycleId := by
    refine cloneCycle_induction (P := fun v => v.weeks = db.weeks ∧ ∀ d ∈ v.distributions.rows,
      d ∈ db.distributions.rows ∨ ∃ s ∈ v.syllabuses.rows, s.id = d.syllabusId ∧
        s.cycleId = targetCycleId ∧ d.weekNumber ∈ db.activeWeeks targetCycleId) ?_ ?_
      ⟨rfl, fun _ => Or.inl⟩ h
    · rintro v s - hfree ⟨hweeks, hcells⟩
      refine ⟨hweeks, fun d hd => (hcells d hd).imp id ?_⟩
      rintro ⟨s', hs', hrest⟩
      exact ⟨s', (mem_insertSyllabusIn hfree).mpr (Or.inl hs'), hrest⟩
    · rintro v v' source target rowIds out jobs htarget hcycle ⟨hweeks, hcells⟩ houtcome
      obtain ⟨hsame, ⟨s, hs, hid, hscycle⟩, hkept, hrows⟩ :=
        of_inserts_cloneOutcome htarget houtcome
      refine ⟨hsame.trans hweeks, fun d hd => ?_⟩
      rcases hrows d hd with hold | ⟨hsyllabus, hweek⟩
      · refine (hcells d hold).imp id ?_
        rintro ⟨s', hs', hid', hcycle', hweek⟩
        obtain ⟨s'', hs'', hid'', hcycle''⟩ := hkept s' hs'
        exact ⟨s'', hs'', hid''.trans hid', hcycle''.trans hcycle', hweek⟩
      · exact Or.inr ⟨s, hs, hid.trans hsyllabus.symm, hscycle.trans hcycle, hweek⟩
  obtain ⟨hweeks, hcells⟩ := hkeeps
  obtain ⟨s, hs, hid, hcycle, hweek⟩ := (hcells d hd.1).resolve_left fun hold =>
    not_inserts_of_mem hold hd
  rw [← hid]
  refine activeWeek_of_mem hs ?_
  rw [mem_activeWeeks, hweeks, hcycle]
  exact mem_activeWeeks.mp hweek

/-- A call that adds no cell plans in the calendar. -/
theorem plansInCalendar_of_cells {step : Step}
    (h : ∀ d ∈ (step.after setting).distributions.rows,
      ∃ d₀ ∈ step.before.distributions.rows, d₀.id = d.id) : step.PlansInCalendar setting := by
  rintro d ⟨hd, hnone⟩
  obtain ⟨d₀, hd₀, hid⟩ := h d hd
  exact absurd hid (Table.find_eq_none.mp hnone d₀ hd₀)

/-- The database after a single cell has been added, or not. -/
theorem after_addDistribution (setting : Setting) (db : Db) (syllabusId : Uuid)
    (dto : CreateDistribution) (id : Uuid) :
    Step.after setting ⟨db, .addDistribution syllabusId dto id⟩ =
      if weeklyQuestionLimit < total db.distributions.rows syllabusId dto.weekNumber +
          dto.questionCount then db
      else if distributionTaken (dto.row syllabusId id) db ||
          danglingKey setting.known (dto.row syllabusId id) db then db
      else insertDistributionIn (dto.row syllabusId id) db := by
  have hanswer : Step.answer setting ⟨db, .addDistribution syllabusId dto id⟩ =
      (addDistribution setting.known syllabusId dto id).run db := rfl
  unfold Step.after
  rw [hanswer, run_addDistribution]
  by_cases hlimit : weeklyQuestionLimit <
      total db.distributions.rows syllabusId dto.weekNumber + dto.questionCount
  · rw [if_pos hlimit, if_pos hlimit]
  · rw [if_neg hlimit, if_neg hlimit]
    cases distributionTaken (dto.row syllabusId id) db ||
      danglingKey setting.known (dto.row syllabusId id) db <;> rfl

/-- **A single cell** is inserted in an active week exactly when it names one or is not inserted. -/
theorem plansInCalendar_addDistribution_iff (setting : Setting) (db : Db) (syllabusId : Uuid)
    (dto : CreateDistribution) (id : Uuid) :
    Step.PlansInCalendar setting ⟨db, .addDistribution syllabusId dto id⟩ ↔
      Step.NamesActiveWeek setting ⟨db, .addDistribution syllabusId dto id⟩ := by
  have hafter := after_addDistribution setting db syllabusId dto id
  change _ ↔ db.ActiveWeek syllabusId dto.weekNumber ∨ _ ∨ _ ∨ _
  by_cases hlimit : weeklyQuestionLimit <
      total db.distributions.rows syllabusId dto.weekNumber + dto.questionCount
  · rw [if_pos hlimit] at hafter
    refine iff_of_true (plansInCalendar_of_cells fun d hd => ?_) (Or.inr (Or.inl hlimit))
    rw [hafter] at hd
    exact ⟨d, hd, rfl⟩
  · rw [if_neg hlimit] at hafter
    cases hrefused : distributionTaken (dto.row syllabusId id) db ||
        danglingKey setting.known (dto.row syllabusId id) db with
    | true =>
      rw [hrefused, if_pos rfl] at hafter
      refine iff_of_true (plansInCalendar_of_cells fun d hd => ?_)
        (Or.inr (Or.inr (Bool.or_eq_true_iff.mp hrefused)))
      rw [hafter] at hd
      exact ⟨d, hd, rfl⟩
    | false =>
      rw [hrefused, if_neg Bool.false_ne_true] at hafter
      obtain ⟨hfree, hresolved⟩ := Bool.or_eq_false_iff.mp hrefused
      have hrows := rows_insertDistributionIn hfree
      constructor
      · intro hplans
        have hinserts : Inserts db (Step.after setting ⟨db, .addDistribution syllabusId dto id⟩)
            (dto.row syllabusId id) := by
          rw [hafter]
          unfold distributionTaken at hfree
          rw [Bool.or_eq_false_iff, Bool.or_eq_false_iff, Option.isSome_eq_false_iff] at hfree
          refine ⟨?_, Option.isNone_iff_eq_none.mp hfree.1.1⟩
          rw [hrows]
          exact List.mem_append_right _ (List.mem_singleton.mpr rfl)
        have hactive := hplans (dto.row syllabusId id) hinserts
        rw [hafter] at hactive
        exact Or.inl hactive
      · rintro (hactive | hover | htaken | hdangling) d hinserts
        · have hd := hinserts.1
          rw [hafter, hrows] at hd
          rcases List.mem_append.mp hd with hold | hnew
          · exact absurd hinserts (not_inserts_of_mem hold)
          · obtain rfl := List.mem_singleton.mp hnew
            rw [hafter]
            exact hactive
        · exact absurd hover hlimit
        · rw [hfree] at htaken
          cases htaken
        · rw [hresolved] at hdangling
          cases hdangling

/-- The other calls insert cells in active weeks only. -/
theorem plansInCalendar_of_not_add {step : Step}
    (hadd : ∀ syllabusId dto id, step.call ≠ .addDistribution syllabusId dto id) :
    step.PlansInCalendar setting := by
  obtain ⟨db, call⟩ := step
  rcases Step.after_cases setting ⟨db, call⟩ with ⟨e, -, heq⟩ | ⟨jobs, hrun⟩
  · refine plansInCalendar_of_cells fun d hd => ⟨d, ?_, rfl⟩
    rwa [heq] at hd
  · unfold Step.answer at hrun
    unfold Step.PlansInCalendar
    have hcells := @plansInCalendar_of_cells setting ⟨db, call⟩
    unfold Step.PlansInCalendar at hcells
    dsimp only at hrun hcells hadd ⊢
    generalize Step.after setting ⟨db, call⟩ = db' at hrun hcells
    cases call with
    | whole call =>
      by_cases hsyllabus : ∃ tid sid ids, call = .cloneSyllabus tid sid ids
      · obtain ⟨tid, sid, ids, rfl⟩ := hsyllabus
        obtain ⟨_, _, _, _, hclone, hdone, -⟩ := Program.of_run_bind hrun
        cases hdone
        obtain ⟨target, source, hfound, -, houtcome⟩ := of_run_cloneSyllabus hclone
        have htarget := Table.mem_of_find (Option.filter_eq_some_iff.mp hfound).1
        obtain ⟨hweeks, ⟨s, hs, hid, hcycle⟩, -, hrows⟩ := of_inserts_cloneOutcome htarget houtcome
        intro d hinserts
        obtain ⟨howner, hweek⟩ := (hrows d hinserts.1).resolve_left fun hold =>
          not_inserts_of_mem hold hinserts
        rw [howner, ← hid]
        refine activeWeek_of_mem hs ?_
        rw [hcycle, mem_activeWeeks, hweeks]
        exact mem_activeWeeks.mp hweek
      · by_cases hcycle : ∃ tid sid ids, call = .cloneCycleSyllabuses tid sid ids
        · obtain ⟨tid, sid, ids, rfl⟩ := hcycle
          obtain ⟨_, _, _, _, hclone, hdone, -⟩ := Program.of_run_bind hrun
          cases hdone
          exact fun d hinserts => plansInCalendar_cloneCycle hclone hinserts
        · push Not at hsyllabus hcycle
          have hsame := distributions_of_run
            (keepsCells_transactionOf setting.normalize hsyllabus hcycle) hrun
          refine hcells fun d hd => ⟨d, ?_, rfl⟩
          rwa [hsame] at hd
    | toggleWeekVisibility id isActive =>
      cases hrun
      exact hcells fun d hd => ⟨d, hd, rfl⟩
    | addDistribution syllabusId dto id => exact absurd rfl (hadd syllabusId dto id)
    | updateDistributionQuantity distId syllabusId dto =>
      obtain ⟨d₀, -, -, rfl⟩ := of_run_updateDistributionQuantity hrun
      refine hcells fun d hd => ?_
      obtain ⟨e, he, rfl⟩ := List.mem_map.mp hd
      refine ⟨e, he, ?_⟩
      split <;> rfl
    | deleteDistribution distId syllabusId =>
      change (deleteDistribution distId syllabusId).run db = _ at hrun
      unfold deleteDistribution at hrun
      rw [Program.run_attempt] at hrun
      split at hrun
      · cases hrun
      · cases hrun
        exact hcells fun d hd => ⟨d, (List.mem_filter.mp hd).1, rfl⟩

/-- **Step lemma:** a call inserts cells in active weeks only, exactly when a single cell that it
adds is of an active week or is not inserted. -/
theorem plansInCalendar_iff (setting : Setting) (step : Step) :
    step.PlansInCalendar setting ↔ step.NamesActiveWeek setting := by
  obtain ⟨db, call⟩ := step
  cases call with
  | addDistribution syllabusId dto id =>
    exact plansInCalendar_addDistribution_iff setting db syllabusId dto id
  | whole call =>
    exact iff_of_true (plansInCalendar_of_not_add fun _ _ _ h => PlanningCall.noConfusion h) trivial
  | toggleWeekVisibility id isActive =>
    exact iff_of_true (plansInCalendar_of_not_add fun _ _ _ h => PlanningCall.noConfusion h) trivial
  | updateDistributionQuantity distId syllabusId dto =>
    exact iff_of_true (plansInCalendar_of_not_add fun _ _ _ h => PlanningCall.noConfusion h) trivial
  | deleteDistribution distId syllabusId =>
    exact iff_of_true (plansInCalendar_of_not_add fun _ _ _ h => PlanningCall.noConfusion h) trivial

end Steps

/-- **Planning stays inside the calendar** exactly when, in the run, every single cell that could be
inserted names a week that is live and active at that moment; clones always do. -/
theorem staysInCalendar_iff (setting : Setting) (db : Db) (calls : List PlanningCall) :
    StaysInCalendar setting db calls ↔
      ∀ step ∈ planningSteps setting db calls, step.NamesActiveWeek setting := by
  constructor
  · exact fun hstays step hmem => (plansInCalendar_iff setting step).mp (hstays step hmem)
  · exact fun hnames step hmem => (plansInCalendar_iff setting step).mpr (hnames step hmem)

/-- The only week of a cycle is deactivated, and a cell of it is added. -/
theorem not_staysInCalendar : ¬∀ calls,
    StaysInCalendar plainSetting (Db.provisioned [1]) calls := by
  intro hall
  have hplans := hall [.whole (.createCycle semester 1 (100 + ·)), .whole (.create ⟨1, 1⟩ 1),
    .toggleWeekVisibility 101 false, .addDistribution 1 sixtyQuestions 1]
    ⟨_, .addDistribution 1 sixtyQuestions 1⟩
    (List.mem_cons_of_mem _ (List.mem_cons_of_mem _ (List.mem_cons_of_mem _ List.mem_cons_self)))
    (sixtyQuestions.row 1 1) ⟨by decide +kernel, by decide +kernel⟩
  revert hplans
  decide +kernel

end Odiseo.Syllabi
