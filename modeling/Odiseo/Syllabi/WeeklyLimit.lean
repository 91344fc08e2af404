import Odiseo.Syllabi.Clone
import Mathlib.Data.List.Pairwise

/-!
# The weekly limit

No week of a syllabus ever has more questions than the limit. A new cell, though, is compared with
the sum of its week as it stands, in which a cell that it would replace is still counted.
-/

namespace Odiseo.Syllabi

open Database

/-- The questions of a week of a syllabus. -/
def total (rows : List SyllabusDistribution) (syllabusId : Uuid) (weekNumber : ℕ) : ℕ :=
  ((rows.filter fun d => d.syllabusId == syllabusId && d.weekNumber == weekNumber).map
    (·.questionCount)).sum

/-- The rows after a cell has been written: an existing cell is replaced, another one is added. -/
def upserted (rows : List SyllabusDistribution) (row : SyllabusDistribution) :
    List SyllabusDistribution :=
  if rows.any (sameCell row) then
    rows.map fun d => if sameCell row d then { d with questionCount := row.questionCount } else d
  else rows ++ [row]

/-- Each week is within the limit, and no two rows are of one cell. -/
structure Db.Planned (db : Db) : Prop where
  limit : ∀ syllabusId weekNumber,
    total db.distributions.rows syllabusId weekNumber ≤ weeklyQuestionLimit
  cells : db.distributions.rows.Pairwise fun d e => sameCell d e = false

/-- The call adds a cell and is refused for the limit. -/
def Step.RefusedForLimit (setting : Setting) (step : Step) : Prop :=
  ∃ syllabusId dto id message, step.call = .addDistribution syllabusId dto id ∧
    step.answer setting = .error (.badRequest message)

/-- The week of the cell that the call writes would exceed the limit. -/
def Step.Exceeds (step : Step) : Prop :=
  match step.call with
  | .addDistribution syllabusId dto id =>
    weeklyQuestionLimit < total (upserted step.before.distributions.rows (dto.row syllabusId id))
      syllabusId dto.weekNumber
  | _ => True

/-- A cell that the call would replace does not decide the comparison with the limit: the sum with
it is within the limit, or the sum without it is not. -/
def Step.CountsOnce (step : Step) : Prop :=
  match step.call with
  | .addDistribution syllabusId dto id =>
    ∀ d ∈ step.before.distributions.rows, sameCell (dto.row syllabusId id) d →
      total step.before.distributions.rows syllabusId dto.weekNumber + dto.questionCount ≤
          weeklyQuestionLimit ∨
        weeklyQuestionLimit + d.questionCount <
          total step.before.distributions.rows syllabusId dto.weekNumber + dto.questionCount
  | _ => True

/-- Every state of a run is within the limit, and new cells are refused for it only when it would be
exceeded. -/
def KeepsWeeklyLimit (setting : Setting) (db : Db) (calls : List PlanningCall) : Prop :=
  (∀ state ∈ planningStates setting db calls, ∀ syllabusId weekNumber,
      total state.distributions.rows syllabusId weekNumber ≤ weeklyQuestionLimit) ∧
    ∀ step ∈ planningSteps setting db calls, step.RefusedForLimit setting → step.Exceeds

section Totals

variable {rows : List SyllabusDistribution} {syllabusId : Uuid} {weekNumber : ℕ}

/-- The questions of two lists of rows add up. -/
theorem total_append (rows more : List SyllabusDistribution) (syllabusId : Uuid) (weekNumber : ℕ) :
    total (rows ++ more) syllabusId weekNumber =
      total rows syllabusId weekNumber + total more syllabusId weekNumber := by
  unfold total
  rw [List.filter_append, List.map_append, List.sum_append]

/-- The questions of one row. -/
theorem total_cons (d : SyllabusDistribution) (rows : List SyllabusDistribution) (syllabusId : Uuid)
    (weekNumber : ℕ) : total (d :: rows) syllabusId weekNumber =
      (if d.syllabusId = syllabusId ∧ d.weekNumber = weekNumber then d.questionCount else 0) +
        total rows syllabusId weekNumber := by
  unfold total
  rw [List.filter_cons]
  by_cases hweek : d.syllabusId = syllabusId ∧ d.weekNumber = weekNumber
  · rw [if_pos hweek, if_pos (by simpa using hweek), List.map_cons, List.sum_cons]
  · rw [if_neg hweek, if_neg (by simpa using hweek), Nat.zero_add]

/-- Fewer rows have fewer questions. -/
theorem total_filter_le (p : SyllabusDistribution → Bool) (rows : List SyllabusDistribution)
    (syllabusId : Uuid) (weekNumber : ℕ) :
    total (rows.filter p) syllabusId weekNumber ≤ total rows syllabusId weekNumber := by
  induction rows with
  | nil => exact Nat.le_refl _
  | cons d rows ih =>
    rw [List.filter_cons]
    split
    · rw [total_cons, total_cons]
      omega
    · rw [total_cons]
      omega

/-- Rows that a change leaves where they are. -/
theorem total_congr {f : SyllabusDistribution → SyllabusDistribution}
    (h : ∀ d ∈ rows, f d = d) : total (rows.map f) syllabusId weekNumber =
      total rows syllabusId weekNumber := by
  rw [List.map_congr_left h, List.map_id']

/-- **One row with another number of questions**: the others count as before. -/
theorem total_replace (hnodup : (rows.map (·.id)).Nodup) {d : SyllabusDistribution} (hd : d ∈ rows)
    {f : SyllabusDistribution → SyllabusDistribution} {questionCount : ℕ}
    (hf : f d = { d with questionCount }) (hsame : ∀ e ∈ rows, e.id ≠ d.id → f e = e) :
    total (rows.map f) syllabusId weekNumber =
      total (rows.filter (·.id != d.id)) syllabusId weekNumber +
        if d.syllabusId = syllabusId ∧ d.weekNumber = weekNumber then questionCount else 0 := by
  induction rows with
  | nil => cases hd
  | cons e rows ih =>
    obtain ⟨hnot, hnodup⟩ := List.nodup_cons.mp hnodup
    have hothers : ∀ e' ∈ rows, e'.id ≠ e.id := fun e' he' heq =>
      hnot (List.mem_map.mpr ⟨e', he', heq⟩)
    rw [List.map_cons, total_cons]
    by_cases hid : e.id = d.id
    · have hed : d = e :=
        (List.mem_cons.mp hd).resolve_right fun hmem => hothers d hmem hid.symm
      subst hed
      have hkept : rows.filter (·.id != d.id) = rows :=
        List.filter_eq_self.mpr fun e' he' => by simpa using hothers e' he'
      have hrest : total (rows.map f) syllabusId weekNumber = total rows syllabusId weekNumber :=
        total_congr fun e' he' => hsame e' (List.mem_cons_of_mem d he') (hothers e' he')
      rw [List.filter_cons_of_neg (by simp), hkept, hrest, hf, Nat.add_comm]
    · have hmem : d ∈ rows := (List.mem_cons.mp hd).resolve_left fun heq => hid (heq ▸ rfl)
      rw [List.filter_cons_of_pos (by simpa using hid), total_cons, hsame e List.mem_cons_self hid,
        ih hnodup hmem fun e' he' => hsame e' (List.mem_cons_of_mem e he')]
      omega

/-- The questions without a row, and those of the row. -/
theorem total_split (hnodup : (rows.map (·.id)).Nodup) {d : SyllabusDistribution} (hd : d ∈ rows) :
    total rows syllabusId weekNumber =
      total (rows.filter (·.id != d.id)) syllabusId weekNumber +
        if d.syllabusId = syllabusId ∧ d.weekNumber = weekNumber then d.questionCount else 0 := by
  have hsplit := @total_replace rows syllabusId weekNumber hnodup d hd (fun e => e) d.questionCount
    rfl fun _ _ _ => rfl
  rwa [List.map_id'] at hsplit

/-- The sum that the checks read. -/
theorem weekTotal_none (db : Db) (syllabusId : Uuid) (weekNumber : ℕ) :
    db.weekTotal syllabusId weekNumber none =
      total db.distributions.rows syllabusId weekNumber := by
  unfold Db.weekTotal weekSum total Table.filter
  rw [List.filter_filter]
  congr 2
  refine List.filter_congr fun d _ => ?_
  cases d.syllabusId == syllabusId <;> cases d.weekNumber == weekNumber <;> rfl

/-- The sum without a cell. -/
theorem weekTotal_some (db : Db) (syllabusId : Uuid) (weekNumber : ℕ) (id : Uuid) :
    db.weekTotal syllabusId weekNumber (some id) =
      total (db.distributions.rows.filter (·.id != id)) syllabusId weekNumber := by
  unfold Db.weekTotal weekSum total Table.filter
  rw [List.filter_filter, List.filter_filter]
  congr 2
  refine List.filter_congr fun d _ => ?_
  have hid : (some d.id != some id) = (d.id != id) := by
    cases hsame : d.id != id <;> simp_all
  rw [hid]
  cases d.syllabusId == syllabusId <;> cases d.weekNumber == weekNumber <;>
    cases d.id != id <;> rfl

end Totals

section Steps

variable {setting : Setting} {db db' : Db}

/-- A new cell keeps its week within the limit that it was compared with. -/
theorem planned_insertDistributionIn {row : SyllabusDistribution} (hdb : db.Planned)
    (hfree : distributionTaken row db = false)
    (hlimit : total db.distributions.rows row.syllabusId row.weekNumber + row.questionCount ≤
      weeklyQuestionLimit) : (insertDistributionIn row db).Planned := by
  have hrows := rows_insertDistributionIn hfree
  constructor
  · intro syllabusId weekNumber
    rw [hrows, total_append, total_cons]
    have hold := hdb.limit syllabusId weekNumber
    by_cases hweek : row.syllabusId = syllabusId ∧ row.weekNumber = weekNumber
    · obtain ⟨rfl, rfl⟩ := hweek
      rw [if_pos ⟨rfl, rfl⟩]
      exact hlimit
    · rw [if_neg hweek]
      exact hold
  · rw [hrows]
    refine List.pairwise_append.mpr ⟨hdb.cells, List.pairwise_singleton _ _, fun d hd e he => ?_⟩
    obtain rfl := List.mem_singleton.mp he
    unfold distributionTaken at hfree
    rw [Bool.or_eq_false_iff, Bool.or_eq_false_iff] at hfree
    rw [sameCell_comm]
    simpa using List.any_eq_false.mp hfree.1.2 d hd

/-- A cell that takes another number of questions keeps its week within the limit. -/
theorem planned_setQuestionCountIn {d : SyllabusDistribution} (hdb : db.Planned)
    (hd : d ∈ db.distributions.rows) {questionCount : ℕ}
    (hlimit : total (db.distributions.rows.filter (·.id != d.id)) d.syllabusId d.weekNumber +
      questionCount ≤ weeklyQuestionLimit) :
    (setQuestionCountIn d.id d.syllabusId questionCount db).Planned := by
  have hkept : ∀ e : SyllabusDistribution,
      (if e.id == d.id && e.syllabusId == d.syllabusId then { e with questionCount } else e).id =
          e.id ∧
        ∀ e', sameCell (if e.id == d.id && e.syllabusId == d.syllabusId then
          { e with questionCount } else e) e' = sameCell e e' := by
    intro e
    split <;> exact ⟨rfl, fun _ => rfl⟩
  constructor
  · intro syllabusId weekNumber
    have hreplaced := @total_replace db.distributions.rows syllabusId weekNumber
      db.distributions.nodup d hd (fun e =>
        if e.id == d.id && e.syllabusId == d.syllabusId then { e with questionCount } else e)
      questionCount (if_pos (by simp)) fun e he hne => if_neg (by simp [hne])
    have hrows : (setQuestionCountIn d.id d.syllabusId questionCount db).distributions.rows =
        db.distributions.rows.map fun e =>
          if e.id == d.id && e.syllabusId == d.syllabusId then { e with questionCount } else e :=
      rfl
    rw [hrows, hreplaced]
    by_cases hweek : d.syllabusId = syllabusId ∧ d.weekNumber = weekNumber
    · obtain ⟨rfl, rfl⟩ := hweek
      rw [if_pos ⟨rfl, rfl⟩]
      exact hlimit
    · rw [if_neg hweek, Nat.add_zero]
      exact Nat.le_trans (total_filter_le _ _ _ _) (hdb.limit syllabusId weekNumber)
  · refine List.pairwise_map.mpr (hdb.cells.imp fun {e e'} hne => ?_)
    rw [(hkept e).2, sameCell_comm, (hkept e').2, sameCell_comm]
    exact hne

/-- Fewer cells are within the limit. -/
theorem planned_deleteCellIn (hdb : db.Planned) (id syllabusId : Uuid) :
    (deleteCellIn id syllabusId db).Planned :=
  ⟨fun s n => Nat.le_trans (total_filter_le _ _ _ _) (hdb.limit s n), hdb.cells.filter _⟩

/-- No week of the rows that a clone inserts exceeds the limit. -/
theorem weekSum_le_of_offendingWeeks {rows : List SyllabusDistribution}
    (h : offendingWeeks rows = []) (weekNumber : ℕ) :
    weekSum rows weekNumber ≤ weeklyQuestionLimit := by
  have hnil : ∀ numbers : List ℕ, numbers.foldr insertNumber [] = [] → numbers = [] := by
    intro numbers hsorted
    cases numbers with
    | nil => rfl
    | cons n numbers =>
      rw [List.foldr_cons] at hsorted
      cases hrest : numbers.foldr insertNumber [] with
      | nil =>
        rw [hrest] at hsorted
        cases hsorted
      | cons m more =>
        rw [hrest] at hsorted
        unfold insertNumber at hsorted
        split at hsorted <;> cases hsorted
  have hnone := List.filter_eq_nil_iff.mp (hnil _ h)
  by_cases hmem : weekNumber ∈ rows.map (·.weekNumber)
  · have hle := hnone weekNumber (List.mem_eraseDups.mpr hmem)
    simpa using hle
  · have hempty : rows.filter (·.weekNumber == weekNumber) = [] := by
      refine List.filter_eq_nil_iff.mpr fun d hd hweek => hmem ?_
      exact List.mem_map.mpr ⟨d, hd, by simpa using hweek⟩
    unfold weekSum
    rw [hempty]
    exact Nat.zero_le _

/-- A clone keeps all weeks within the limit. -/
theorem planned_of_cloneOutcome {normalize : String → String} {source target : Syllabus}
    {activeWeeks : List ℕ} {rowIds : ℕ → Uuid} {out : List SyllabusDistribution} {jobs : List Empty}
    (hdb : db.Planned)
    (h : CloneOutcome normalize db source target activeWeeks rowIds (.ok (out, db', jobs))) :
    db'.Planned := by
  cases h with
  | copied hmap hlimit haccepts distributions hrows jobs =>
    generalize hcloned : db.clonedRows source target _ activeWeeks rowIds = rows at *
    have howner : ∀ d ∈ rows, d.syllabusId = target.id := by
      intro d hd
      rw [← hcloned] at hd
      exact (syllabusId_of_mem_clonedRows hd).1
    constructor
    · intro syllabusId weekNumber
      rw [withDefaultTemplate_distributions]
      dsimp only
      rw [hrows, total_append]
      by_cases hid : syllabusId = target.id
      · subst hid
        have hcleared : total (db.distributions.rows.filter (!·.syllabusId == target.id)) target.id
            weekNumber = 0 := by
          unfold total
          rw [List.filter_filter, List.filter_eq_nil_iff.mpr]
          · rfl
          · intro d hd
            cases d.syllabusId == target.id <;> simp
        have hsum : total rows target.id weekNumber = weekSum rows weekNumber := by
          unfold total weekSum
          congr 2
          refine List.filter_congr fun d hd => ?_
          rw [howner d hd, beq_self_eq_true, Bool.true_and]
        rw [hcleared, hsum, Nat.zero_add]
        exact weekSum_le_of_offendingWeeks hlimit weekNumber
      · have hother : total rows syllabusId weekNumber = 0 := by
          unfold total
          rw [List.filter_eq_nil_iff.mpr]
          · rfl
          · intro d hd
            rw [howner d hd]
            simp [Ne.symm hid]
        rw [hother, Nat.add_zero]
        exact Nat.le_trans (total_filter_le _ _ _ _) (hdb.limit syllabusId weekNumber)
    · rw [withDefaultTemplate_distributions]
      dsimp only
      rw [hrows]
      refine List.pairwise_append.mpr ⟨hdb.cells.filter _, haccepts.cells, fun d hd e he => ?_⟩
      have hout := (List.mem_filter.mp hd).2
      have hne : ¬d.syllabusId = e.syllabusId := by
        rw [howner e he]
        simpa using hout
      unfold sameCell
      simp [hne]

/-- The addition of a cell is compared with the limit, and then tried. -/
theorem run_addDistribution (known : CatalogId → CatalogId → Bool) (syllabusId : Uuid)
    (dto : CreateDistribution) (id : Uuid) (db : Db) :
    (addDistribution known syllabusId dto id).run db =
      if weeklyQuestionLimit < total db.distributions.rows syllabusId dto.weekNumber +
          dto.questionCount then
        .error (.badRequest (addLimitMessage dto.weekNumber
          (total db.distributions.rows syllabusId dto.weekNumber) dto.questionCount))
      else if distributionTaken (dto.row syllabusId id) db ||
          danglingKey known (dto.row syllabusId id) db then .error .queryFailed
      else .ok ((), insertDistributionIn (dto.row syllabusId id) db, []) := by
  unfold addDistribution sumWeekQuestionCount
  simp only [Program.bind_eq, Program.run_select_bind, weekTotal_none]
  split
  · rfl
  · exact Program.run_attempt _ _ _ _ _

/-- A cell that is found by its identifier. -/
theorem noSuchCell_eq_false {id syllabusId : Uuid} (h : noSuchCell id syllabusId db = false) :
    ∃ d ∈ db.distributions.rows, d.id = id ∧ d.syllabusId = syllabusId ∧
      (db.distributions.find id).filter (·.syllabusId == syllabusId) = some d := by
  unfold noSuchCell at h
  obtain ⟨d, hd⟩ := Option.isSome_iff_exists.mp (Option.isNone_eq_false_iff.mp h)
  obtain ⟨hfind, hsyllabus⟩ := Option.filter_eq_some_iff.mp hd
  exact ⟨d, Table.mem_of_find hfind, Table.key_of_find (k := id) hfind, by simpa using hsyllabus, hd⟩

/-- A change of a cell that is not refused has found the cell and compared its week. -/
theorem of_run_updateDistributionQuantity {distId syllabusId : Uuid} {dto : UpdateDistribution}
    {jobs : List Empty}
    (h : (updateDistributionQuantity distId syllabusId dto).run db = .ok ((), db', jobs)) :
    ∃ d ∈ db.distributions.rows,
      total (db.distributions.rows.filter (·.id != d.id)) d.syllabusId d.weekNumber +
          dto.questionCount ≤ weeklyQuestionLimit ∧
        db' = setQuestionCountIn d.id d.syllabusId dto.questionCount db := by
  unfold updateDistributionQuantity getDistributionById sumWeekQuestionCount at h
  simp only [Program.bind_eq, Program.run_select_bind] at h
  have hwrite : (writeQuestionCount distId syllabusId dto.questionCount).run db =
      if noSuchCell distId syllabusId db then
        .error (.notFound "Distribution not found for this syllabus.")
      else .ok ((), setQuestionCountIn distId syllabusId dto.questionCount db, []) :=
    Program.run_attempt _ _ _ _ _
  cases hcell : noSuchCell distId syllabusId db with
  | true =>
    have hnone : (db.distributions.find distId).filter (·.syllabusId == syllabusId) = none :=
      Option.isNone_iff_eq_none.mp hcell
    rw [hnone] at h
    simp only [hwrite, hcell, if_true] at h
    cases h
  | false =>
    obtain ⟨d, hd, rfl, rfl, hfound⟩ := noSuchCell_eq_false hcell
    rw [hfound] at h
    simp only [Program.run_select_bind, weekTotal_some] at h
    split at h
    · cases h
    · rename_i hlimit
      rw [hwrite, hcell] at h
      cases h
      exact ⟨d, hd, Nat.le_of_not_lt hlimit, rfl⟩

/-- **Step lemma:** every call keeps all weeks within the limit. -/
theorem planned_after (setting : Setting) (step : Step) (hdb : step.before.Planned) :
    (step.after setting).Planned := by
  rcases step.after_cases setting with ⟨e, -, heq⟩ | ⟨jobs, hrun⟩
  · rw [heq]
    exact hdb
  · obtain ⟨db, call⟩ := step
    unfold Step.answer at hrun
    dsimp only at hrun hdb ⊢
    generalize Step.after setting ⟨db, call⟩ = db' at hrun
    have hsame : db'.distributions = db.distributions → db'.Planned := by
      intro hcells
      constructor
      · rw [hcells]
        exact hdb.limit
      · rw [hcells]
        exact hdb.cells
    cases call with
    | whole call =>
      by_cases hsyllabus : ∃ tid sid ids, call = .cloneSyllabus tid sid ids
      · obtain ⟨tid, sid, ids, rfl⟩ := hsyllabus
        obtain ⟨_, _, _, _, hclone, hdone, -⟩ := Program.of_run_bind hrun
        cases hdone
        obtain ⟨target, source, -, -, houtcome⟩ := of_run_cloneSyllabus hclone
        exact planned_of_cloneOutcome hdb houtcome
      · by_cases hcycle : ∃ tid sid ids, call = .cloneCycleSyllabuses tid sid ids
        · obtain ⟨tid, sid, ids, rfl⟩ := hcycle
          obtain ⟨_, _, _, _, hclone, hdone, -⟩ := Program.of_run_bind hrun
          cases hdone
          exact cloneCycle_induction (P := Db.Planned) (fun _ _ _ _ hv => ⟨hv.limit, hv.cells⟩)
            (fun _ _ _ _ _ _ _ _ _ hv houtcome => planned_of_cloneOutcome hv houtcome) hdb hclone
        · push Not at hsyllabus hcycle
          exact hsame (distributions_of_run
            (keepsCells_transactionOf setting.normalize hsyllabus hcycle) hrun)
    | toggleWeekVisibility id isActive =>
      cases hrun
      exact hsame rfl
    | addDistribution syllabusId dto id =>
      change (addDistribution setting.known syllabusId dto id).run db = _ at hrun
      rw [run_addDistribution] at hrun
      split at hrun
      · cases hrun
      · rename_i hlimit
        split at hrun
        · cases hrun
        · rename_i hfree
          cases hrun
          rw [Bool.not_eq_true, Bool.or_eq_false_iff] at hfree
          exact planned_insertDistributionIn hdb hfree.1 (Nat.le_of_not_lt hlimit)
    | updateDistributionQuantity distId syllabusId dto =>
      obtain ⟨d, hd, hlimit, rfl⟩ := of_run_updateDistributionQuantity hrun
      exact planned_setQuestionCountIn hdb hd hlimit
    | deleteDistribution distId syllabusId =>
      change (deleteDistribution distId syllabusId).run db = _ at hrun
      unfold deleteDistribution at hrun
      rw [Program.run_attempt] at hrun
      split at hrun
      · cases hrun
      · cases hrun
        exact planned_deleteCellIn hdb distId syllabusId

/-- Only the comparison with the limit refuses a new cell with a message. -/
theorem refusedForLimit_iff {syllabusId id : Uuid} {dto : CreateDistribution} :
    Step.RefusedForLimit setting ⟨db, .addDistribution syllabusId dto id⟩ ↔
      weeklyQuestionLimit < total db.distributions.rows syllabusId dto.weekNumber +
        dto.questionCount := by
  have hanswer : Step.answer setting ⟨db, .addDistribution syllabusId dto id⟩ =
      (addDistribution setting.known syllabusId dto id).run db := rfl
  constructor
  · rintro ⟨_, _, _, message, hcall, hrefused⟩
    cases hcall
    rw [hanswer, run_addDistribution] at hrefused
    split at hrefused
    · assumption
    · split at hrefused <;> cases hrefused
  · intro hlimit
    refine ⟨syllabusId, dto, id, addLimitMessage dto.weekNumber
      (total db.distributions.rows syllabusId dto.weekNumber) dto.questionCount, rfl, ?_⟩
    rw [hanswer, run_addDistribution, if_pos hlimit]

/-- The questions of a week after a cell has been replaced. -/
theorem total_upserted (hdb : db.Planned) {row d : SyllabusDistribution}
    (hd : d ∈ db.distributions.rows) (hcell : sameCell row d = true) :
    total (upserted db.distributions.rows row) row.syllabusId row.weekNumber + d.questionCount =
      total db.distributions.rows row.syllabusId row.weekNumber + row.questionCount := by
  have hweek : d.syllabusId = row.syllabusId ∧ d.weekNumber = row.weekNumber := by
    unfold sameCell at hcell
    simp only [Bool.and_eq_true, beq_iff_eq] at hcell
    exact ⟨hcell.1.1.1.1.symm, hcell.1.1.2.symm⟩
  have hothers : ∀ e ∈ db.distributions.rows, e.id ≠ d.id →
      (if sameCell row e then { e with questionCount := row.questionCount } else e) = e := by
    intro e he hne
    refine if_neg fun hsame => ?_
    have hboth : sameCell d e = true := by
      unfold sameCell at hcell hsame ⊢
      simp only [Bool.and_eq_true, beq_iff_eq] at hcell hsame ⊢
      obtain ⟨⟨⟨⟨h1, h2⟩, h3⟩, h4⟩, h5⟩ := hcell
      obtain ⟨⟨⟨⟨k1, k2⟩, k3⟩, k4⟩, k5⟩ := hsame
      exact ⟨⟨⟨⟨h1.symm.trans k1, h2.symm.trans k2⟩, h3.symm.trans k3⟩, h4.symm.trans k4⟩,
        h5.symm.trans k5⟩
    have hsymm : Std.Symm fun d e => sameCell d e = false :=
      ⟨fun d e h => (sameCell_comm e d).trans h⟩
    have hapart : d ≠ e → sameCell d e = false := fun hne => hdb.cells.forall hd he hne
    rw [hapart fun heq => hne (heq ▸ rfl)] at hboth
    cases hboth
  have hreplaced := @total_replace db.distributions.rows row.syllabusId row.weekNumber
    db.distributions.nodup d hd
    (fun e => if sameCell row e then { e with questionCount := row.questionCount } else e)
    row.questionCount (if_pos hcell) hothers
  have hsplit := @total_split db.distributions.rows row.syllabusId row.weekNumber
    db.distributions.nodup d hd
  have hany : db.distributions.rows.any (sameCell row) = true := List.any_eq_true.mpr ⟨d, hd, hcell⟩
  unfold upserted
  rw [if_pos hany, hreplaced, hsplit, if_pos hweek, if_pos hweek]
  omega

/-- A new cell is refused only for a week that would exceed the limit exactly when a cell that it
would replace does not decide the comparison. -/
theorem exceeds_of_refused_iff (hdb : db.Planned) (call : PlanningCall) :
    (Step.RefusedForLimit setting ⟨db, call⟩ → Step.Exceeds ⟨db, call⟩) ↔
      Step.CountsOnce ⟨db, call⟩ := by
  cases call with
  | addDistribution syllabusId dto id =>
    rw [refusedForLimit_iff]
    change (_ → weeklyQuestionLimit < total (upserted db.distributions.rows
      (dto.row syllabusId id)) (dto.row syllabusId id).syllabusId (dto.row syllabusId id).weekNumber)
      ↔ ∀ d ∈ db.distributions.rows, sameCell (dto.row syllabusId id) d →
        total db.distributions.rows syllabusId dto.weekNumber + dto.questionCount ≤
            weeklyQuestionLimit ∨
          weeklyQuestionLimit + d.questionCount <
            total db.distributions.rows syllabusId dto.weekNumber + dto.questionCount
    constructor
    · intro hexceeds d hd hcell
      have htotal := total_upserted hdb hd hcell
      change _ = total db.distributions.rows syllabusId dto.weekNumber + dto.questionCount at htotal
      by_cases hlimit : weeklyQuestionLimit <
          total db.distributions.rows syllabusId dto.weekNumber + dto.questionCount
      · have hover := hexceeds hlimit
        omega
      · exact Or.inl (Nat.le_of_not_lt hlimit)
    · intro hcounts hlimit
      cases hany : db.distributions.rows.any (sameCell (dto.row syllabusId id)) with
      | true =>
        obtain ⟨d, hd, hcell⟩ := List.any_eq_true.mp hany
        have htotal := total_upserted hdb hd hcell
        change _ = total db.distributions.rows syllabusId dto.weekNumber + dto.questionCount
          at htotal
        have hapart := hcounts d hd hcell
        omega
      | false =>
        have hnone : ¬db.distributions.rows.any (sameCell (dto.row syllabusId id)) = true := by
          simp [hany]
        unfold upserted
        rw [if_neg hnone, total_append, total_cons, if_pos ⟨rfl, rfl⟩]
        exact hlimit
  | whole call => exact iff_of_true (fun _ => trivial) trivial
  | toggleWeekVisibility id isActive => exact iff_of_true (fun _ => trivial) trivial
  | updateDistributionQuantity distId syllabusId dto => exact iff_of_true (fun _ => trivial) trivial
  | deleteDistribution distId syllabusId => exact iff_of_true (fun _ => trivial) trivial

end Steps

/-- A new tenant has no cells. -/
theorem planned_provisioned (courses : List CatalogId) : (Db.provisioned courses).Planned :=
  ⟨fun _ _ => Nat.zero_le _, List.Pairwise.nil⟩

/-- **The weekly limit**: over every run all weeks stay within the limit, and new cells are refused
only for weeks that would exceed it exactly when no call adds a cell that is there already, in a week
whose sum with the new number exceeds the limit while the sum without the old one does not. -/
theorem keepsWeeklyLimit_iff (setting : Setting) (db : Db) (hdb : db.Planned)
    (calls : List PlanningCall) :
    KeepsWeeklyLimit setting db calls ↔
      ∀ step ∈ planningSteps setting db calls, step.CountsOnce := by
  have hstep : ∀ step : Step, True → step.before.Planned → (step.after setting).Planned :=
    fun step _ hbefore => planned_after setting step hbefore
  have hsteps := invariant_of_planningSteps hdb (fun _ (_ : _ ∈ planningSteps setting db calls) =>
    trivial) hstep
  have hstates := invariant_of_planningStates hdb (fun _ (_ : _ ∈ planningSteps setting db calls) =>
    trivial) hstep
  constructor
  · rintro ⟨-, hrefused⟩ step hmem
    exact (exceeds_of_refused_iff (hsteps step hmem).1 step.call).mp (hrefused step hmem)
  · intro hcounts
    refine ⟨fun state hmem => (hstates state hmem).limit, fun step hmem => ?_⟩
    exact (exceeds_of_refused_iff (hsteps step hmem).1 step.call).mpr (hcounts step hmem)

/-- The week of the cells below. -/
theorem firstWeek_pos : 1 ≤ 1 := by decide

/-- The questions of the first one. -/
theorem sixty_mem : 1 ≤ 60 ∧ 60 ≤ 100 := by decide

/-- The questions of the second one. -/
theorem fifty_mem : 1 ≤ 50 ∧ 50 ≤ 100 := by decide

/-- Sixty questions for a cell of the first week. -/
def sixtyQuestions : CreateDistribution where
  templateId := none
  weekNumber := 1
  topicId := 1
  subtopicId := 1
  questionCount := 60
  weekNumber_pos := firstWeek_pos
  questionCount_mem := sixty_mem

/-- Fifty questions for the same cell. -/
def fiftyQuestions : CreateDistribution where
  templateId := none
  weekNumber := 1
  topicId := 1
  subtopicId := 1
  questionCount := 50
  weekNumber_pos := firstWeek_pos
  questionCount_mem := fifty_mem

/-- A cell of a new syllabus is filled. -/
def filling : List PlanningCall :=
  [.whole (.createCycle semester 1 (100 + ·)), .whole (.create ⟨1, 1⟩ 1),
    .addDistribution 1 sixtyQuestions 1]

/-- The run of `filling` in a new tenant. -/
theorem keepsWeeklyLimit_filling : KeepsWeeklyLimit plainSetting (Db.provisioned [1]) filling := by
  refine (keepsWeeklyLimit_iff plainSetting (Db.provisioned [1]) (planned_provisioned [1])
    filling).mpr fun step hmem => ?_
  simp only [filling, planningSteps, List.mem_cons, List.not_mem_nil, or_false] at hmem
  rcases hmem with rfl | rfl | rfl
  · trivial
  · trivial
  · intro d hd
    exact absurd hd List.not_mem_nil

/-- A cell of sixty questions is written again with fifty: the week would have fifty, and the call
is refused because it compares a hundred and ten with the limit. -/
theorem not_keepsWeeklyLimit : ¬∀ calls,
    KeepsWeeklyLimit plainSetting (Db.provisioned [1]) calls := by
  intro hall
  obtain ⟨-, hrefused⟩ := hall (filling ++ [.addDistribution 1 fiftyQuestions 2])
  have hexceeds := hrefused ⟨_, .addDistribution 1 fiftyQuestions 2⟩
    (List.mem_cons_of_mem _ (List.mem_cons_of_mem _ (List.mem_cons_of_mem _ List.mem_cons_self)))
    (refusedForLimit_iff.mpr (by decide +kernel))
  revert hexceeds
  unfold Step.Exceeds
  decide +kernel

end Odiseo.Syllabi
