import Odiseo.Materials.Sweep

/-!
# The weeks that have been generated

`MaterialGeneratedListener.markWeekGenerated` sets the flag of a week of a syllabus whose material
is complete. `MaterialsCron.sweepStuckSyllabusDistributions` looks for weeks whose flag was missed
and sets it again. The query joins every syllabus of the cycle and the course, active or archived;
the listener writes the rows of the first one that it finds.
-/

namespace Odiseo.Materials

open Database

/-- `SyllabusDistribution`, as the sweep reads it. -/
structure DistributionFlag where
  id : Uuid
  syllabusId : Uuid
  weekNumber : ℕ
  isGenerated : Bool
  deriving DecidableEq, Repr

instance : Keyed Uuid Syllabus := ⟨Syllabus.id⟩

instance : Keyed Uuid DistributionFlag := ⟨DistributionFlag.id⟩

/-- The rows of a tenant that the sweep reads. -/
structure SyllabusState where
  syllabuses : Table Uuid Syllabus
  distributions : Table Uuid DistributionFlag
  materials : Db

/-- `StuckSyllabusWeek`, which is also the event `material.course.generated`. -/
structure StuckSyllabusWeek where
  cycleId : Uuid
  courseId : CatalogId
  weekNumber : ℕ
  deriving DecidableEq, Repr

/-- The order in which the database finds the rows of a table. -/
structure RowScan (ρ : Type) where
  order : List ρ → List ρ
  perm : ∀ rows, (order rows).Perm rows

/-- A syllabus is one of the cycle and the course of a week. -/
def StuckSyllabusWeek.teaches (week : StuckSyllabusWeek) (s : Syllabus) : Bool :=
  s.cycleId == week.cycleId && s.courseId == week.courseId

/-- `manager.findOne(Syllabus, ...)`. -/
def SyllabusState.findOne (db : SyllabusState) (scan : RowScan Syllabus)
    (week : StuckSyllabusWeek) : Option Syllabus :=
  (scan.order db.syllabuses.rows).find? week.teaches

/-- A distribution is one of a week of a syllabus. -/
def plans (syllabusId : Uuid) (weekNumber : ℕ) (d : DistributionFlag) : Bool :=
  d.syllabusId == syllabusId && d.weekNumber == weekNumber

/-- The database after the flags of a week of a syllabus have been set. -/
def setGeneratedIn (syllabusId : Uuid) (weekNumber : ℕ) (db : SyllabusState) : SyllabusState :=
  { db with distributions := db.distributions.modifyAll fun d =>
      if plans syllabusId weekNumber d then { d with isGenerated := true } else d }

/-- `markWeekGenerated`: whether the update met a row, and the database after it. -/
def markWeekGenerated (scan : RowScan Syllabus) (week : StuckSyllabusWeek) (db : SyllabusState) :
    Bool × SyllabusState :=
  match db.findOne scan week with
  | none => (false, db)
  | some syllabus =>
    (db.distributions.rows.any (plans syllabus.id week.weekNumber),
      setGeneratedIn syllabus.id week.weekNumber db)

/-- A course request is complete since longer than the threshold. -/
def completedLongAgo (now : ℕ) (c : MaterialRequestCourse) : Bool :=
  c.status.successTerminal && c.completedAt.any fun t => stale t now

/-- The rows that the query matches, before it drops duplicates. -/
def SyllabusState.stuckWeeks (db : SyllabusState) (now : ℕ) : List StuckSyllabusWeek :=
  (db.distributions.filter fun sd => !sd.isGenerated).flatMap fun sd =>
    (db.syllabuses.filter fun s => s.id == sd.syllabusId).flatMap fun s =>
      (db.materials.requests.filter fun mr =>
          mr.cycleId == s.cycleId && mr.weekNumber == sd.weekNumber).flatMap fun mr =>
        (db.materials.courses.filter fun mrc => mrc.materialRequestId == mr.id &&
            mrc.courseId == s.courseId && completedLongAgo now mrc).map fun _ =>
          ⟨s.cycleId, s.courseId, sd.weekNumber⟩

/-- What happens around one sweep of a tenant. -/
structure SyllabusSweepInputs where
  /-- `now()` of the query. -/
  now : ℕ
  /-- The order in which the query finds weeks. -/
  weeks : RowScan StuckSyllabusWeek
  /-- The order in which the listener finds syllabi. -/
  syllabuses : RowScan Syllabus
  /-- The transaction of the listener throws. -/
  fails : StuckSyllabusWeek → Bool

/-- `staleWeeks`: the distinct rows of the query, up to its limit. -/
def SyllabusSweepInputs.staleWeeks (i : SyllabusSweepInputs) (db : SyllabusState) :
    List StuckSyllabusWeek :=
  (i.weeks.order (db.stuckWeeks i.now).eraseDups).take sweepBatchLimit

/-- The loop over the weeks: those that it counts as recovered, and the database after it. -/
def SyllabusSweepInputs.recover (i : SyllabusSweepInputs) :
    List StuckSyllabusWeek → SyllabusState → List StuckSyllabusWeek × SyllabusState
  | [], db => ([], db)
  | week :: weeks, db =>
    if i.fails week then i.recover weeks db
    else
      let marked := markWeekGenerated i.syllabuses week db
      let rest := i.recover weeks marked.2
      (if marked.1 then week :: rest.1 else rest.1, rest.2)

/-- `sweepStuckSyllabusDistributions`, when its query answers. -/
def sweepStuckSyllabusDistributions (i : SyllabusSweepInputs) (db : SyllabusState) :
    List StuckSyllabusWeek × SyllabusState := i.recover (i.staleWeeks db) db

/-- The material of a week has been complete for longer than the threshold. -/
def SyllabusState.Completed (db : SyllabusState) (now : ℕ) (week : StuckSyllabusWeek) : Prop :=
  ∃ mr ∈ db.materials.requests.rows, mr.cycleId = week.cycleId ∧ mr.weekNumber = week.weekNumber ∧
    ∃ mrc ∈ db.materials.courses.rows, mrc.materialRequestId = mr.id ∧
      mrc.courseId = week.courseId ∧ completedLongAgo now mrc = true

/-- A syllabus of the cycle and the course has a distribution of the week without the flag. -/
def SyllabusState.Missed (db : SyllabusState) (week : StuckSyllabusWeek) (s : Syllabus) : Prop :=
  s ∈ db.syllabuses.rows ∧ week.teaches s = true ∧
    ∃ sd ∈ db.distributions.rows, plans s.id week.weekNumber sd = true ∧ sd.isGenerated = false

/-- The query matches a week when its material is complete and one of its syllabi was missed. -/
theorem mem_stuckWeeks {db : SyllabusState} {now : ℕ} {week : StuckSyllabusWeek} :
    week ∈ db.stuckWeeks now ↔ db.Completed now week ∧ ∃ s, db.Missed week s := by
  constructor
  · intro hmem
    obtain ⟨sd, hsd, hmem⟩ := List.mem_flatMap.mp hmem
    obtain ⟨s, hs, hmem⟩ := List.mem_flatMap.mp hmem
    obtain ⟨mr, hmr, hmem⟩ := List.mem_flatMap.mp hmem
    obtain ⟨mrc, hmrc, rfl⟩ := List.mem_map.mp hmem
    obtain ⟨hsd, hflag⟩ := List.mem_filter.mp hsd
    obtain ⟨hs, hid⟩ := List.mem_filter.mp hs
    obtain ⟨hmr, hrequest⟩ := List.mem_filter.mp hmr
    obtain ⟨hmrc, hcourse⟩ := List.mem_filter.mp hmrc
    simp only [Bool.and_eq_true, beq_iff_eq] at hid hrequest hcourse
    refine ⟨⟨mr, hmr, hrequest.1, hrequest.2, mrc, hmrc, hcourse.1.1, hcourse.1.2, hcourse.2⟩, s,
      hs, ?_, sd, hsd, ?_, ?_⟩
    · simp [StuckSyllabusWeek.teaches]
    · simp [plans, hid]
    · simpa using hflag
  · rintro ⟨⟨mr, hmr, hcycle, hweek, mrc, hmrc, hrequest, hcourse, hlong⟩, s, hs, hteaches, sd, hsd,
      hplans, hflag⟩
    simp only [StuckSyllabusWeek.teaches, plans, Bool.and_eq_true, beq_iff_eq] at hteaches hplans
    refine List.mem_flatMap.mpr ⟨sd, List.mem_filter.mpr ⟨hsd, by simp [hflag]⟩, ?_⟩
    refine List.mem_flatMap.mpr ⟨s, List.mem_filter.mpr ⟨hs, by simp [hplans.1]⟩, ?_⟩
    refine List.mem_flatMap.mpr ⟨mr, List.mem_filter.mpr ⟨hmr, ?_⟩, ?_⟩
    · simp [hcycle, hweek, hteaches.1, hplans.2]
    · refine List.mem_map.mpr ⟨mrc, List.mem_filter.mpr ⟨hmrc, ?_⟩, ?_⟩
      · simp [hrequest, hcourse, hteaches.2, hlong]
      · rw [hteaches.1, hteaches.2, hplans.2]

/-- The distributions after the flags of a week of a syllabus have been set. -/
theorem mem_setGeneratedIn {db : SyllabusState} {syllabusId : Uuid} {weekNumber : ℕ}
    {d : DistributionFlag} :
    d ∈ (setGeneratedIn syllabusId weekNumber db).distributions.rows ↔
      ∃ sd ∈ db.distributions.rows,
        (if plans syllabusId weekNumber sd then { sd with isGenerated := true } else sd) = d :=
  List.mem_map

/-- A distribution without its flag has been one, and is not of the week that is set. -/
theorem of_mem_setGeneratedIn {db : SyllabusState} {syllabusId : Uuid} {weekNumber : ℕ}
    {d : DistributionFlag} (hd : d ∈ (setGeneratedIn syllabusId weekNumber db).distributions.rows)
    (hflag : d.isGenerated = false) :
    d ∈ db.distributions.rows ∧ ¬plans syllabusId weekNumber d = true := by
  obtain ⟨sd, hsd, rfl⟩ := mem_setGeneratedIn.mp hd
  split at hflag
  · cases hflag
  · rename_i hset
    rw [if_neg hset]
    exact ⟨hsd, hset⟩

/-- Setting the flags of one syllabus leaves the others as they were missed. -/
theorem missed_setGeneratedIn {db : SyllabusState} {week : StuckSyllabusWeek} {s t : Syllabus}
    (hs : s ∈ db.syllabuses.rows) :
    (setGeneratedIn s.id week.weekNumber db).Missed week t ↔ t ≠ s ∧ db.Missed week t := by
  constructor
  · rintro ⟨ht, hteaches, d, hd, hplans, hflag⟩
    obtain ⟨hrow, hset⟩ := of_mem_setGeneratedIn hd hflag
    refine ⟨?_, ht, hteaches, d, hrow, hplans, hflag⟩
    rintro rfl
    exact hset hplans
  · rintro ⟨hne, ht, hteaches, sd, hsd, hplans, hflag⟩
    have hset : ¬plans s.id week.weekNumber sd = true := by
      intro hset
      simp only [plans, Bool.and_eq_true, beq_iff_eq] at hset hplans
      have hkey : key t = key s := hplans.1.symm.trans hset.1
      exact hne (Table.eq_of_key_eq ht hs hkey)
    exact ⟨ht, hteaches, sd, mem_setGeneratedIn.mpr ⟨sd, hsd, if_neg hset⟩, hplans, hflag⟩

/-- The listener finds a syllabus of the cycle and the course. -/
theorem of_findOne {db : SyllabusState} {scan : RowScan Syllabus} {week : StuckSyllabusWeek}
    {s : Syllabus} (h : db.findOne scan week = some s) :
    s ∈ db.syllabuses.rows ∧ week.teaches s = true :=
  ⟨(scan.perm _).mem_iff.mp (List.mem_of_find?_eq_some h), List.find?_some h⟩

/-- A week that the listener has marked is no longer one that the query matches. -/
def Clears (scan : RowScan Syllabus) (week : StuckSyllabusWeek) (now : ℕ) (db : SyllabusState) :
    Prop :=
  (markWeekGenerated scan week db).1 = true →
    week ∉ (markWeekGenerated scan week db).2.stuckWeeks now

/-- The syllabus that the listener finds has no distribution of the week, or there is none. -/
def NothingToMark (scan : RowScan Syllabus) (week : StuckSyllabusWeek) (db : SyllabusState) :
    Prop :=
  ∀ s, db.findOne scan week = some s →
    ∀ sd ∈ db.distributions.rows, plans s.id week.weekNumber sd = false

/-- Every syllabus of the cycle and the course that was missed is the one that the listener
finds. -/
def MissedOnlyThere (scan : RowScan Syllabus) (week : StuckSyllabusWeek) (db : SyllabusState) :
    Prop :=
  ∀ s, db.Missed week s → db.findOne scan week = some s

/-- The listener answers whether it has met a row. -/
theorem markWeekGenerated_eq_false {scan : RowScan Syllabus} {week : StuckSyllabusWeek}
    {db : SyllabusState} :
    (markWeekGenerated scan week db).1 = false ↔ NothingToMark scan week db := by
  unfold NothingToMark
  cases hfound : db.findOne scan week with
  | none => simp [markWeekGenerated, hfound]
  | some s => simp [markWeekGenerated, hfound]

/-- What is missed after a mark was missed before it, and not by the syllabus that is found. -/
theorem missed_markWeekGenerated {scan : RowScan Syllabus} {week : StuckSyllabusWeek}
    {db : SyllabusState} {t : Syllabus} :
    (markWeekGenerated scan week db).2.Missed week t ↔
      db.findOne scan week ≠ some t ∧ db.Missed week t := by
  cases hfound : db.findOne scan week with
  | none => simp [markWeekGenerated, hfound]
  | some s =>
    obtain ⟨hs, -⟩ := of_findOne hfound
    have hafter : (markWeekGenerated scan week db).2 = setGeneratedIn s.id week.weekNumber db := by
      simp [markWeekGenerated, hfound]
    rw [hafter, missed_setGeneratedIn hs]
    refine and_congr_left fun _ => not_congr ?_
    constructor
    · rintro rfl
      rfl
    · intro heq
      exact (Option.some.inj heq).symm

/-- A mark changes neither the syllabi nor the requests. -/
theorem markWeekGenerated_keeps (scan : RowScan Syllabus) (week : StuckSyllabusWeek)
    (db : SyllabusState) :
    (markWeekGenerated scan week db).2.syllabuses = db.syllabuses ∧
      (markWeekGenerated scan week db).2.materials = db.materials := by
  unfold markWeekGenerated
  split
  · exact ⟨rfl, rfl⟩
  · exact ⟨rfl, rfl⟩

/-- **A marked week stays stuck exactly when another syllabus of the cycle and the course was missed
as well**, while the material of the week is complete for longer than the threshold. -/
theorem clears_iff (scan : RowScan Syllabus) (week : StuckSyllabusWeek) (now : ℕ)
    (db : SyllabusState) : Clears scan week now db ↔
      NothingToMark scan week db ∨ ¬db.Completed now week ∨ MissedOnlyThere scan week db := by
  have hcompleted : (markWeekGenerated scan week db).2.Completed now week ↔
      db.Completed now week := by
    unfold SyllabusState.Completed
    rw [(markWeekGenerated_keeps scan week db).2]
  have hthere : (∃ t, (markWeekGenerated scan week db).2.Missed week t) ↔
      ¬MissedOnlyThere scan week db := by
    unfold MissedOnlyThere
    push Not
    refine exists_congr fun t => ?_
    rw [missed_markWeekGenerated]
    exact and_comm
  unfold Clears
  rw [mem_stuckWeeks, hcompleted, hthere, ← markWeekGenerated_eq_false]
  cases (markWeekGenerated scan week db).1 with
  | false => simp
  | true =>
    constructor
    · intro hclear
      by_cases hdone : db.Completed now week
      · exact Or.inr (Or.inr (not_not.mp fun hmissed => hclear rfl ⟨hdone, hmissed⟩))
      · exact Or.inr (Or.inl hdone)
    · rintro (hnothing | hundone | hmissed) - ⟨hdone, hnot⟩
      · cases hnothing
      · exact hundone hdone
      · exact hnot hmissed

/-- Setting flags never makes a syllabus missed. -/
theorem missed_of_mark {scan : RowScan Syllabus} {week other : StuckSyllabusWeek}
    {db : SyllabusState} {t : Syllabus}
    (h : (markWeekGenerated scan other db).2.Missed week t) : db.Missed week t := by
  unfold markWeekGenerated at h
  split at h
  · exact h
  · obtain ⟨ht, hteaches, d, hd, hplans, hflag⟩ := h
    obtain ⟨hrow, -⟩ := of_mem_setGeneratedIn hd hflag
    exact ⟨ht, hteaches, d, hrow, hplans, hflag⟩

/-- **Step lemma:** marking a week leaves the weeks alone whose syllabi are all found. -/
theorem missedOnlyThere_of_mark {scan : RowScan Syllabus} {week other : StuckSyllabusWeek}
    {db : SyllabusState} (hthere : MissedOnlyThere scan week db) :
    MissedOnlyThere scan week (markWeekGenerated scan other db).2 := by
  intro s hmissed
  have hfound := hthere s (missed_of_mark hmissed)
  unfold SyllabusState.findOne
  rw [(markWeekGenerated_keeps scan other db).1]
  exact hfound

/-- The loop never makes a syllabus missed. -/
theorem missed_of_recover {i : SyllabusSweepInputs} (weeks : List StuckSyllabusWeek)
    {db : SyllabusState} {week : StuckSyllabusWeek} {t : Syllabus}
    (h : (i.recover weeks db).2.Missed week t) : db.Missed week t := by
  induction weeks generalizing db with
  | nil => exact h
  | cons w weeks ih =>
    unfold SyllabusSweepInputs.recover at h
    split at h
    · exact ih h
    · exact missed_of_mark (ih h)

/-- **Run lemma:** a week that the loop counts as recovered is not selected again, when all its
syllabi that were missed are the one that the listener finds. -/
theorem notMem_of_recover {i : SyllabusSweepInputs} (weeks : List StuckSyllabusWeek)
    {db : SyllabusState} {week : StuckSyllabusWeek}
    (hthere : MissedOnlyThere i.syllabuses week db) (hrecovered : week ∈ (i.recover weeks db).1)
    (now : ℕ) : week ∉ (i.recover weeks db).2.stuckWeeks now := by
  induction weeks generalizing db with
  | nil => exact absurd hrecovered List.not_mem_nil
  | cons w weeks ih =>
    have hmarked : MissedOnlyThere i.syllabuses week (markWeekGenerated i.syllabuses w db).2 :=
      missedOnlyThere_of_mark hthere
    unfold SyllabusSweepInputs.recover at hrecovered ⊢
    split at hrecovered
    · rename_i hfails
      rw [if_pos hfails]
      exact ih hthere hrecovered
    · rename_i hfails
      rw [if_neg hfails]
      by_cases hrest : week ∈ (i.recover weeks (markWeekGenerated i.syllabuses w db).2).1
      · exact ih hmarked hrest
      · have hself : week = w := by
          dsimp only at hrecovered
          split at hrecovered
          · rcases List.mem_cons.mp hrecovered with heq | hmem
            · exact heq
            · exact absurd hmem hrest
          · exact absurd hrecovered hrest
        intro hstuck
        obtain ⟨-, t, hmissed⟩ := mem_stuckWeeks.mp hstuck
        have hbefore := missed_of_recover weeks hmissed
        rw [← hself] at hbefore
        obtain ⟨hnot, hmissed⟩ := missed_markWeekGenerated.mp hbefore
        exact hnot (hthere t hmissed)

/-- The sweep makes progress on the weeks whose syllabi it finds: none of those that it counts as
recovered is selected by the next query. -/
theorem notMem_of_sweep {i : SyllabusSweepInputs} {db : SyllabusState} {week : StuckSyllabusWeek}
    (hthere : MissedOnlyThere i.syllabuses week db)
    (hrecovered : week ∈ (sweepStuckSyllabusDistributions i db).1) (now : ℕ) :
    week ∉ (sweepStuckSyllabusDistributions i db).2.stuckWeeks now :=
  notMem_of_recover (i.staleWeeks db) hthere hrecovered now

/-- The syllabi are found in the order of the table. -/
def RowScan.sequential {ρ : Type} : RowScan ρ := ⟨fun rows => rows, fun rows => .refl rows⟩

/-- The third week of the course 7. -/
def thirdWeek : StuckSyllabusWeek := ⟨1, 7, 3⟩

/-- A course with an archived and an active syllabus. The material of its third week has been
complete for a long time. -/
def archivedAndActive : SyllabusState where
  syllabuses := (Table.empty.insert ⟨1, 7, 1, false⟩).insert ⟨2, 7, 1, true⟩
  distributions := (Table.empty.insert ⟨11, 1, 3, false⟩).insert ⟨12, 2, 3, false⟩
  materials :=
    { emptyTenant ⟨[], [], [], [], []⟩ with
      requests := Table.empty.insert
        { id := 1, profileId := 1, cycleId := 1, weekNumber := 3, status := .completed,
          requiresReview := false, materialType := "WEEKLY", designTemplateId := none,
          materialId := some 1, mergedDownloadUrl := none, mergedKeyDownloadUrl := none,
          mergedSolutionDownloadUrl := none, version := 1 }
      courses := Table.empty.insert
        { id := 1, materialRequestId := 1, courseId := 7, status := .completed,
          downloadUrl := none, keyDownloadUrl := none, solutionDownloadUrl := none,
          warnings := none, pageCount := none, fileSizeBytes := none, completedAt := some 0 } }

/-- The listener marks the archived syllabus, and the query keeps matching the active one. -/
theorem not_clears : ¬∀ (scan : RowScan Syllabus) (week : StuckSyllabusWeek) (now : ℕ)
    (db : SyllabusState), Clears scan week now db := by
  intro hall
  have hclear := hall .sequential thirdWeek (10 * minute) archivedAndActive
  have hmarked : (markWeekGenerated .sequential thirdWeek archivedAndActive).1 = true := by
    decide +kernel
  refine hclear hmarked ?_
  decide +kernel

end Odiseo.Materials
