import Odiseo.Syllabi.CloneExact

/-!
# Archived syllabi in the clone of a cycle

The clone of a cycle lists the syllabi of both cycles, archived ones among them, and then clones
each one with the call for single syllabi, which finds only the active ones. Here it is compared
with a clone that lists the active syllabi only.
-/

namespace Odiseo.Syllabi

open Database

/-- The active syllabi of a cycle. -/
def Db.activeOf (db : Db) (cycleId : Uuid) : List Syllabus :=
  db.syllabuses.filter fun s => s.cycleId == cycleId && s.isActive

/-- The clone of a cycle as it is meant: each active syllabus of the source cycle is cloned into the
active syllabus of its course in the target cycle, and into a new one where there is none. -/
def cloneActiveSyllabuses (normalize : String → String) (targetCycleId sourceCycleId : Uuid)
    (ids : CloneIds) : Tx ℕ := do
  let sources ← Program.select fun v => v.activeOf sourceCycleId
  let targetActiveWeeks ← getActiveWeekNumbers targetCycleId
  let targets ← Program.select fun v => v.activeOf targetCycleId
  cloneEach normalize ids targetCycleId targetActiveWeeks targets 0 sources
  pure sources.length

/-- No cycle has two active syllabi of one course. -/
def Db.OneActive (db : Db) : Prop :=
  ∀ s ∈ db.syllabuses.rows, ∀ t ∈ db.syllabuses.rows, s.isActive = true → t.isActive = true →
    s.cycleId = t.cycleId → s.courseId = t.courseId → s = t

/-- Archived syllabi stay as they are, with their cells. -/
structure LeavesArchived (db db' : Db) : Prop where
  rows : ∀ s ∈ db.syllabuses.rows, s.isActive = false → s ∈ db'.syllabuses.rows
  cells : ∀ s ∈ db.syllabuses.rows, s.isActive = false → db'.cellsOf s.id = db.cellsOf s.id

/-- **The clone of a cycle ignores archived syllabi**: where the clone of the active syllabi
succeeds, it succeeds as well and does the same, and the archived syllabi stay as they are. -/
def IgnoresArchived (normalize : String → String) (db : Db) (targetCycleId sourceCycleId : Uuid)
    (ids : CloneIds) : Prop :=
  ∀ out db' jobs,
    (cloneActiveSyllabuses normalize targetCycleId sourceCycleId ids).run db =
        .ok (out, db', jobs) →
      (cloneCycleSyllabuses normalize targetCycleId sourceCycleId ids).run db =
          .ok (out, db', jobs) ∧
        LeavesArchived db db'

/-- The single clones of the active syllabi all succeed. -/
def ActiveClonesSucceed (normalize : String → String) (db : Db) (targetCycleId sourceCycleId : Uuid)
    (ids : CloneIds) : Prop :=
  ∃ out, (cloneActiveSyllabuses normalize targetCycleId sourceCycleId ids).run db = .ok out

/-- The clone of a cycle meets no archived syllabus: the source cycle has syllabi, none of them is
archived, and the one that is chosen for the course of each in the target cycle is not either. -/
structure MeetsNoArchived (db : Db) (targetCycleId sourceCycleId : Uuid) : Prop where
  some_source : db.syllabuses.filter (·.cycleId == sourceCycleId) ≠ []
  sources : ∀ s ∈ db.syllabuses.filter (·.cycleId == sourceCycleId), s.isActive = true
  targets : ∀ s ∈ db.syllabuses.filter (·.cycleId == sourceCycleId), ∀ t,
    existingTarget (db.syllabuses.filter (·.cycleId == targetCycleId)) s.courseId = some t →
      t.isActive = true

section Leaving

variable {normalize : String → String} {db db' db'' : Db}

/-- What leaves archived syllabi as they are can be followed by more of it. -/
theorem LeavesArchived.trans (h : LeavesArchived db db') (h' : LeavesArchived db' db'') :
    LeavesArchived db db'' where
  rows s hs harchived := h'.rows s (h.rows s hs harchived) harchived
  cells s hs harchived :=
    (h'.cells s (h.rows s hs harchived) harchived).trans (h.cells s hs harchived)

/-- An archived syllabus is not the active one that a clone writes to. -/
theorem ne_of_archived {s target : Syllabus} (hs : s ∈ db.syllabuses.rows)
    (harchived : s.isActive = false) (htarget : target ∈ db.syllabuses.rows)
    (hactive : target.isActive = true) : s.id ≠ target.id := by
  intro hid
  have hsame : s = target := Table.eq_of_key_eq hs htarget hid
  rw [hsame, hactive] at harchived
  cases harchived

/-- A new syllabus leaves the archived ones as they are. -/
theorem leavesArchived_insertSyllabusIn {s : Syllabus} (hfree : syllabusRefusal s db = none) :
    LeavesArchived db (insertSyllabusIn s db) where
  rows _ ht _ := (mem_insertSyllabusIn hfree).mpr (Or.inl ht)
  cells _ _ _ := rfl

/-- The template of an active syllabus leaves the archived ones as they are. -/
theorem leavesArchived_withDefaultTemplate {source target : Syllabus}
    {templateMap : List (Uuid × Option Uuid)} (htarget : target ∈ db.syllabuses.rows)
    (hactive : target.isActive = true) :
    LeavesArchived db (withDefaultTemplate source target templateMap db) := by
  constructor
  · intro s hs harchived
    unfold withDefaultTemplate
    split
    · exact hs
    · exact List.mem_map.mpr ⟨s, hs, if_neg (ne_of_archived hs harchived htarget hactive)⟩
  · intro s _ _
    unfold Db.cellsOf
    rw [withDefaultTemplate_distributions]

/-- **A single clone** leaves the archived syllabi as they are. -/
theorem leavesArchived_of_run_cloneSyllabus {syllabusId sourceSyllabusId : Uuid}
    {targetActiveWeeks : Option (List ℕ)} {rowIds : ℕ → Uuid} {out : List SyllabusDistribution}
    {jobs : List Empty} (h : (cloneSyllabus normalize syllabusId sourceSyllabusId targetActiveWeeks
      rowIds).run db = .ok (out, db', jobs)) : LeavesArchived db db' := by
  obtain ⟨target, source, hfound, -, houtcome⟩ := of_run_cloneSyllabus h
  obtain ⟨hfind, hactive⟩ := Option.filter_eq_some_iff.mp hfound
  have htarget : target ∈ db.syllabuses.rows := Table.mem_of_find hfind
  cases houtcome with
  | @copied templateMap hmap hlimit haccepts distributions hrows jobs =>
    have hcopied : LeavesArchived db { db with distributions } := by
      refine ⟨fun s hs _ => hs, fun s hs harchived => ?_⟩
      have hne := ne_of_archived hs harchived htarget hactive
      unfold Db.cellsOf Table.filter
      dsimp only
      rw [hrows, List.filter_append, List.filter_filter]
      have hnew : (db.clonedRows source target templateMap
          (targetActiveWeeks.getD (db.activeWeeks target.cycleId)) rowIds).filter
            (·.syllabusId == s.id) = [] := by
        refine List.filter_eq_nil_iff.mpr fun d hd => ?_
        rw [(syllabusId_of_mem_clonedRows hd).1]
        simpa using hne.symm
      rw [hnew, List.append_nil]
      refine List.filter_congr fun d _ => ?_
      by_cases hown : d.syllabusId = s.id
      · simp [hown, hne]
      · simp [hown]
    exact hcopied.trans (leavesArchived_withDefaultTemplate htarget hactive)

/-- Finding a target leaves the archived syllabi as they are. -/
theorem leavesArchived_of_run_targetOf {existingTargets : List Syllabus}
    {targetCycleId id out : Uuid} {source : Syllabus} {jobs : List Empty}
    (h : (targetOf existingTargets targetCycleId source id).run db = .ok (out, db', jobs)) :
    LeavesArchived db db' := by
  unfold targetOf at h
  split at h
  · cases h
    exact ⟨fun _ hs _ => hs, fun _ _ _ => rfl⟩
  · obtain ⟨_, db₁, _, _, hinsert, hdone, _⟩ := Program.of_run_bind h
    cases hdone
    obtain ⟨hfree, rfl⟩ := of_run_createSyllabus hinsert
    exact leavesArchived_insertSyllabusIn hfree

/-- An archived syllabus is found by no single clone. -/
theorem ne_of_run_cloneSyllabus {s : Syllabus} (hs : s ∈ db.syllabuses.rows)
    (harchived : s.isActive = false) {syllabusId sourceSyllabusId : Uuid}
    {targetActiveWeeks : Option (List ℕ)} {rowIds : ℕ → Uuid} {out : List SyllabusDistribution}
    {jobs : List Empty} (h : (cloneSyllabus normalize syllabusId sourceSyllabusId targetActiveWeeks
      rowIds).run db = .ok (out, db', jobs)) : syllabusId ≠ s.id ∧ sourceSyllabusId ≠ s.id := by
  obtain ⟨target, source, htarget, hsource, -⟩ := of_run_cloneSyllabus h
  have hnone : (db.syllabuses.find s.id).filter (·.isActive) = none := by
    have hown : db.syllabuses.find s.id = some s := Table.find_of_mem hs
    rw [hown, Option.filter_some, if_neg (by simp [harchived])]
  constructor
  · rintro rfl
    rw [hnone] at htarget
    cases htarget
  · rintro rfl
    rw [hnone] at hsource
    cases hsource

/-- **The loop over the sources** that is not refused leaves the archived syllabi as they are, and
none of them is a source or the target for one. -/
theorem of_run_cloneEach {ids : CloneIds} {targetCycleId : Uuid} {targetActiveWeeks : List ℕ}
    {existingTargets sources : List Syllabus} {i : ℕ} {jobs : List Empty}
    (h : (cloneEach normalize ids targetCycleId targetActiveWeeks existingTargets i sources).run
      db = .ok ((), db', jobs)) :
    LeavesArchived db db' ∧ ∀ s ∈ db.syllabuses.rows, s.isActive = false → ∀ source ∈ sources,
      source.id ≠ s.id ∧
        ∀ t, existingTarget existingTargets source.courseId = some t → t.id ≠ s.id := by
  induction sources generalizing db i jobs with
  | nil =>
    cases h
    exact ⟨⟨fun _ hs _ => hs, fun _ _ _ => rfl⟩, fun _ _ _ _ hsource => by cases hsource⟩
  | cons source sources ih =>
    obtain ⟨targetSyllabusId, db₁, _, _, htarget, h₁, -⟩ := Program.of_run_bind h
    obtain ⟨out, db₂, _, _, hclone, h₂, -⟩ := Program.of_run_bind h₁
    have hfirst := leavesArchived_of_run_targetOf htarget
    have hsecond := hfirst.trans (leavesArchived_of_run_cloneSyllabus hclone)
    obtain ⟨hrest, hothers⟩ := ih h₂
    refine ⟨hsecond.trans hrest, fun s hs harchived => ?_⟩
    refine List.forall_mem_cons.mpr ⟨?_, hothers s (hsecond.rows s hs harchived) harchived⟩
    obtain ⟨hne, hne'⟩ := ne_of_run_cloneSyllabus (hfirst.rows s hs harchived) harchived hclone
    refine ⟨hne', fun t ht => ?_⟩
    have hid : targetSyllabusId = t.id := by
      unfold targetOf at htarget
      rw [ht] at htarget
      cases htarget
      rfl
    rwa [← hid]

end Leaving

section Agreement

variable {normalize : String → String} {db : Db} {targetCycleId sourceCycleId : Uuid}
  {ids : CloneIds}

/-- The loop asks its list of targets for the courses of the sources only. -/
theorem cloneEach_congr {targetActiveWeeks : List ℕ} {existingTargets activeTargets : List Syllabus}
    {sources : List Syllabus} (hsame : ∀ s ∈ sources,
      existingTarget existingTargets s.courseId = existingTarget activeTargets s.courseId) (i : ℕ) :
    cloneEach normalize ids targetCycleId targetActiveWeeks existingTargets i sources =
      cloneEach normalize ids targetCycleId targetActiveWeeks activeTargets i sources := by
  induction sources generalizing i with
  | nil => rfl
  | cons source sources ih =>
    obtain ⟨hfirst, hrest⟩ := List.forall_mem_cons.mp hsame
    unfold cloneEach targetOf
    rw [hfirst]
    simp only [ih hrest]

/-- The active syllabi are those among all of the cycle. -/
theorem activeOf_eq (db : Db) (cycleId : Uuid) :
    db.activeOf cycleId = (db.syllabuses.filter (·.cycleId == cycleId)).filter (·.isActive) := by
  unfold Db.activeOf Table.filter
  rw [List.filter_filter]
  exact List.filter_congr fun s _ => Bool.and_comm _ _

/-- When the last syllabus of a course is active, it is the last one among the active ones too. -/
theorem existingTarget_filter_active {listed : List Syllabus} {courseId : CatalogId}
    (hactive : ∀ t, existingTarget listed courseId = some t → t.isActive = true) :
    existingTarget (listed.filter (·.isActive)) courseId = existingTarget listed courseId := by
  unfold existingTarget at hactive ⊢
  rw [← List.filter_reverse]
  generalize listed.reverse = rows at hactive ⊢
  generalize (fun s : Syllabus => s.courseId == courseId) = ofCourse at hactive ⊢
  induction rows with
  | nil => rfl
  | cons t rows ih =>
    by_cases hcourse : ofCourse t = true
    · have hfirst : t.isActive = true := hactive t (List.find?_cons_of_pos hcourse)
      rw [List.filter_cons_of_pos hfirst, List.find?_cons_of_pos hcourse,
        List.find?_cons_of_pos hcourse]
    · rw [List.find?_cons_of_neg hcourse] at hactive ⊢
      cases hflag : t.isActive with
      | true =>
        rw [List.filter_cons_of_pos hflag, List.find?_cons_of_neg hcourse]
        exact ih hactive
      | false =>
        rw [List.filter_cons_of_neg (by simp [hflag])]
        exact ih hactive

/-- Where it meets no archived syllabus, the clone of a cycle is the clone of the active syllabi. -/
theorem run_cloneCycleSyllabuses_of_meetsNoArchived
    (hmeets : MeetsNoArchived db targetCycleId sourceCycleId) :
    (cloneCycleSyllabuses normalize targetCycleId sourceCycleId ids).run db =
      (cloneActiveSyllabuses normalize targetCycleId sourceCycleId ids).run db := by
  have hsources : db.activeOf sourceCycleId =
      db.syllabuses.filter (·.cycleId == sourceCycleId) := by
    rw [activeOf_eq]
    exact List.filter_eq_self.mpr hmeets.sources
  have htargets : ∀ s ∈ db.syllabuses.filter (·.cycleId == sourceCycleId),
      existingTarget (db.syllabuses.filter (·.cycleId == targetCycleId)) s.courseId =
        existingTarget (db.activeOf targetCycleId) s.courseId := by
    intro s hs
    rw [activeOf_eq]
    exact (existingTarget_filter_active (hmeets.targets s hs)).symm
  have hsome : (db.syllabuses.filter (·.cycleId == sourceCycleId)).isEmpty = false := by
    simpa using hmeets.some_source
  unfold cloneCycleSyllabuses cloneActiveSyllabuses findByCycle getActiveWeekNumbers
  simp only [Program.bind_eq, Program.run_select_bind, hsome, hsources, Bool.false_eq_true,
    if_false, cloneEach_congr htargets]

/-- The clone of a cycle that succeeds meets no archived syllabus. -/
theorem meetsNoArchived_of_run_cloneCycleSyllabuses {out : ℕ} {db' : Db} {jobs : List Empty}
    (h : (cloneCycleSyllabuses normalize targetCycleId sourceCycleId ids).run db =
      .ok (out, db', jobs)) : MeetsNoArchived db targetCycleId sourceCycleId := by
  unfold cloneCycleSyllabuses findByCycle getActiveWeekNumbers at h
  simp only [Program.bind_eq, Program.run_select_bind] at h
  split at h
  · cases h
  · rename_i hsome
    simp only [Program.run_select_bind] at h
    obtain ⟨_, _, _, more, heach, -, _⟩ := Program.of_run_bind h
    obtain ⟨-, hnone⟩ := of_run_cloneEach heach
    refine ⟨by simpa using hsome, fun s hs => ?_, fun s hs t ht => ?_⟩
    · by_contra harchived
      exact (hnone s (List.mem_filter.mp hs).1 (by simpa using harchived) s hs).1 rfl
    · have hlisted := List.mem_reverse.mp (List.mem_of_find?_eq_some ht)
      by_contra harchived
      exact (hnone t (List.mem_filter.mp hlisted).1 (by simpa using harchived) s hs).2 t ht rfl

/-- The clone of the active syllabi leaves the archived ones as they are. -/
theorem leavesArchived_of_run_cloneActiveSyllabuses {out : ℕ} {db' : Db} {jobs : List Empty}
    (h : (cloneActiveSyllabuses normalize targetCycleId sourceCycleId ids).run db =
      .ok (out, db', jobs)) : LeavesArchived db db' := by
  unfold cloneActiveSyllabuses getActiveWeekNumbers at h
  simp only [Program.bind_eq, Program.run_select_bind] at h
  obtain ⟨_, _, _, _, heach, hdone, _⟩ := Program.of_run_bind h
  cases hdone
  exact (of_run_cloneEach heach).1

/-- **When archived syllabi are ignored**: exactly when the clone of the cycle meets none, given
that the active ones can be cloned. -/
theorem ignoresArchived_iff
    (hactive : ActiveClonesSucceed normalize db targetCycleId sourceCycleId ids) :
    IgnoresArchived normalize db targetCycleId sourceCycleId ids ↔
      MeetsNoArchived db targetCycleId sourceCycleId := by
  constructor
  · intro hignores
    obtain ⟨⟨out, db', jobs⟩, hrun⟩ := hactive
    exact meetsNoArchived_of_run_cloneCycleSyllabuses (hignores out db' jobs hrun).1
  · intro hmeets out db' jobs hrun
    refine ⟨?_, leavesArchived_of_run_cloneActiveSyllabuses hrun⟩
    rw [run_cloneCycleSyllabuses_of_meetsNoArchived hmeets]
    exact hrun

end Agreement

/-- Two cycles, of which the first has an active syllabus. -/
def noneArchived : Db where
  courses := [1, 2]
  cycles := (Table.empty.insert (cycleRow 1)).insert (cycleRow 2)
  weeks := (Table.empty.insert (firstWeek 1)).insert (firstWeek 2)
  templates := Table.empty
  syllabuses := Table.empty.insert (syllabusRow 1)
  distributions := Table.empty

/-- The first cycle has an archived syllabus of another course as well. -/
def archivedBeside : Db :=
  insertSyllabusIn { syllabusRow 1 with id := 3, courseId := 2, isActive := false } noneArchived

/-- The identifiers of the new rows. -/
def drawnIds : CloneIds where
  syllabus i := 100 + i
  row i j := 1000 + 100 * i + j

/-- The active syllabus alone is cloned. -/
theorem ignoresArchived_noneArchived :
    ActiveClonesSucceed id noneArchived 2 1 drawnIds ∧
      IgnoresArchived id noneArchived 2 1 drawnIds := by
  have hsucceed : ActiveClonesSucceed id noneArchived 2 1 drawnIds := ⟨_, rfl⟩
  refine ⟨hsucceed, (ignoresArchived_iff hsucceed).mpr ⟨?_, ?_, ?_⟩⟩
  · decide +kernel
  · decide +kernel
  · intro s _ t ht
    cases ht

/-- With an archived syllabus beside it the clone of the cycle fails. -/
theorem not_ignoresArchived : ¬∀ (db : Db) (targetCycleId sourceCycleId : Uuid) (ids : CloneIds),
    db.OneActive → ActiveClonesSucceed id db targetCycleId sourceCycleId ids →
      IgnoresArchived id db targetCycleId sourceCycleId ids := by
  intro hall
  have hone : archivedBeside.OneActive := by
    unfold Db.OneActive
    decide +kernel
  have hignores := hall archivedBeside 2 1 drawnIds hone ⟨_, rfl⟩
  have hfails : (cloneCycleSyllabuses id 2 1 drawnIds).run archivedBeside =
      .error (.badRequest "Syllabus origen no encontrado.") := rfl
  have hsucceeds := (hignores _ _ _ rfl).1
  rw [hfails] at hsucceeds
  cases hsucceeds

end Odiseo.Syllabi
