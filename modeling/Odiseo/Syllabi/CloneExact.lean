import Odiseo.Syllabi.WeeklyLimit

/-!
# When a clone is exact

A clone copies the cells of the active weeks and gives each one the template of the same name. Names
need not be distinct, and a cell may carry a template of another cycle: then two copies meet in one
cell, or a cell is left out.
-/

namespace Odiseo.Syllabi

open Database

section Definitions

variable (normalize : String → String) (db : Db) (source target : Syllabus)

/-- A template that the source uses has no counterpart in a target cycle that has templates. -/
def Unmatched : Prop :=
  source.cycleId ≠ target.cycleId ∧ db.templatesOf target.cycleId ≠ [] ∧
    ∃ t ∈ db.templatesOf source.cycleId,
      t.id ∈ referencedTemplateIds source (db.cellsOf source.id) ∧
        ∀ t' ∈ db.templatesOf target.cycleId, normalize t'.name ≠ normalize t.name

/-- The clone is to copy a cell: its week is active in the target cycle, and it has no template, or
the target cycle has templates. -/
def eligible (d : SyllabusDistribution) : Bool :=
  (db.activeWeeks target.cycleId).contains d.weekNumber &&
    (d.templateId.isNone || source.cycleId == target.cycleId ||
      !(db.templatesOf target.cycleId).isEmpty)

/-- The template of a cell is known in the source cycle, where the cycles differ. -/
def ownTemplate (d : SyllabusDistribution) : Bool :=
  d.templateId.all fun id =>
    source.cycleId == target.cycleId || (db.templatesOf source.cycleId).any (·.id == id)

/-- The cells that the clone is to copy, and whose templates it knows. -/
def copyable : List SyllabusDistribution :=
  (db.cellsOf source.id).filter fun d => eligible db source target d && ownTemplate db source target d

/-- The template of a copy: that of the cell in the same cycle, and else one of the same name. -/
def TemplateOf (templateId copy : Option Uuid) : Prop :=
  match templateId with
  | none => copy = none
  | some id =>
    if source.cycleId = target.cycleId then copy = some id
    else ∃ t ∈ db.templates.rows, t.id = id ∧ ∃ t' ∈ db.templatesOf target.cycleId,
      normalize t'.name = normalize t.name ∧ copy = some t'.id

/-- One row is the copy of another one in the target. -/
structure CopyOf (d copy : SyllabusDistribution) : Prop where
  syllabusId : copy.syllabusId = target.id
  weekNumber : copy.weekNumber = d.weekNumber
  topicId : copy.topicId = d.topicId
  subtopicId : copy.subtopicId = d.subtopicId
  questionCount : copy.questionCount = d.questionCount
  template : TemplateOf normalize db source target d.templateId copy.templateId

/-- The template that the clone finds for a cell. -/
def counterpartId (templateId : Option Uuid) : Option Uuid :=
  templateId.bind fun id =>
    if source.cycleId = target.cycleId then some id
    else ((db.templatesOf source.cycleId).find? (·.id == id)).bind fun t =>
      (counterpart normalize (db.templatesOf target.cycleId) t).map (·.id)

/-- The copies of two cells are of different cells. -/
def Apart (d e : SyllabusDistribution) : Prop :=
  d.weekNumber ≠ e.weekNumber ∨ d.topicId ≠ e.topicId ∨ d.subtopicId ≠ e.subtopicId ∨
    counterpartId normalize db source target d.templateId ≠
      counterpartId normalize db source target e.templateId

end Definitions

/-- The two syllabi of a clone are there and active. -/
def Db.Finds (db : Db) (syllabusId sourceSyllabusId : Uuid) (target source : Syllabus) : Prop :=
  (db.syllabuses.find syllabusId).filter (·.isActive) = some target ∧
    (db.syllabuses.find sourceSyllabusId).filter (·.isActive) = some source

/-- A clone may be refused: a syllabus is missing or archived, a template is unmatched, or a week
would exceed the limit. -/
def Refusable (normalize : String → String) (db : Db) (syllabusId sourceSyllabusId : Uuid) : Prop :=
  (¬∃ target source, db.Finds syllabusId sourceSyllabusId target source) ∨
    ∃ target source, db.Finds syllabusId sourceSyllabusId target source ∧
      (Unmatched normalize db source target ∨ ∃ weekNumber, weeklyQuestionLimit <
        weekSum ((db.cellsOf source.id).filter (eligible db source target)) weekNumber)

/-- **The clone is exact**: it is refused only for a reason, with its message; a refusal leaves the
database as it was; and otherwise the cells of the target are one copy of each cell that is to be
copied. -/
structure ClonesExactly (setting : Setting) (db : Db) (syllabusId sourceSyllabusId : Uuid)
    (rowIds : ℕ → Uuid) : Prop where
  refused : ∀ e, Step.answer setting ⟨db, .whole (.cloneSyllabus syllabusId sourceSyllabusId
    rowIds)⟩ = .error e →
      (∃ message, e = .badRequest message) ∧
        Refusable setting.normalize db syllabusId sourceSyllabusId ∧
        Step.after setting ⟨db, .whole (.cloneSyllabus syllabusId sourceSyllabusId rowIds)⟩ = db
  copied : ∀ db' jobs, Step.answer setting ⟨db, .whole (.cloneSyllabus syllabusId sourceSyllabusId
    rowIds)⟩ = .ok ((), db', jobs) →
      ∃ target source, db.Finds syllabusId sourceSyllabusId target source ∧
        List.Forall₂ (CopyOf setting.normalize db source target)
          ((db.cellsOf source.id).filter (eligible db source target)) (db'.cellsOf target.id)

/-- The identifiers that a clone draws for its rows are distinct, and no row carries one of them. -/
def DrawsRowIds (db : Db) (rowIds : ℕ → Uuid) : Prop :=
  rowIds.Injective ∧ ∀ i, db.distributions.find (rowIds i) = none

/-- What the copies of a clone need: that it is refused before, or that the templates of all cells to
copy are known and the copies are of different cells. -/
def Copies (normalize : String → String) (db : Db) (source target : Syllabus) : Prop :=
  Unmatched normalize db source target ∨
    (∃ weekNumber, weeklyQuestionLimit < weekSum (copyable db source target) weekNumber) ∨
    ((∀ d ∈ db.cellsOf source.id, eligible db source target d = true →
        ownTemplate db source target d = true) ∧
      (copyable db source target).Pairwise (Apart normalize db source target))

section Mapping

variable {normalize : String → String} {db : Db} {source target : Syllabus}

/-- Looking a template up in a list of those that have been found. -/
theorem lookup_named {α : Type} (templates : List CycleMaterialTemplate)
    (g : CycleMaterialTemplate → α) (ids : List Uuid) (id : Uuid) :
    ((ids.filterMap fun i => templates.find? (·.id == i)).map fun t => (t.id, g t)).lookup id =
      if id ∈ ids then (templates.find? (·.id == id)).map g else none := by
  induction ids with
  | nil => rfl
  | cons i ids ih =>
    rw [List.filterMap_cons]
    cases hfind : templates.find? (·.id == i) with
    | none =>
      rw [ih]
      by_cases hid : id = i
      · rw [hid, if_pos List.mem_cons_self, hfind]
        split <;> rfl
      · simp only [List.mem_cons, hid, false_or]
    | some t =>
      have htid : t.id = i := by simpa using List.find?_some hfind
      rw [List.map_cons, List.lookup_cons, ih, htid]
      by_cases hid : id = i
      · rw [hid, if_pos List.mem_cons_self, hfind, beq_self_eq_true]
        rfl
      · have hne : (id == i) = false := by simpa using hid
        rw [hne]
        simp only [List.mem_cons, hid, false_or]

/-- The templates of a cycle that are matched have found their counterparts. -/
theorem lookup_matchTemplates {sourceTemplates targetTemplates : List CycleMaterialTemplate}
    {ids : List Uuid} {templateMap : List (Uuid × Option Uuid)}
    (h : matchTemplates normalize sourceTemplates targetTemplates ids = .ok templateMap) {id : Uuid}
    (hid : id ∈ ids) : templateMap.lookup id = (sourceTemplates.find? (·.id == id)).map fun t =>
      (counterpart normalize targetTemplates t).map (·.id) := by
  unfold matchTemplates at h
  dsimp only at h
  split at h
  · cases h
    rw [lookup_named, if_pos hid]
  · cases h

/-- Matching fails where a template has no counterpart, and nowhere else. -/
theorem matchTemplates_cases (normalize : String → String)
    (sourceTemplates targetTemplates : List CycleMaterialTemplate) (ids : List Uuid) :
    ((∃ message, matchTemplates normalize sourceTemplates targetTemplates ids =
        .error (.badRequest message)) ∧ ∃ id ∈ ids, ∃ t, sourceTemplates.find? (·.id == id) = some t ∧
          counterpart normalize targetTemplates t = none) ∨
      ((∃ templateMap, matchTemplates normalize sourceTemplates targetTemplates ids =
          .ok templateMap) ∧ ∀ id ∈ ids, ∀ t, sourceTemplates.find? (·.id == id) = some t →
            (counterpart normalize targetTemplates t).isSome) := by
  unfold matchTemplates
  dsimp only
  generalize hnamed : (ids.filterMap fun id => sourceTemplates.find? (·.id == id)) = named
  split
  · rename_i hnone
    refine Or.inr ⟨⟨_, rfl⟩, fun id hid t hfind => ?_⟩
    have hmem : t ∈ named := by
      rw [← hnamed]
      exact List.mem_filterMap.mpr ⟨id, hid, hfind⟩
    have hfound := List.filter_eq_nil_iff.mp (List.isEmpty_iff.mp hnone) t hmem
    simpa [Option.isSome_iff_ne_none] using hfound
  · rename_i hsome
    refine Or.inl ⟨⟨_, rfl⟩, ?_⟩
    obtain ⟨t, ht⟩ := List.exists_mem_of_ne_nil _ fun heq => hsome (List.isEmpty_iff.mpr heq)
    obtain ⟨hmem, hmissing⟩ := List.mem_filter.mp ht
    rw [← hnamed] at hmem
    obtain ⟨id, hid, hfind⟩ := List.mem_filterMap.mp hmem
    exact ⟨id, hid, t, hfind, Option.isNone_iff_eq_none.mp hmissing⟩

/-- No counterpart: all names of the target cycle are different. -/
theorem counterpart_eq_none {targetTemplates : List CycleMaterialTemplate}
    {t : CycleMaterialTemplate} : counterpart normalize targetTemplates t = none ↔
      ∀ t' ∈ targetTemplates, normalize t'.name ≠ normalize t.name := by
  unfold counterpart
  rw [List.find?_eq_none]
  simp only [beq_iff_eq, ne_eq]

/-- A template of a cycle is found by its identifier. -/
theorem find_templatesOf {cycleId : Uuid} {t : CycleMaterialTemplate}
    (ht : t ∈ db.templatesOf cycleId) :
    (db.templatesOf cycleId).find? (·.id == t.id) = some t := by
  cases hfind : (db.templatesOf cycleId).find? (·.id == t.id) with
  | none => exact absurd (beq_self_eq_true t.id) (List.find?_eq_none.mp hfind t ht)
  | some t' =>
    have hid : t'.id = t.id := by simpa using List.find?_some hfind
    have hmem := List.mem_of_find?_eq_some hfind
    have hsame : t' = t := Table.eq_of_key_eq (List.mem_filter.mp hmem).1
      (List.mem_filter.mp ht).1 hid
    rw [hsame]

/-- **The mapping of the templates** fails exactly when one of them is unmatched. -/
theorem templateMapping_cases (normalize : String → String) (db : Db) (source target : Syllabus) :
    ((∃ message, db.templateMapping normalize source target = .error (.badRequest message)) ∧
        Unmatched normalize db source target) ∨
      ((∃ templateMap, db.templateMapping normalize source target = .ok templateMap) ∧
        ¬Unmatched normalize db source target) := by
  unfold Db.templateMapping
  dsimp only
  by_cases hcycle : source.cycleId = target.cycleId
  · rw [if_pos hcycle]
    exact Or.inr ⟨⟨_, rfl⟩, fun hunmatched => hunmatched.1 hcycle⟩
  · rw [if_neg hcycle]
    by_cases hids : (referencedTemplateIds source (db.cellsOf source.id)).isEmpty = true
    · rw [if_pos hids]
      refine Or.inr ⟨⟨_, rfl⟩, ?_⟩
      rintro ⟨-, -, t, -, hmem, -⟩
      rw [List.isEmpty_iff.mp hids] at hmem
      cases hmem
    · rw [if_neg hids]
      by_cases htemplates : (db.templatesOf target.cycleId).isEmpty = true
      · rw [if_pos htemplates]
        exact Or.inr ⟨⟨_, rfl⟩, fun hunmatched =>
          hunmatched.2.1 (List.isEmpty_iff.mp htemplates)⟩
      · rw [if_neg htemplates]
        have hne : db.templatesOf target.cycleId ≠ [] := fun heq =>
          htemplates (List.isEmpty_iff.mpr heq)
        rcases matchTemplates_cases normalize (db.templatesOf source.cycleId)
          (db.templatesOf target.cycleId) (referencedTemplateIds source (db.cellsOf source.id)) with
          ⟨herror, id, hid, t, hfind, hnone⟩ | ⟨hok, hmatched⟩
        · have htid : t.id = id := by simpa using List.find?_some hfind
          exact Or.inl ⟨herror, hcycle, hne, t, List.mem_of_find?_eq_some hfind, htid ▸ hid,
            counterpart_eq_none.mp hnone⟩
        · refine Or.inr ⟨hok, ?_⟩
          rintro ⟨-, -, t, ht, hmem, hnames⟩
          have hsome := hmatched t.id hmem t (find_templatesOf ht)
          rw [counterpart_eq_none.mpr hnames] at hsome
          cases hsome

end Mapping

section Rows

variable {normalize : String → String} {db : Db} {source target : Syllabus}
  {templateMap : List (Uuid × Option Uuid)} {rowIds : ℕ → Uuid}

/-- The copy of a cell. -/
def copyRow (normalize : String → String) (db : Db) (source target : Syllabus) (rowIds : ℕ → Uuid)
    (row : SyllabusDistribution × ℕ) : SyllabusDistribution where
  id := rowIds row.2
  syllabusId := target.id
  templateId := counterpartId normalize db source target row.1.templateId
  weekNumber := row.1.weekNumber
  topicId := row.1.topicId
  subtopicId := row.1.subtopicId
  questionCount := row.1.questionCount

/-- A template of a cell is one of those that are matched. -/
theorem mem_referencedTemplateIds {d : SyllabusDistribution} {id : Uuid}
    (hd : d ∈ db.cellsOf source.id) (hid : d.templateId = some id) :
    id ∈ referencedTemplateIds source (db.cellsOf source.id) := by
  unfold referencedTemplateIds
  rw [List.mem_eraseDups, List.mem_append]
  exact Or.inr (List.mem_filterMap.mpr ⟨d, hd, hid⟩)

/-- **The template of a copy**: a cell is copied with the counterpart of its template, when the
template is known and the target cycle has templates. -/
theorem newTemplateId_eq (hmap : db.templateMapping normalize source target = .ok templateMap)
    {d : SyllabusDistribution} (hd : d ∈ db.cellsOf source.id) :
    newTemplateId source target templateMap d.templateId =
      if (d.templateId.isNone || source.cycleId == target.cycleId ||
          !(db.templatesOf target.cycleId).isEmpty) && ownTemplate db source target d then
        some (counterpartId normalize db source target d.templateId)
      else none := by
  unfold newTemplateId ownTemplate counterpartId
  cases htemplate : d.templateId with
  | none => rfl
  | some id =>
    have hid := mem_referencedTemplateIds hd htemplate
    have hunmatched : ¬Unmatched normalize db source target := by
      rcases templateMapping_cases normalize db source target with ⟨⟨_, herror⟩, -⟩ | ⟨-, hnot⟩
      · rw [hmap] at herror
        cases herror
      · exact hnot
    unfold Db.templateMapping at hmap
    dsimp only at hmap
    by_cases hcycle : source.cycleId = target.cycleId
    · rw [if_pos hcycle] at hmap
      cases hmap
      simp [hcycle]
    · have hids : (referencedTemplateIds source (db.cellsOf source.id)).isEmpty = false := by
        cases hempty : (referencedTemplateIds source (db.cellsOf source.id)).isEmpty with
        | true =>
          rw [List.isEmpty_iff.mp hempty] at hid
          cases hid
        | false => rfl
      rw [if_neg hcycle, hids, if_neg Bool.false_ne_true] at hmap
      cases htemplates : (db.templatesOf target.cycleId).isEmpty with
      | true =>
        rw [htemplates, if_pos rfl] at hmap
        cases hmap
        have hlookup : ∀ ids : List Uuid, id ∈ ids →
            (ids.map fun i => (i, (none : Option Uuid))).lookup id = some none := by
          intro ids hmem
          induction ids with
          | nil => cases hmem
          | cons i ids ih =>
            rw [List.map_cons, List.lookup_cons]
            by_cases hsame : id = i
            · rw [hsame, beq_self_eq_true]
            · have hne : (id == i) = false := by simpa using hsame
              rw [hne]
              exact ih ((List.mem_cons.mp hmem).resolve_left hsame)
        dsimp only
        rw [hlookup _ hid]
        simp [hcycle]
      | false =>
        rw [htemplates, if_neg Bool.false_ne_true] at hmap
        dsimp only
        rw [lookup_matchTemplates hmap hid]
        cases hfind : (db.templatesOf source.cycleId).find? (·.id == id) with
        | none =>
          have hown : (db.templatesOf source.cycleId).any (·.id == id) = false := by
            rw [List.any_eq_false]
            exact fun t ht => List.find?_eq_none.mp hfind t ht
          simp [hcycle, hown]
        | some t =>
          have htid : t.id = id := by simpa using List.find?_some hfind
          have ht := List.mem_of_find?_eq_some hfind
          have hown : (db.templatesOf source.cycleId).any (·.id == id) = true :=
            List.any_eq_true.mpr ⟨t, ht, by simpa using htid⟩
          cases hcounterpart : counterpart normalize (db.templatesOf target.cycleId) t with
          | none =>
            refine absurd ⟨hcycle, ?_, t, ht, htid ▸ hid, counterpart_eq_none.mp hcounterpart⟩
              hunmatched
            intro hempty
            rw [hempty] at htemplates
            cases htemplates
          | some t' => simp [hcycle, hown, hfind, hcounterpart]

/-- **The rows of a clone** are the copies of the cells that are to be copied and whose templates are
known. -/
theorem clonedRows_eq (hmap : db.templateMapping normalize source target = .ok templateMap) :
    db.clonedRows source target templateMap (db.activeWeeks target.cycleId) rowIds =
      (copyable db source target).zipIdx.map (copyRow normalize db source target rowIds) := by
  have hcopied : ∀ cells : List SyllabusDistribution, cells ⊆ db.cellsOf source.id →
      (cells.filterMap fun dist =>
        if (db.activeWeeks target.cycleId).contains dist.weekNumber then
          (newTemplateId source target templateMap dist.templateId).map fun templateId =>
            { dist with syllabusId := target.id, templateId }
        else none) =
      (cells.filter fun d => eligible db source target d && ownTemplate db source target d).map
        fun d => { d with syllabusId := target.id,
                          templateId := counterpartId normalize db source target d.templateId } := by
    intro cells hsub
    rw [← List.filterMap_eq_map, List.filterMap_filter]
    refine List.filterMap_congr fun d hd => ?_
    rw [newTemplateId_eq hmap (hsub hd)]
    unfold eligible
    cases (db.activeWeeks target.cycleId).contains d.weekNumber with
    | false => simp
    | true =>
      rw [Bool.true_and, if_pos rfl]
      split <;> rfl
  unfold Db.clonedRows distributionsToCreate
  dsimp only
  rw [hcopied _ fun _ => id, List.zipIdx_map, List.map_map]
  rfl

/-- The identifiers of the rows of a clone are the drawn ones. -/
theorem ids_clonedRows (rows : List SyllabusDistribution) :
    (rows.zipIdx.map (copyRow normalize db source target rowIds)).map (·.id) =
      (List.range rows.length).map rowIds := by
  rw [List.map_map, List.range_eq_range', ← List.zipIdx_map_snd 0 rows, List.map_map]
  rfl

/-- What does not look at identifiers holds of the copies as it does of the cells. -/
theorem pairwise_clonedRows {R : SyllabusDistribution → SyllabusDistribution → Prop}
    (rows : List SyllabusDistribution) (hR : ∀ d e i j,
      R (copyRow normalize db source target rowIds (d, i))
        (copyRow normalize db source target rowIds (e, j)) ↔ Apart normalize db source target d e) :
    (rows.zipIdx.map (copyRow normalize db source target rowIds)).Pairwise R ↔
      rows.Pairwise (Apart normalize db source target) := by
  rw [List.pairwise_map]
  conv_rhs => rw [← List.zipIdx_map_fst 0 rows, List.pairwise_map]
  exact List.Pairwise.iff fun (x y : SyllabusDistribution × ℕ) => hR x.1 y.1 x.2 y.2

/-- The copies of two cells share one exactly when they are not apart. -/
theorem sameCell_copyRow (d e : SyllabusDistribution) (i j : ℕ) :
    sameCell (copyRow normalize db source target rowIds (d, i))
        (copyRow normalize db source target rowIds (e, j)) = false ↔
      Apart normalize db source target d e := by
  unfold sameCell copyRow Apart
  simp only [beq_self_eq_true, Bool.true_and, Bool.and_eq_false_iff, beq_eq_false_iff_ne]
  constructor
  · rintro (((h | h) | h) | h)
    · exact Or.inr (Or.inr (Or.inr h))
    · exact Or.inl h
    · exact Or.inr (Or.inl h)
    · exact Or.inr (Or.inr (Or.inl h))
  · rintro (h | h | h | h)
    · exact Or.inl (Or.inl (Or.inr h))
    · exact Or.inl (Or.inr h)
    · exact Or.inr h
    · exact Or.inl (Or.inl (Or.inl h))

/-- **The database takes the copies** exactly when no two of them are of one cell. -/
theorem accepts_iff (hdraws : DrawsRowIds db rowIds)
    (htarget : (db.syllabuses.find target.id).isSome = true) (rows : List SyllabusDistribution) :
    Accepts (clearDistributionsIn target.id db)
        (rows.zipIdx.map (copyRow normalize db source target rowIds)) ↔
      rows.Pairwise (Apart normalize db source target) := by
  obtain ⟨hinjective, hfresh⟩ := hdraws
  constructor
  · exact fun haccepts => (pairwise_clonedRows rows sameCell_copyRow).mp haccepts.cells
  · intro hapart
    refine ⟨?_, (pairwise_clonedRows rows sameCell_copyRow).mpr hapart, fun d hd => ?_⟩
    · rw [ids_clonedRows]
      exact List.nodup_range.map hinjective
    · obtain ⟨⟨row, i⟩, -, rfl⟩ := List.mem_map.mp hd
      have hkept : ∀ e ∈ (clearDistributionsIn target.id db).distributions.rows,
          e ∈ db.distributions.rows ∧ e.syllabusId ≠ target.id := by
        intro e he
        obtain ⟨he, hother⟩ := List.mem_filter.mp he
        exact ⟨he, by simpa using hother⟩
      have hid : (clearDistributionsIn target.id db).distributions.find (rowIds i) = none :=
        Table.find_eq_none.mpr fun e he => Table.find_eq_none.mp (hfresh i) e (hkept e he).1
      have hcell : (clearDistributionsIn target.id db).distributions.rows.any
          (sameCell (copyRow normalize db source target rowIds (row, i))) = false := by
        rw [List.any_eq_false]
        intro e he hsame
        unfold sameCell copyRow at hsame
        simp only [Bool.and_eq_true, beq_iff_eq] at hsame
        exact (hkept e he).2 hsame.1.1.1.1.symm
      have hsyllabus : ((clearDistributionsIn target.id db).syllabuses.find target.id).isNone =
          false := by
        change (db.syllabuses.find target.id).isNone = false
        cases hfind : db.syllabuses.find target.id with
        | none =>
          rw [hfind] at htarget
          cases htarget
        | some s => rfl
      have hkeys : (copyRow normalize db source target rowIds (row, i)).id = rowIds i ∧
          (copyRow normalize db source target rowIds (row, i)).syllabusId = target.id := ⟨rfl, rfl⟩
      unfold distributionTaken
      rw [hcell, hkeys.1, hkeys.2, hid, hsyllabus]
      rfl

/-- The copies have the questions of the cells. -/
theorem weekSum_clonedRows (rows : List SyllabusDistribution) (weekNumber : ℕ) :
    weekSum (rows.zipIdx.map (copyRow normalize db source target rowIds)) weekNumber =
      weekSum rows weekNumber := by
  unfold weekSum
  conv_rhs => rw [← List.zipIdx_map_fst 0 rows]
  rw [List.filter_map, List.filter_map, List.map_map, List.map_map]
  rfl

/-- The questions of one cell. -/
theorem weekSum_cons (d : SyllabusDistribution) (rows : List SyllabusDistribution)
    (weekNumber : ℕ) : weekSum (d :: rows) weekNumber =
      (if d.weekNumber = weekNumber then d.questionCount else 0) + weekSum rows weekNumber := by
  unfold weekSum
  by_cases hweek : d.weekNumber = weekNumber
  · rw [List.filter_cons_of_pos (by simpa using hweek), if_pos hweek, List.map_cons, List.sum_cons]
  · rw [List.filter_cons_of_neg (by simpa using hweek), if_neg hweek, Nat.zero_add]

/-- Fewer cells have fewer questions. -/
theorem weekSum_filter_le (p : SyllabusDistribution → Bool) (rows : List SyllabusDistribution)
    (weekNumber : ℕ) : weekSum (rows.filter p) weekNumber ≤ weekSum rows weekNumber := by
  induction rows with
  | nil => exact Nat.le_refl _
  | cons d rows ih =>
    rw [List.filter_cons]
    split
    · rw [weekSum_cons, weekSum_cons]
      omega
    · rw [weekSum_cons]
      omega

/-- A clone is over the limit exactly when a week of its rows is. -/
theorem offendingWeeks_ne_nil_iff (rows : List SyllabusDistribution) :
    offendingWeeks rows ≠ [] ↔ ∃ weekNumber, weeklyQuestionLimit < weekSum rows weekNumber := by
  constructor
  · intro hne
    by_contra hnone
    push Not at hnone
    refine hne ?_
    unfold offendingWeeks
    rw [List.filter_eq_nil_iff.mpr fun n _ => by simpa using hnone n]
    rfl
  · rintro ⟨weekNumber, hover⟩ hnil
    exact Nat.not_lt.mpr (weekSum_le_of_offendingWeeks hnil weekNumber) hover

/-- A list and the rows that are made of its elements in their order. -/
theorem forall₂_zipIdx {α β : Type} {R : α → β → Prop} {f : α × ℕ → β} (xs : List α)
    (h : ∀ x ∈ xs, ∀ i, R x (f (x, i))) (k : ℕ) : List.Forall₂ R xs ((xs.zipIdx k).map f) := by
  induction xs generalizing k with
  | nil => exact .nil
  | cons x xs ih =>
    rw [List.zipIdx_cons, List.map_cons]
    exact .cons (h x List.mem_cons_self k)
      (ih (fun y hy => h y (List.mem_cons_of_mem x hy)) (k + 1))

/-- The template that a clone finds for a cell is that of the cell, or one of the same name. -/
theorem templateOf_counterpartId {templateId : Option Uuid}
    (hmatched : ¬Unmatched normalize db source target)
    (htemplates : templateId = none ∨ source.cycleId = target.cycleId ∨
      db.templatesOf target.cycleId ≠ [])
    (hreferenced : ∀ id, templateId = some id →
      id ∈ referencedTemplateIds source (db.cellsOf source.id))
    (hown : templateId.all (fun id => source.cycleId == target.cycleId ||
      (db.templatesOf source.cycleId).any (·.id == id)) = true) :
    TemplateOf normalize db source target templateId
      (counterpartId normalize db source target templateId) := by
  cases templateId with
  | none => rfl
  | some id =>
    unfold TemplateOf counterpartId
    dsimp only [Option.bind_some]
    by_cases hcycle : source.cycleId = target.cycleId
    · rw [if_pos hcycle, if_pos hcycle]
    · rw [if_neg hcycle, if_neg hcycle]
      have hany : (db.templatesOf source.cycleId).any (·.id == id) = true := by
        simpa [hcycle] using hown
      obtain ⟨t, ht, htid⟩ := List.any_eq_true.mp hany
      have htid' : t.id = id := by simpa using htid
      have hne : db.templatesOf target.cycleId ≠ [] := by
        rcases htemplates with hnone | hsame | hne
        · cases hnone
        · exact absurd hsame hcycle
        · exact hne
      rw [← htid', find_templatesOf ht]
      dsimp only [Option.bind_some]
      cases hcounterpart : counterpart normalize (db.templatesOf target.cycleId) t with
      | none =>
        refine absurd ⟨hcycle, hne, t, ht, ?_, counterpart_eq_none.mp hcounterpart⟩ hmatched
        exact htid' ▸ hreferenced id rfl
      | some t' =>
        have hname : normalize t'.name = normalize t.name := by
          unfold counterpart at hcounterpart
          simpa using List.find?_some hcounterpart
        have ht' : t' ∈ db.templatesOf target.cycleId := by
          unfold counterpart at hcounterpart
          exact List.mem_of_find?_eq_some hcounterpart
        exact ⟨t, (List.mem_filter.mp ht).1, rfl, t', ht', hname, rfl⟩

/-- **The copies of the cells** whose templates are known, one for each. -/
theorem forall₂_copyRow (hmatched : ¬Unmatched normalize db source target) :
    List.Forall₂ (CopyOf normalize db source target) (copyable db source target)
      ((copyable db source target).zipIdx.map (copyRow normalize db source target rowIds)) := by
  refine forall₂_zipIdx _ (fun d hd i => ?_) 0
  obtain ⟨hmem, hboth⟩ := List.mem_filter.mp hd
  obtain ⟨heligible, hown⟩ := Bool.and_eq_true_iff.mp hboth
  refine ⟨rfl, rfl, rfl, rfl, rfl, templateOf_counterpartId hmatched ?_ ?_ hown⟩
  · unfold eligible at heligible
    rw [Bool.and_eq_true, Bool.or_eq_true, Bool.or_eq_true] at heligible
    rcases heligible.2 with (hnone | hsame) | hsome
    · exact Or.inl (Option.isNone_iff_eq_none.mp hnone)
    · exact Or.inr (Or.inl (by simpa using hsame))
    · exact Or.inr (Or.inr (by simpa using hsome))
  · exact fun id hid => mem_referencedTemplateIds hmem hid

end Rows

section Exactness

variable {setting : Setting} {db : Db} {syllabusId sourceSyllabusId : Uuid} {rowIds : ℕ → Uuid}
  {target source : Syllabus}

/-- The answer of a clone is that of its transaction. -/
theorem answer_cloneSyllabus (setting : Setting) (db : Db) (syllabusId sourceSyllabusId : Uuid)
    (rowIds : ℕ → Uuid) :
    Step.answer setting ⟨db, .whole (.cloneSyllabus syllabusId sourceSyllabusId rowIds)⟩ =
      match (cloneSyllabus setting.normalize syllabusId sourceSyllabusId none rowIds).run db with
      | .error e => .error e
      | .ok out => .ok ((), out.2.1, []) := by
  change ((cloneSyllabus setting.normalize syllabusId sourceSyllabusId none rowIds).bind
    fun _ => Program.done ()).run db = _
  rw [Program.run_bind]
  cases (cloneSyllabus setting.normalize syllabusId sourceSyllabusId none rowIds).run db with
  | error e => rfl
  | ok out =>
    obtain ⟨cells, db', jobs⟩ := out
    cases jobs with
    | nil => rfl
    | cons job jobs => exact job.elim

/-- A clone that is refused with a message for one of the reasons is exact. -/
theorem clonesExactly_of_refused {message : String}
    (hanswer : Step.answer setting ⟨db, .whole (.cloneSyllabus syllabusId sourceSyllabusId
      rowIds)⟩ = .error (.badRequest message))
    (hrefusable : Refusable setting.normalize db syllabusId sourceSyllabusId) :
    ClonesExactly setting db syllabusId sourceSyllabusId rowIds := by
  constructor
  · intro e he
    rw [hanswer] at he
    cases he
    refine ⟨⟨message, rfl⟩, hrefusable, ?_⟩
    unfold Step.after
    rw [hanswer]
  · intro db' jobs hok
    rw [hanswer] at hok
    cases hok

/-- A clone whose syllabus is missing or archived is refused. -/
theorem answer_of_not_found
    (h : ¬∃ target source, db.Finds syllabusId sourceSyllabusId target source) :
    ∃ message, Step.answer setting ⟨db, .whole (.cloneSyllabus syllabusId sourceSyllabusId
      rowIds)⟩ = .error (.badRequest message) := by
  rw [answer_cloneSyllabus]
  unfold cloneSyllabus findById
  simp only [Program.bind_eq, Program.run_select_bind]
  cases htarget : (db.syllabuses.find syllabusId).filter (·.isActive) with
  | none => exact ⟨_, rfl⟩
  | some target =>
    simp only [Program.run_select_bind]
    cases hsource : (db.syllabuses.find sourceSyllabusId).filter (·.isActive) with
    | none => exact ⟨_, rfl⟩
    | some source => exact absurd ⟨target, source, htarget, hsource⟩ h

/-- The two syllabi of a clone are determined. -/
theorem Db.Finds.unique {target' source' : Syllabus}
    (h : db.Finds syllabusId sourceSyllabusId target source)
    (h' : db.Finds syllabusId sourceSyllabusId target' source') :
    target = target' ∧ source = source' :=
  ⟨Option.some.inj (h.1.symm.trans h'.1), Option.some.inj (h.2.symm.trans h'.2)⟩

/-- The cells whose templates are known are among those that are to be copied. -/
theorem copyable_eq (db : Db) (source target : Syllabus) : copyable db source target =
    ((db.cellsOf source.id).filter (eligible db source target)).filter
      (ownTemplate db source target) := by
  unfold copyable
  rw [List.filter_filter]
  exact List.filter_congr fun d _ => Bool.and_comm _ _

/-- Within the limit and with all templates matched, only the cells decide. -/
theorem copies_iff {normalize : String → String}
    (hmatched : ¬Unmatched normalize db source target)
    (hlimit : offendingWeeks ((copyable db source target).zipIdx.map
      (copyRow normalize db source target rowIds)) = []) :
    Copies normalize db source target ↔
      (∀ d ∈ db.cellsOf source.id, eligible db source target d = true →
          ownTemplate db source target d = true) ∧
        (copyable db source target).Pairwise (Apart normalize db source target) := by
  have hwithin : ¬∃ weekNumber, weeklyQuestionLimit <
      weekSum (copyable db source target) weekNumber := by
    rintro ⟨weekNumber, hover⟩
    refine (offendingWeeks_ne_nil_iff _).mpr ⟨weekNumber, ?_⟩ hlimit
    rwa [weekSum_clonedRows]
  unfold Copies
  constructor
  · rintro (hunmatched | hover | hcopies)
    · exact absurd hunmatched hmatched
    · exact absurd hover hwithin
    · exact hcopies
  · exact fun hcopies => Or.inr (Or.inr hcopies)

/-- A clone that has inserted its rows is exact exactly when it knew the templates of all cells that
it is to copy. -/
theorem clonesExactly_of_copied (hfinds : db.Finds syllabusId sourceSyllabusId target source)
    (hmatched : ¬Unmatched setting.normalize db source target) {db' : Db}
    (hanswer : Step.answer setting ⟨db, .whole (.cloneSyllabus syllabusId sourceSyllabusId
      rowIds)⟩ = .ok ((), db', []))
    (hcells : db'.cellsOf target.id = (copyable db source target).zipIdx.map
      (copyRow setting.normalize db source target rowIds)) :
    ClonesExactly setting db syllabusId sourceSyllabusId rowIds ↔
      ∀ d ∈ db.cellsOf source.id, eligible db source target d = true →
        ownTemplate db source target d = true := by
  have hfiltered := copyable_eq db source target
  constructor
  · rintro ⟨-, hcopied⟩ d hd heligible
    obtain ⟨target', source', hfinds', hforall⟩ := hcopied db' [] hanswer
    obtain ⟨rfl, rfl⟩ := hfinds.unique hfinds'
    have hlength := hforall.length_eq
    rw [hcells, List.length_map, List.length_zipIdx, hfiltered] at hlength
    by_contra hunknown
    have hlt : (((db.cellsOf source.id).filter (eligible db source target)).filter
        (ownTemplate db source target)).length <
          ((db.cellsOf source.id).filter (eligible db source target)).length :=
      List.length_filter_lt_length_iff_exists.mpr
        ⟨d, List.mem_filter.mpr ⟨hd, heligible⟩, hunknown⟩
    omega
  · intro hown
    constructor
    · intro e he
      rw [hanswer] at he
      cases he
    · intro db'' jobs hok
      rw [hanswer] at hok
      cases hok
      refine ⟨target, source, hfinds, ?_⟩
      have hall : ((db.cellsOf source.id).filter (eligible db source target)).filter
          (ownTemplate db source target) =
            (db.cellsOf source.id).filter (eligible db source target) := by
        refine List.filter_eq_self.mpr fun d hd => ?_
        obtain ⟨hmem, heligible⟩ := List.mem_filter.mp hd
        exact hown d hmem heligible
      rw [hcells, ← hall, ← hfiltered]
      exact forall₂_copyRow hmatched

/-- **A clone is exact** exactly when its syllabi are missing, a template is unmatched, a week would
exceed the limit, or each cell to copy has a template that is known and the copies are of different
cells. -/
theorem clonesExactly_iff (setting : Setting) (db : Db) (syllabusId sourceSyllabusId : Uuid)
    (rowIds : ℕ → Uuid) (hdraws : DrawsRowIds db rowIds) :
    ClonesExactly setting db syllabusId sourceSyllabusId rowIds ↔
      ∀ target source, db.Finds syllabusId sourceSyllabusId target source →
        Copies setting.normalize db source target := by
  by_cases hfound : ∃ target source, db.Finds syllabusId sourceSyllabusId target source
  · obtain ⟨target, source, hfinds⟩ := hfound
    have honly : (∀ target source, db.Finds syllabusId sourceSyllabusId target source →
        Copies setting.normalize db source target) ↔
          Copies setting.normalize db source target := by
      constructor
      · exact fun h => h target source hfinds
      · intro h target' source' hfinds'
        obtain ⟨rfl, rfl⟩ := hfinds.unique hfinds'
        exact h
    rw [honly]
    have htarget : (db.syllabuses.find target.id).isSome = true := by
      obtain ⟨hfind, -⟩ := Option.filter_eq_some_iff.mp hfinds.1
      have hid : target.id = syllabusId := Table.key_of_find (k := syllabusId) hfind
      rw [hid, hfind]
      rfl
    have hanswer := answer_cloneSyllabus setting db syllabusId sourceSyllabusId rowIds
    have houtcome := @run_cloneSyllabus setting.normalize db _ _ _ _ hfinds.1 hfinds.2 none rowIds
    generalize (cloneSyllabus setting.normalize syllabusId sourceSyllabusId none rowIds).run db =
      result at hanswer houtcome
    change CloneOutcome setting.normalize db source target (db.activeWeeks target.cycleId) rowIds
      result at houtcome
    have hmatched : ∀ templateMap, db.templateMapping setting.normalize source target =
        .ok templateMap → ¬Unmatched setting.normalize db source target := by
      intro templateMap hmap
      rcases templateMapping_cases setting.normalize db source target with ⟨⟨_, herror⟩, -⟩ | ⟨-, h⟩
      · rw [hmap] at herror
        cases herror
      · exact h
    cases houtcome with
    | unmatched h =>
      rcases templateMapping_cases setting.normalize db source target with
        ⟨⟨message, herror⟩, hunmatched⟩ | ⟨⟨_, hok⟩, -⟩
      · rw [h] at herror
        cases herror
        exact iff_of_true (clonesExactly_of_refused hanswer
          (Or.inr ⟨target, source, hfinds, Or.inl hunmatched⟩)) (Or.inl hunmatched)
      · rw [h] at hok
        cases hok
    | @overLimit templateMap h hlimit =>
      rw [clonedRows_eq h, offendingWeeks_ne_nil_iff] at hlimit
      obtain ⟨weekNumber, hover⟩ := hlimit
      rw [weekSum_clonedRows] at hover
      have hfewer : weekSum (copyable db source target) weekNumber ≤
          weekSum ((db.cellsOf source.id).filter (eligible db source target)) weekNumber := by
        rw [copyable_eq]
        exact weekSum_filter_le _ _ _
      exact iff_of_true (clonesExactly_of_refused hanswer (Or.inr ⟨target, source, hfinds,
        Or.inr ⟨weekNumber, Nat.lt_of_lt_of_le hover hfewer⟩⟩)) (Or.inr (Or.inl ⟨weekNumber, hover⟩))
    | @collision templateMap h hlimit hrefuses =>
      rw [clonedRows_eq h] at hlimit hrefuses
      rw [accepts_iff hdraws htarget] at hrefuses
      rw [copies_iff (hmatched _ h) hlimit]
      refine iff_of_false (fun hexact => ?_) fun hcopies => hrefuses hcopies.2
      obtain ⟨⟨message, hmessage⟩, -⟩ := hexact.refused .queryFailed hanswer
      cases hmessage
    | @copied templateMap h hlimit haccepts distributions hrows jobs =>
      rw [clonedRows_eq h] at hlimit haccepts hrows
      rw [accepts_iff hdraws htarget] at haccepts
      rw [copies_iff (hmatched _ h) hlimit]
      have hcells : (withDefaultTemplate source target templateMap
          { db with distributions }).cellsOf target.id =
            (copyable db source target).zipIdx.map
              (copyRow setting.normalize db source target rowIds) := by
        unfold Db.cellsOf Table.filter
        rw [withDefaultTemplate_distributions]
        dsimp only
        rw [hrows, List.filter_append, List.filter_filter]
        have hgone : (db.distributions.rows.filter fun d =>
            (d.syllabusId == target.id) && !(d.syllabusId == target.id)) = [] :=
          List.filter_eq_nil_iff.mpr fun d _ => by cases d.syllabusId == target.id <;> simp
        rw [hgone, List.nil_append]
        refine List.filter_eq_self.mpr fun d hd => ?_
        obtain ⟨row, -, rfl⟩ := List.mem_map.mp hd
        exact beq_self_eq_true target.id
      rw [clonesExactly_of_copied hfinds (hmatched _ h) hanswer hcells]
      exact ⟨fun hown => ⟨hown, haccepts⟩, And.left⟩
  · obtain ⟨message, hanswer⟩ := @answer_of_not_found setting db _ _ rowIds hfound
    refine iff_of_true (clonesExactly_of_refused hanswer (Or.inl hfound)) ?_
    exact fun target source hfinds => absurd ⟨target, source, hfinds⟩ hfound

end Exactness

/-- An active cycle. -/
def cycleRow (id : Uuid) : Cycle where
  id := id
  name := "2026-I"
  year := 2026
  startDate := 0
  endDate := 4
  daysPerWeek := 5
  totalWeeks := 1
  isActive := true

/-- The first week of a cycle. -/
def firstWeek (cycleId : Uuid) : CycleWeek where
  id := cycleId
  cycleId := cycleId
  weekNumber := 1
  startDate := 0
  endDate := 4
  isActive := true
  deleted := false

/-- An active syllabus in the cycle of its number. -/
def syllabusRow (id : Uuid) : Syllabus where
  id := id
  cycleId := id
  courseId := 1
  name := "Nuevo Sílabo"
  templateId := none
  isActive := true

/-- Five questions of one topic in the first week of the first syllabus, for a template. -/
def fiveQuestions (id templateId : Uuid) : SyllabusDistribution where
  id := id
  syllabusId := 1
  templateId := some templateId
  weekNumber := 1
  topicId := 1
  subtopicId := 1
  questionCount := 5

/-- Two cycles with a syllabus each. The first cycle has two templates of one name, and the second
cycle has one. -/
def homonyms : Db where
  courses := [1]
  cycles := (Table.empty.insert (cycleRow 1)).insert (cycleRow 2)
  weeks := (Table.empty.insert (firstWeek 1)).insert (firstWeek 2)
  templates := ((Table.empty.insert ⟨10, 1, "Simulacro"⟩).insert ⟨11, 1, "Simulacro"⟩).insert
    ⟨20, 2, "Simulacro"⟩
  syllabuses := (Table.empty.insert (syllabusRow 1)).insert (syllabusRow 2)
  distributions := Table.empty.insert (fiveQuestions 1 10)

/-- The first syllabus has a cell for the other template as well. -/
def homonymousCells : Db := insertDistributionIn (fiveQuestions 2 11) homonyms

/-- No row has a number from a hundred on. -/
theorem drawsRowIds_homonyms : DrawsRowIds homonyms (100 + ·) ∧
    DrawsRowIds homonymousCells (100 + ·) := by
  have hdraws : ∀ db : Db, (∀ d ∈ db.distributions.rows, d.id < 100) →
      DrawsRowIds db (100 + ·) := by
    intro db hsmall
    refine ⟨fun i j heq => Nat.add_left_cancel heq, fun i => Table.find_eq_none.mpr fun d hd hid => ?_⟩
    have hlt : d.id < 100 := hsmall d hd
    have heq : d.id = 100 + i := hid
    rw [heq] at hlt
    exact Nat.not_lt.mpr (Nat.le_add_right 100 i) hlt
  exact ⟨hdraws homonyms (by decide +kernel), hdraws homonymousCells (by decide +kernel)⟩

/-- The syllabi of both databases are found. -/
theorem finds_homonyms : homonyms.Finds 2 1 (syllabusRow 2) (syllabusRow 1) ∧
    homonymousCells.Finds 2 1 (syllabusRow 2) (syllabusRow 1) := by
  refine ⟨⟨?_, ?_⟩, ?_, ?_⟩ <;> decide +kernel

/-- With cells for one of the templates the clone is exact. -/
theorem clonesExactly_homonyms : DrawsRowIds homonyms (100 + ·) ∧
    ClonesExactly plainSetting homonyms 2 1 (100 + ·) := by
  refine ⟨drawsRowIds_homonyms.1, (clonesExactly_iff plainSetting homonyms 2 1 (100 + ·)
    drawsRowIds_homonyms.1).mpr fun target source hfinds => ?_⟩
  obtain ⟨rfl, rfl⟩ := finds_homonyms.1.unique hfinds
  refine Or.inr (Or.inr ⟨by decide +kernel, ?_⟩)
  have hone : copyable homonyms (syllabusRow 1) (syllabusRow 2) = [fiveQuestions 1 10] := by
    decide +kernel
  rw [hone]
  exact List.pairwise_singleton _ _

/-- With cells for both of them, all counterparts are there and no week is near the limit, but the
clone is refused by the unique index. -/
theorem not_clonesExactly : ¬∀ (db : Db) (rowIds : ℕ → Uuid), DrawsRowIds db rowIds →
    ClonesExactly plainSetting db 2 1 rowIds := by
  intro hall
  have hexact := hall homonymousCells (100 + ·) drawsRowIds_homonyms.2
  have hanswer : Step.answer plainSetting ⟨homonymousCells, .whole (.cloneSyllabus 2 1 (100 + ·))⟩ =
      .error .queryFailed := by rfl
  obtain ⟨⟨message, hmessage⟩, -⟩ := hexact.refused .queryFailed hanswer
  cases hmessage

end Odiseo.Syllabi
