import Odiseo.Database.Replay
import Odiseo.Templates.UseCase
import Mathlib.Logic.Function.Basic

/-!
# The templates as values

To the rest of the program a template is one value: its columns together with the list of its
courses. The store of these values has atomic operations, and an operation that names a cycle acts
on the templates of that cycle only. The statements on the two tables act on the store as these
operations say.
-/

namespace Odiseo.Templates

open Database Odiseo.Materials

/-- A template with its courses. -/
structure Template where
  cycleId : Uuid
  name : String
  scope : TemplateScope
  accumulationWeeks : Option ℕ
  courses : List TemplateCourse

/-- The templates of a tenant. -/
abbrev Store := Uuid → Option Template

/-- A template after an update. -/
def Template.updated (dto : UpdateCycleMaterialTemplateDto) (courses : Option (List TemplateCourse))
    (t : Template) : Template where
  cycleId := t.cycleId
  name := (dto.name.bind id).getD t.name
  scope := (dto.scope.bind id).getD t.scope
  accumulationWeeks := dto.accumulationWeeks.getD t.accumulationWeeks
  courses := courses.getD t.courses

/-- The courses of an update, where they pass the validation. -/
def UpdateCycleMaterialTemplateDto.mapped (dto : UpdateCycleMaterialTemplateDto) :
    Except HttpError (Option (List TemplateCourse)) :=
  match dto.courses with
  | none => .ok none
  | some cs => (mapCourses cs).map some

/-- What a committed call does to the store. -/
def TemplateCall.effect : TemplateCall → Store → Store
  | .createTemplate cycleId templateId dto _, store =>
    match mapCourses dto.courses with
    | .ok courses => Function.update store templateId
        (some ⟨cycleId, dto.name, dto.scope, dto.accumulationWeeks, courses⟩)
    | .error _ => store
  | .updateTemplate cycleId templateId dto _, store =>
    match dto.mapped with
    | .ok courses => Function.update store templateId
        ((store templateId).map fun t => if t.cycleId = cycleId then t.updated dto courses else t)
    | .error _ => store
  | .deleteTemplate cycleId templateId, store =>
    Function.update store templateId ((store templateId).filter fun t => t.cycleId ≠ cycleId)
  | _, store => store

section CourseRows

variable (templateId : Uuid) (rowIds : ℕ → Uuid) (courses : List TemplateCourse)

/-- The rows of courses belong to their template. -/
theorem templateId_of_mem_courseRows {r : CycleMaterialTemplateCourse}
    (hr : r ∈ courseRows templateId rowIds courses) : r.templateId = templateId := by
  obtain ⟨i, hi, rfl⟩ := List.mem_mapIdx.mp hr
  rfl

/-- The rows of courses carry the courses. -/
@[simp] theorem map_course_courseRows :
    (courseRows templateId rowIds courses).map (·.course) = courses := by
  refine List.ext_getElem (by simp [courseRows]) fun i hi hi' => ?_
  simp [courseRows]

/-- The rows of courses carry the identifiers that are drawn. -/
theorem map_id_courseRows : (courseRows templateId rowIds courses).map (·.id) =
    (List.range courses.length).map rowIds := by
  refine List.ext_getElem (by simp [courseRows]) fun i hi hi' => ?_
  simp [courseRows]

end CourseRows

/-- The validation keeps the number of courses. -/
theorem length_mapCourses {cs : List CreateTemplateCourseDto} {courses : List TemplateCourse}
    (h : mapCourses cs = .ok courses) : courses.length = cs.length := by
  induction cs generalizing courses with
  | nil =>
    cases h
    rfl
  | cons c cs ih =>
    simp only [mapCourses] at h
    cases hc : validateAndMapCourse c with
    | error e =>
      rw [hc] at h
      cases h
    | ok course =>
      cases hcs : mapCourses cs with
      | error e =>
        rw [hc, hcs] at h
        cases h
      | ok rest =>
        rw [hc, hcs] at h
        cases h
        simp [ih hcs]

/-- The value of a row with the rows of its courses. -/
def CycleMaterialTemplate.value (row : CycleMaterialTemplate)
    (courses : List CycleMaterialTemplateCourse) : Template where
  cycleId := row.cycleId
  name := row.name
  scope := row.scope
  accumulationWeeks := row.accumulationWeeks
  courses := courses.map (·.course)

/-- The store that the tables hold. -/
def Db.store (db : Db) : Store := fun id =>
  (db.templates.find id).map fun row => row.value (db.coursesOf id)

/-- The rows of the courses have their template. -/
def Db.Linked (db : Db) : Prop :=
  ∀ r ∈ db.templateCourses.rows, (db.templates.find r.templateId).isSome

/-- A template that is not there has no courses. -/
theorem Db.Linked.coursesOf_eq_nil {db : Db} (h : db.Linked) {id : Uuid}
    (hnone : db.templates.find id = none) : db.coursesOf id = [] := by
  refine List.filter_eq_nil_iff.mpr fun r hr hid => ?_
  have hsome := h r hr
  rw [beq_iff_eq.mp hid, hnone] at hsome
  cases hsome

/-- The rows of two databases agree on a template. -/
structure SameTemplate (id : Uuid) (db db' : Db) : Prop where
  find : db'.templates.find id = db.templates.find id
  courses : db'.coursesOf id = db.coursesOf id

namespace SameTemplate

variable {id : Uuid} {a b c : Db}

theorem refl (id : Uuid) (db : Db) : SameTemplate id db db := ⟨rfl, rfl⟩

theorem trans (h : SameTemplate id a b) (h' : SameTemplate id b c) : SameTemplate id a c :=
  ⟨h'.find.trans h.find, h'.courses.trans h.courses⟩

/-- Then it has the same value in both. -/
theorem store_eq (h : SameTemplate id a b) : b.store id = a.store id := by
  simp only [Db.store, h.find, h.courses]

end SameTemplate

/-- Two stores that agree but for one template. -/
theorem store_eq_update {db db' : Db} {id : Uuid} {value : Option Template}
    (hothers : ∀ k, k ≠ id → SameTemplate k db db') (hvalue : db'.store id = value) :
    db'.store = Function.update db.store id value := by
  funext k
  by_cases hk : k = id
  · subst hk
    rw [hvalue, Function.update_self]
  · rw [(hothers k hk).store_eq, Function.update_of_ne hk]

section Statements

variable {db v : Db} {id k : Uuid}

/-- The insertion of a template leaves the others alone. -/
theorem sameTemplate_insertTemplateIn {row : CycleMaterialTemplate} (hk : k ≠ row.id) :
    SameTemplate k db (insertTemplateIn row db) :=
  ⟨Table.find_insert_of_ne _ _ _ hk, rfl⟩

/-- The update of a template leaves the others alone. -/
theorem sameTemplate_updateTemplateIn {dto : UpdateCycleMaterialTemplateDto} (hk : k ≠ id) :
    SameTemplate k db (updateTemplateIn id dto db) := by
  refine ⟨?_, rfl⟩
  exact (Table.find_modify _ _ _ (updateTemplateColumns dto) fun _ => rfl).trans (if_neg hk)

/-- The updated row. -/
theorem find_updateTemplateIn (dto : UpdateCycleMaterialTemplateDto) (db : Db) (id : Uuid) :
    (updateTemplateIn id dto db).templates.find id =
      (db.templates.find id).map (updateTemplateColumns dto) :=
  (Table.find_modify _ _ _ (updateTemplateColumns dto) fun _ => rfl).trans (if_pos rfl)

/-- The deletion of the courses of a template leaves the others alone. -/
theorem sameTemplate_deleteCoursesIn (hk : k ≠ id) :
    SameTemplate k db (deleteCoursesIn id v db) := by
  refine ⟨rfl, Table.filter_delete_of_not _ _ _ fun r hr => ?_⟩
  have hid : r.templateId = id := by simpa using (Bool.and_eq_true_iff.mp hr).1
  simpa [hid] using hk.symm

/-- Of a template without courses a statement deletes none. -/
theorem deleteCoursesIn_of_nil (h : db.coursesOf id = []) : deleteCoursesIn id v db = db := by
  have hrows : (db.templateCourses.delete fun r =>
      r.templateId == id && (v.templateCourses.find r.id).isSome) = db.templateCourses := by
    refine Table.ext_rows (List.filter_eq_self.mpr fun r hr => ?_)
    have hid := List.filter_eq_nil_iff.mp h r hr
    simp [hid]
  rw [deleteCoursesIn, hrows]

/-- A statement that sees the courses of a template deletes them all. -/
theorem coursesOf_deleteCoursesIn (h : db.coursesOf id = v.coursesOf id) :
    (deleteCoursesIn id v db).coursesOf id = [] := by
  refine List.filter_eq_nil_iff.mpr fun r hr hid => ?_
  obtain ⟨hold, hkept⟩ := Table.mem_delete.mp hr
  have hmem : r ∈ v.coursesOf id := h ▸ List.mem_filter.mpr ⟨hold, hid⟩
  have hfind := Table.find_of_mem (List.mem_filter.mp hmem).1
  change v.templateCourses.find r.id = some r at hfind
  rw [hfind] at hkept
  simp [beq_iff_eq.mp hid] at hkept

/-- The insertion of courses leaves other templates alone. -/
theorem sameTemplate_insertCoursesIn {rows : List CycleMaterialTemplateCourse}
    (hrows : ∀ r ∈ rows, r.templateId ≠ k) : SameTemplate k db (insertCoursesIn rows db) :=
  ⟨rfl, Table.filter_insertAll_of_not _ _ _ fun r hr => by simpa using hrows r hr⟩

/-- The deletion of a template leaves the others alone. -/
theorem sameTemplate_deleteTemplateIn (hk : k ≠ id) :
    SameTemplate k db (deleteTemplateIn id v db) := by
  rw [deleteTemplateIn]
  split
  · refine ⟨?_, Table.filter_delete_of_not _ _ _ fun r hr => ?_⟩
    · simp only [Table.find, Table.delete, List.find?_filter]
      congr
      funext r
      by_cases hr : key r = k
      · have hne : r.id ≠ id := fun h => hk (hr.symm.trans h)
        simp [hr, hne]
      · simp [hr]
    · rw [beq_iff_eq.mp hr]
      simpa using hk.symm
  · exact .refl k db

/-- A template that the statement sees is gone afterwards. -/
theorem find_deleteTemplateIn (hseen : (v.templates.find id).isSome) :
    (deleteTemplateIn id v db).templates.find id = none := by
  rw [deleteTemplateIn, if_pos hseen, Table.find_eq_none]
  intro r hr hid
  have hkept := (Table.mem_delete.mp hr).2
  change (r.id == id) = false at hkept
  exact beq_eq_false_iff_ne.mp hkept hid

/-- A course of the database after an insertion of courses is an old one or one of them. -/
theorem linked_insertCoursesIn (h : db.Linked) {rows : List CycleMaterialTemplateCourse}
    (hrows : ∀ r ∈ rows, (db.templates.find r.templateId).isSome) :
    (insertCoursesIn rows db).Linked := by
  intro r hr
  rcases Table.mem_insertAll hr with hold | hnew
  · exact h r hold
  · exact hrows r hnew

/-- The insertion of a template keeps the courses linked. -/
theorem linked_insertTemplateIn (h : db.Linked) (row : CycleMaterialTemplate) :
    (insertTemplateIn row db).Linked := by
  intro r hr
  obtain ⟨a, ha⟩ := Option.isSome_iff_exists.mp (h r hr)
  exact Option.isSome_iff_exists.mpr ⟨a, Table.find_insert_of_some _ _ _ _ ha⟩

/-- The update of a template keeps the courses linked. -/
theorem linked_updateTemplateIn (h : db.Linked) (dto : UpdateCycleMaterialTemplateDto) :
    (updateTemplateIn id dto db).Linked := by
  intro r hr
  by_cases hid : r.templateId = id
  · rw [hid, find_updateTemplateIn, Option.isSome_map, ← hid]
    exact h r hr
  · rw [(sameTemplate_updateTemplateIn hid).find]
    exact h r hr

/-- The deletion of courses keeps the others linked. -/
theorem linked_deleteCoursesIn (h : db.Linked) : (deleteCoursesIn id v db).Linked := fun r hr =>
  h r (Table.mem_delete.mp hr).1

/-- The deletion of a template takes its courses along. -/
theorem linked_deleteTemplateIn (h : db.Linked) : (deleteTemplateIn id v db).Linked := by
  by_cases hseen : (v.templates.find id).isSome = true
  · intro r hr
    have hother : r.templateId ≠ id := by
      rw [deleteTemplateIn, if_pos hseen] at hr
      simpa using (Table.mem_delete.mp hr).2
    have hold : r ∈ db.templateCourses.rows := by
      rw [deleteTemplateIn, if_pos hseen] at hr
      exact (Table.mem_delete.mp hr).1
    rw [(sameTemplate_deleteTemplateIn hother).find]
    exact h r hold
  · rw [deleteTemplateIn, if_neg hseen]
    exact h

/-- The courses of a template after some have been inserted that are new. -/
theorem coursesOf_insertCoursesIn {rows : List CycleMaterialTemplateCourse}
    (hrows : ∀ r ∈ rows, r.templateId = id) (hnodup : (rows.map (·.id)).Nodup)
    (hfresh : ∀ r ∈ rows, db.templateCourses.find r.id = none) :
    (insertCoursesIn rows db).coursesOf id = db.coursesOf id ++ rows :=
  Table.filter_insertAll_of_fresh _ _ _ (fun r hr => by simp [hrows r hr]) hnodup hfresh

end Statements

end Odiseo.Templates
