import Mathlib.Data.List.Perm.Basic
import Odiseo.Templates.Page

/-!
# What the page of a template saves

Over every run of edits the page keeps one row for each course of the catalog, and never shows more
counts than the quantity of a row. Every form that it sends is accepted, and what is stored is what
the form shows; the page that is opened on it shows the same rows, and saving them changes nothing.
-/

namespace Odiseo.Templates

open Odiseo.Materials (CatalogId QuestionDifficultyLevel TemplateCourse CreateTemplateCourseDto
  validateAndMapCourse)
open Odiseo.Logging (isSpace)
open Database.Transition

@[simp] theorem number_some (n : ℤ) : number (some n) = n := rfl

namespace FormCourse

/-- The counts of a row are no negative numbers, and the quantity holds them. -/
structure Sound (course : FormCourse) : Prop where
  easy : 0 ≤ number course.easyCount
  medium : 0 ≤ number course.mediumCount
  hard : 0 ≤ number course.hardCount
  within : course.sumDifficulty ≤ max 0 (number course.questionsQuantity)

/-- The course of a row. -/
def entry (course : FormCourse) : CatalogCourse := ⟨course.courseId, course.courseName⟩

variable (course : FormCourse)

/-- The even split keeps the course and the quantity, and gives all of the quantity away. -/
theorem autoDistributeDifficulties_spec :
    course.autoDistributeDifficulties.entry = course.entry ∧
      number course.autoDistributeDifficulties.questionsQuantity =
        number course.questionsQuantity ∧
      course.autoDistributeDifficulties.sumDifficulty =
        max 0 (number course.questionsQuantity) ∧
      course.autoDistributeDifficulties.Sound := by
  by_cases htotal : number course.questionsQuantity ≤ 0
  · have hsplit : course.autoDistributeDifficulties =
        { course with easyCount := some 0, mediumCount := some 0, hardCount := some 0 } :=
      if_pos htotal
    rw [hsplit]
    refine ⟨rfl, rfl, ?_, ⟨le_rfl, le_rfl, le_rfl, ?_⟩⟩
    · simp only [sumDifficulty, number_some]
      omega
    · simp only [sumDifficulty, number_some]
      omega
  · have hsplit : course.autoDistributeDifficulties =
        { course with
          easyCount := some (number course.questionsQuantity / 3 +
            if 1 ≤ number course.questionsQuantity % 3 then 1 else 0)
          mediumCount := some (number course.questionsQuantity / 3 +
            if 2 ≤ number course.questionsQuantity % 3 then 1 else 0)
          hardCount := some (number course.questionsQuantity / 3) } := if_neg htotal
    rw [hsplit]
    refine ⟨rfl, rfl, ?_, ⟨?_, ?_, ?_, ?_⟩⟩ <;> simp only [sumDifficulty, number_some] <;> omega

/-- A typed quantity leaves the course, and a sound row. -/
theorem typeQuantity_spec (value : Option ℤ) :
    (course.typeQuantity value).entry = course.entry ∧ (course.typeQuantity value).Sound := by
  obtain ⟨hentry, -, -, hsound⟩ :=
    autoDistributeDifficulties_spec { course with questionsQuantity := value }
  exact ⟨hentry, hsound⟩

/-- So does a course that is taken out. -/
theorem removeCourse_spec : course.removeCourse.entry = course.entry ∧ course.removeCourse.Sound :=
  ⟨rfl, le_rfl, le_rfl, le_rfl, le_rfl⟩

/-- So does a course that is added. -/
theorem addCourse_spec : course.addCourse.entry = course.entry ∧ course.addCourse.Sound := by
  obtain ⟨hentry, -, -, hsound⟩ :=
    autoDistributeDifficulties_spec { course with questionsQuantity := some 5 }
  exact ⟨hentry, hsound.easy, hsound.medium, hsound.hard, hsound.within⟩

/-- So does a step down of the quantity. -/
theorem decrementCourse_spec :
    course.decrementCourse.entry = course.entry ∧ course.decrementCourse.Sound := by
  simp only [decrementCourse]
  split
  · exact course.typeQuantity_spec _
  · exact course.removeCourse_spec

/-- A typed count leaves the course, and a sound row stays sound: what is cut off of the count is
what the quantity does not hold. -/
theorem typeCount_spec (level : QuestionDifficultyLevel) (value : Option ℤ) :
    (course.typeCount level value).entry = course.entry ∧
      (0 ≤ number value → course.Sound → (course.typeCount level value).Sound) := by
  simp only [typeCount, clampDifficulty]
  split
  next hfits =>
    refine ⟨by cases level <;> rfl, fun hvalue hsound => ?_⟩
    obtain ⟨heasy, hmedium, hhard, hwithin⟩ := hsound
    cases level <;> exact ⟨by assumption, by assumption, by assumption, by
      simp only [setCount] at hfits ⊢
      omega⟩
  next hover =>
    refine ⟨by cases level <;> rfl, fun hvalue hsound => ?_⟩
    obtain ⟨heasy, hmedium, hhard, hwithin⟩ := hsound
    cases level <;> refine ⟨?_, ?_, ?_, ?_⟩ <;>
      simp only [setCount, count, sumDifficulty, number_some] at * <;> omega

end FormCourse

/-- No negative number is typed as a count. -/
def FormEdit.NonNegative : FormEdit → Prop
  | .typeCount _ _ value => 0 ≤ number value
  | _ => True

/-- An edit of one row, which keeps its course and, but for negative numbers, its soundness. -/
structure FormEdit.Changes (e : FormEdit) (course course' : FormCourse) : Prop where
  entry : course'.entry = course.entry
  sound : e.NonNegative → course.Sound → course'.Sound

/-- A dragged row stays among the rows. -/
theorem moveCourse_perm (courses : List FormCourse) (source target : CatalogId) :
    (moveCourse courses source target).Perm courses := by
  unfold moveCourse
  split
  next i j hi hj =>
    split
    next movedItem hmoved =>
      obtain ⟨hlt, rfl⟩ := List.getElem?_eq_some_iff.mp hmoved
      have hj : j < courses.length := (List.findIdx?_eq_some_iff_getElem.mp hj).1
      have hlength : (courses.eraseIdx i).length = courses.length - 1 :=
        List.length_eraseIdx_of_lt hlt
      refine (List.perm_insertIdx _ _ ?_).trans (List.getElem_cons_eraseIdx_perm hlt)
      cases hfound : (courses.eraseIdx i).findIdx? (·.courseId == target) with
      | none => exact (by omega : j ≤ (courses.eraseIdx i).length)
      | some k => exact (List.findIdx?_eq_some_iff_getElem.mp hfound).1.le
    next => exact .rfl
  next => exact .rfl

namespace Form

variable {form form' : Form}

/-- A change of a row takes place at its position. -/
theorem changeRow_eq_some {active : Bool} {row : ℕ} {change : FormCourse → FormCourse}
    (h : form.changeRow active row change = some form') :
    ∃ course, form.courses[row]? = some course ∧
      form'.courses = form.courses.set row (change course) := by
  unfold changeRow at h
  split at h
  next course hrow =>
    split at h
    · cases h
      exact ⟨course, hrow, rfl⟩
    · cases h
  next => cases h

/-- A drop orders the rows anew. -/
theorem onDrop_perm (form : Form) (sourceIndex targetIndex : ℕ) :
    (form.onDrop sourceIndex targetIndex).courses.Perm form.courses := by
  unfold onDrop
  split
  · exact .rfl
  · split
    · exact moveCourse_perm _ _ _
    · exact .rfl

/-- What an edit can do: order the rows anew, or change one of them. -/
theorem edit_cases {e : FormEdit} (h : form.edit e = some form') :
    form'.courses.Perm form.courses ∨
      ∃ row course course', form.courses[row]? = some course ∧ e.Changes course course' ∧
        form'.courses = form.courses.set row course' := by
  have atRow {active : Bool} {row : ℕ} {change : FormCourse → FormCourse}
      (hchange : ∀ course, e.Changes course (change course))
      (h : form.changeRow active row change = some form') :
      ∃ row course course', form.courses[row]? = some course ∧ e.Changes course course' ∧
        form'.courses = form.courses.set row course' := by
    obtain ⟨course, hrow, hset⟩ := changeRow_eq_some h
    exact ⟨row, course, change course, hrow, hchange course, hset⟩
  have always {change : FormCourse → FormCourse}
      (hspec : ∀ course, (change course).entry = course.entry ∧ (change course).Sound)
      (course : FormCourse) : e.Changes course (change course) :=
    ⟨(hspec course).1, fun _ _ => (hspec course).2⟩
  cases e with
  | typeName | chooseScope =>
    cases h
    exact .inl .rfl
  | typeAccumulationWeeks weeks =>
    simp only [edit] at h
    split at h
    · cases h
      exact .inl .rfl
    · cases h
  | typeQuantity row value => exact .inr (atRow (always fun c => c.typeQuantity_spec value) h)
  | typeCount row level value =>
    refine .inr (atRow (fun c => ?_) h)
    obtain ⟨hentry, hsound⟩ := c.typeCount_spec level value
    exact ⟨hentry, hsound⟩
  | incrementCourse row => exact .inr (atRow (always fun c => c.typeQuantity_spec _) h)
  | decrementCourse row => exact .inr (atRow (always FormCourse.decrementCourse_spec) h)
  | addCourse row => exact .inr (atRow (always FormCourse.addCourse_spec) h)
  | removeCourse row => exact .inr (atRow (always FormCourse.removeCourse_spec) h)
  | onDrop sourceIndex targetIndex =>
    cases h
    exact .inl (form.onDrop_perm sourceIndex targetIndex)

/-- An edit keeps the courses of the rows. -/
theorem edit_entries {e : FormEdit} (h : form.edit e = some form') :
    (form'.courses.map FormCourse.entry).Perm (form.courses.map FormCourse.entry) := by
  obtain hperm | ⟨row, course, course', hrow, hchanges, hset⟩ := edit_cases h
  · exact hperm.map _
  · obtain ⟨hlt, rfl⟩ := List.getElem?_eq_some_iff.mp hrow
    have hsame : (form.courses.set row course').map FormCourse.entry =
        form.courses.map FormCourse.entry := by
      rw [List.map_set, hchanges.entry, ← List.map_set, List.set_getElem_self]
    rw [hset, hsame]

/-- An edit without negative counts keeps the rows sound. -/
theorem edit_sound {e : FormEdit} (h : form.edit e = some form') (he : e.NonNegative)
    (hsound : ∀ c ∈ form.courses, c.Sound) : ∀ c ∈ form'.courses, c.Sound := by
  intro c hc
  obtain hperm | ⟨row, course, course', hrow, hchanges, hset⟩ := edit_cases h
  · exact hsound c (hperm.mem_iff.mp hc)
  · rw [hset] at hc
    obtain hc | rfl := List.mem_or_eq_of_mem_set hc
    · exact hsound c hc
    · exact hchanges.sound he (hsound course (List.mem_of_getElem? hrow))

end Form

section Rows

variable {template : Option Template} {catalog : List CatalogCourse}

/-- The rows that the form gets are sound. -/
theorem allCourses_sound : ∀ c ∈ allCourses template catalog, c.Sound := by
  intro c hc
  obtain hc | hc := List.mem_append.mp hc
  · obtain ⟨saved, -, hrow⟩ := List.mem_filterMap.mp hc
    obtain ⟨k, -, rfl⟩ := Option.map_eq_some_iff.mp hrow
    have hsum := saved.sum_counts
    refine ⟨?_, ?_, ?_, ?_⟩ <;>
      simp only [savedRow, FormCourse.sumDifficulty, number_some] <;> omega
  · obtain ⟨k, -, rfl⟩ := List.mem_map.mp hc
    exact ⟨le_rfl, le_rfl, le_rfl, le_rfl⟩

/-- What the catalog finds under an identifier. -/
theorem of_find?_catalog {id : CatalogId} {k : CatalogCourse}
    (h : catalog.find? (·.id == id) = some k) : k ∈ catalog ∧ k.id = id := by
  have hid := List.find?_some h
  exact ⟨List.mem_of_find?_eq_some h, beq_iff_eq.mp hid⟩

/-- It finds every course. -/
theorem exists_find?_catalog {k : CatalogCourse} (hk : k ∈ catalog) :
    ∃ found, catalog.find? (·.id == k.id) = some found :=
  Option.isSome_iff_exists.mp (List.find?_isSome.mpr ⟨k, hk, beq_iff_eq.mpr rfl⟩)

/-- The rows of the saved courses are the courses of the catalog that the template has. -/
theorem savedRows_entries (hcatalog : (catalog.map (·.id)).Nodup) {courses : List TemplateCourse}
    (hcourses : (courses.map (·.courseId)).Nodup) :
    ((savedRows catalog courses).map FormCourse.entry).Perm
      (catalog.filter fun c => courses.any (·.courseId == c.id)) := by
  have hfound : (savedRows catalog courses).map FormCourse.entry =
      (courses.map (·.courseId)).filterMap fun id => catalog.find? (·.id == id) := by
    rw [savedRows, List.map_filterMap, List.filterMap_map]
    refine List.filterMap_congr fun saved _ => ?_
    cases hk : catalog.find? (·.id == saved.courseId) with
    | none => simp [hk]
    | some k => simp [hk, savedRow, FormCourse.entry]
  rw [hfound]
  refine (List.perm_ext_iff_of_nodup ?_ (hcatalog.of_map.filter _)).mpr fun k => ?_
  · refine hcourses.filterMap fun id id' k hk hk' => ?_
    exact (of_find?_catalog hk).2.symm.trans (of_find?_catalog hk').2
  · simp only [List.mem_filterMap, List.mem_filter, List.any_eq_true, beq_iff_eq, List.mem_map]
    constructor
    · rintro ⟨id, ⟨saved, hs, rfl⟩, hk⟩
      obtain ⟨hmem, hid⟩ := of_find?_catalog hk
      exact ⟨hmem, saved, hs, hid.symm⟩
    · rintro ⟨hk, saved, hs, hid⟩
      obtain ⟨found, hfind⟩ := exists_find?_catalog hk
      obtain ⟨hmem, hsame⟩ := of_find?_catalog hfind
      rw [List.inj_on_of_nodup_map hcatalog hmem hk hsame] at hfind
      exact ⟨k.id, ⟨saved, hs, hid⟩, hfind⟩

/-- The other rows are the other courses. -/
theorem otherRows_entries (courses : List TemplateCourse) :
    (otherRows catalog courses).map FormCourse.entry =
      catalog.filter fun c => !courses.any (·.courseId == c.id) := by
  simp [otherRows, Function.comp_def, emptyRow, FormCourse.entry]

/-- The rows that the form gets are the courses of the catalog, each once. -/
theorem allCourses_entries (hcatalog : (catalog.map (·.id)).Nodup)
    (htemplate : ((templateCourses template).map (·.courseId)).Nodup) :
    ((allCourses template catalog).map FormCourse.entry).Perm catalog := by
  rw [allCourses, List.map_append, otherRows_entries]
  exact ((savedRows_entries hcatalog htemplate).append_right _).trans
    (List.filter_append_perm _ _)

/-- The rows after the page has been mounted. -/
@[simp] theorem courses_mounted (form : Form) :
    (form.mounted template catalog).courses = allCourses template catalog := by
  cases template <;> rfl

/-- No negative number is typed as a count. -/
def PageEvent.NonNegative : PageEvent → Prop
  | .edit e => e.NonNegative
  | .mounted | .failed => True

/-- What every page keeps: no row, or one for each course; and sound rows. -/
structure TemplatePage.Kept (template : Option Template) (catalog : List CatalogCourse)
    (page : TemplatePage) : Prop where
  entries : (page.form.courses.map FormCourse.entry).Perm [] ∨
    (page.form.courses.map FormCourse.entry).Perm
      ((allCourses template catalog).map FormCourse.entry)
  sound : ∀ c ∈ page.form.courses, c.Sound

/-- A step keeps it. -/
theorem TemplatePage.Kept.step {page page' : TemplatePage} {e : PageEvent}
    (hkept : page.Kept template catalog) (he : e.NonNegative)
    (h : TemplatePage.step template catalog page e = some page') :
    page'.Kept template catalog := by
  cases e with
  | edit e =>
    obtain ⟨form', hform, rfl⟩ := Option.map_eq_some_iff.mp h
    have hsame := Form.edit_entries hform
    exact ⟨hkept.entries.imp hsame.trans hsame.trans, Form.edit_sound hform he hkept.sound⟩
  | mounted =>
    simp only [TemplatePage.step] at h
    split at h
    · cases h
      refine ⟨.inr ?_, ?_⟩
      · rw [courses_mounted]
      · rw [courses_mounted]
        exact allCourses_sound
    · cases h
  | failed =>
    simp only [TemplatePage.step] at h
    split at h
    · cases h
      exact ⟨hkept.entries, hkept.sound⟩
    · cases h

/-- Every page that is reached keeps it. -/
theorem kept_of_reaches {page : TemplatePage}
    (h : Reaches (TemplatePage.step template catalog) (fun _ e => e.NonNegative) .initial page) :
    page.Kept template catalog := by
  refine h.invariant ⟨.inl .nil, ?_⟩ fun _ _ _ hkept he hstep => hkept.step he hstep
  intro c hc
  cases hc

end Rows

/-- A course that is stored, as it would be sent. -/
def coursePayload (c : TemplateCourse) : CoursePayload :=
  ⟨c.courseId, c.questionsQuantity, c.easyCount, c.mediumCount, c.hardCount⟩

/-- A form is stored as a template: its columns, and the active rows in their order. The weeks
count where the scope uses them. -/
structure Form.StoredAs (form : Form) (t : Template) : Prop where
  name : t.name = form.name
  scope : t.scope = form.scope
  weeks : form.scope = .accumulative → t.accumulationWeeks.map Int.ofNat = form.accumulationWeeks
  courses : t.courses.map coursePayload = form.activeCourses.map FormCourse.payload

/-- A sent course that adds up. -/
structure CoursePayload.AddsUp (p : CoursePayload) : Prop where
  quantity : 0 < p.questionsQuantity
  easy : 0 ≤ p.easyCount
  medium : 0 ≤ p.mediumCount
  hard : 0 ≤ p.hardCount
  sum : p.easyCount + p.mediumCount + p.hardCount = p.questionsQuantity

/-- A course that adds up passes both validations, and is stored as it was sent. -/
theorem CoursePayload.AddsUp.accepted {p : CoursePayload} (h : p.AddsUp) :
    ∃ dto saved, p.dto = some dto ∧ validateAndMapCourse dto = .ok saved ∧
      coursePayload saved = p := by
  obtain ⟨courseId, quantity, easy, medium, hard⟩ := p
  obtain ⟨hquantity, heasy, hmedium, hhard, hsum⟩ := h
  dsimp only at hquantity heasy hmedium hhard hsum
  have hcounts : easy.toNat + medium.toNat + hard.toNat = quantity.toNat := by omega
  have hpositive : 0 < quantity.toNat := by omega
  refine ⟨_, ⟨courseId, quantity.toNat, easy.toNat, medium.toNat, hard.toNat, hpositive, hcounts⟩,
    dif_pos ⟨hquantity, heasy, hmedium, hhard⟩, dif_pos hcounts, ?_⟩
  simp only [coursePayload, CoursePayload.mk.injEq, true_and]
  omega

/-- So do courses. -/
theorem accepted_of_addUp {ps : List CoursePayload} (h : ∀ p ∈ ps, p.AddsUp) :
    ∃ dtos courses, ps.mapM CoursePayload.dto = some dtos ∧ mapCourses dtos = .ok courses ∧
      courses.map coursePayload = ps := by
  induction ps with
  | nil => exact ⟨[], [], rfl, rfl, rfl⟩
  | cons p ps ih =>
    obtain ⟨dto, saved, hdto, hsaved, hstored⟩ := (h p List.mem_cons_self).accepted
    obtain ⟨dtos, courses, hdtos, hcourses, hrest⟩ := ih fun q hq => h q (List.mem_cons_of_mem _ hq)
    refine ⟨dto :: dtos, saved :: courses, ?_, ?_, ?_⟩
    · simp [List.mapM_cons, hdto, hdtos]
    · rw [mapCourses, hsaved, hcourses]
      rfl
    · rw [List.map_cons, hstored, hrest]

namespace Form

variable {form : Form}

/-- What a valid form shows. -/
structure Valid (form : Form) : Prop where
  named : form.name.toList.all isSpace = false
  weeks : form.scope = .accumulative → 2 ≤ number form.accumulationWeeks
  active : form.activeCourses ≠ []
  rows : ∀ c ∈ form.activeCourses,
    0 < number c.questionsQuantity ∧ c.sumDifficulty = number c.questionsQuantity

theorem isFormValid_iff : form.isFormValid = true ↔ form.Valid := by
  simp only [isFormValid, Bool.and_eq_true, Bool.not_eq_true', List.all_eq_true, beq_iff_eq,
    decide_eq_true_eq, Bool.and_eq_false_imp, decide_eq_false_iff_not, not_lt,
    List.isEmpty_eq_false_iff, and_assoc]
  exact ⟨fun ⟨hnamed, hweeks, hactive, hrows⟩ => ⟨hnamed, hweeks, hactive, hrows⟩,
    fun h => ⟨h.named, h.weeks, h.active, h.rows⟩⟩

/-- A form with a name that is not blank has a name. -/
theorem Valid.name_ne (h : form.Valid) : form.name ≠ "" := by
  intro hname
  have hnamed := h.named
  rw [hname] at hnamed
  exact Bool.noConfusion hnamed

/-- The rows of a valid form with sound rows add up. -/
theorem Valid.addUp (h : form.Valid) (hsound : ∀ c ∈ form.courses, c.Sound) :
    ∀ p ∈ form.payload.courses, p.AddsUp := by
  intro p hp
  obtain ⟨c, hc, rfl⟩ := List.mem_map.mp hp
  obtain ⟨heasy, hmedium, hhard, -⟩ := hsound c (List.mem_of_mem_filter hc)
  obtain ⟨hquantity, hsum⟩ := h.rows c hc
  exact ⟨hquantity, heasy, hmedium, hhard, hsum⟩

/-- The weeks that are sent pass their checks. -/
theorem Valid.weeks_accepted (h : form.Valid) :
    form.payload.accumulationWeeks.any (· < 1) = false := by
  by_cases hscope : form.scope = .accumulative
  · have hweeks := h.weeks hscope
    have hsent : form.payload.accumulationWeeks = form.accumulationWeeks := if_pos hscope
    rw [hsent]
    cases hw : form.accumulationWeeks with
    | none => rfl
    | some w =>
      rw [hw, number_some] at hweeks
      exact decide_eq_false (by omega)
  · have hsent : form.payload.accumulationWeeks = none := if_neg hscope
    rw [hsent]
    rfl

/-- The weeks that are stored, where the scope uses them. -/
theorem Valid.weeks_stored (h : form.Valid) (hscope : form.scope = .accumulative) :
    ∃ w : ℕ, form.payload.accumulationWeeks = some (w : ℤ) ∧
      form.accumulationWeeks = some (w : ℤ) := by
  have hweeks := h.weeks hscope
  have hsent : form.payload.accumulationWeeks = form.accumulationWeeks := if_pos hscope
  rw [hsent]
  cases hw : form.accumulationWeeks with
  | none =>
    rw [hw] at hweeks
    exact absurd hweeks (by decide)
  | some w =>
    rw [hw, number_some] at hweeks
    obtain ⟨n, rfl⟩ := Int.eq_ofNat_of_zero_le (by omega : 0 ≤ w)
    exact ⟨n, rfl, rfl⟩

/-- The request that creates a template passes its checks. -/
theorem Valid.createDto (h : form.Valid) {dtos : List CreateTemplateCourseDto}
    (hdtos : form.payload.courses.mapM CoursePayload.dto = some dtos) :
    form.payload.createDto =
      some ⟨form.name, form.scope, form.payload.accumulationWeeks.map Int.toNat, dtos⟩ := by
  have hpass : ¬(form.payload.name = "" ∨ form.payload.accumulationWeeks.any (· < 1) = true) := by
    rintro (hname | hweeks)
    · exact h.name_ne hname
    · rw [h.weeks_accepted] at hweeks
      cases hweeks
  rw [TemplatePayload.createDto, if_neg hpass, hdtos]
  rfl

/-- The update that a form asks for. -/
def update (form : Form) (dtos : List CreateTemplateCourseDto) :
    UpdateCycleMaterialTemplateDto where
  name := some (some form.name)
  scope := some (some form.scope)
  accumulationWeeks := form.payload.accumulationWeeks.map fun weeks => some weeks.toNat
  courses := some dtos

/-- The request that updates a template passes its checks. -/
theorem Valid.updateDto (h : form.Valid) {dtos : List CreateTemplateCourseDto}
    (hdtos : form.payload.courses.mapM CoursePayload.dto = some dtos) :
    form.payload.updateDto = some (form.update dtos) := by
  have hpass : ¬form.payload.accumulationWeeks.any (· < 1) = true := by
    rw [h.weeks_accepted]
    exact Bool.false_ne_true
  rw [TemplatePayload.updateDto, if_neg hpass, hdtos]
  rfl

/-- A template that is created is the form. -/
theorem Valid.created (h : form.Valid) (cycleId : Materials.Uuid) {courses : List TemplateCourse}
    (hcourses : courses.map coursePayload = form.payload.courses) :
    form.StoredAs ⟨cycleId, form.name, form.scope, form.payload.accumulationWeeks.map Int.toNat,
      courses⟩ := by
  refine ⟨rfl, rfl, fun hscope => ?_, hcourses⟩
  obtain ⟨w, hw, hform⟩ := h.weeks_stored hscope
  rw [hw, hform]
  rfl

/-- A template that is updated is the form, too. -/
theorem Valid.updated (h : form.Valid) (old : Template) (dtos : List CreateTemplateCourseDto)
    {courses : List TemplateCourse}
    (hcourses : courses.map coursePayload = form.payload.courses) :
    form.StoredAs (old.updated (form.update dtos) (some courses)) := by
  refine ⟨rfl, rfl, fun hscope => ?_, hcourses⟩
  obtain ⟨w, hw, hform⟩ := h.weeks_stored hscope
  simp only [Template.updated, update, hw, hform]
  rfl

/-- Weeks that the scope does not use are left as they are. -/
theorem accumulationWeeks_updated (hscope : form.scope ≠ .accumulative) (old : Template)
    (dtos : List CreateTemplateCourseDto) (courses : Option (List TemplateCourse)) :
    (old.updated (form.update dtos) courses).accumulationWeeks = old.accumulationWeeks := by
  have hsent : form.payload.accumulationWeeks = none := if_neg hscope
  simp only [Template.updated, update, hsent]
  rfl

/-- **Saving a valid form:** the request is accepted, and the template is stored as the form shows
it. Weeks that the scope does not use are the ones from before. -/
theorem Valid.saveTemplate (h : form.Valid) (hsound : ∀ c ∈ form.courses, c.Sound) (isNew : Bool)
    (cycleId templateId : Materials.Uuid) (rowIds : ℕ → Materials.Uuid) :
    ∃ call, form.saveTemplate isNew cycleId templateId rowIds = some call ∧
      ∀ store : Store,
        (isNew = false → ∃ t, store templateId = some t ∧ t.cycleId = cycleId) →
        ∃ t, call.effect store = Function.update store templateId (some t) ∧
          t.cycleId = cycleId ∧ form.StoredAs t ∧
          (isNew = false → form.scope ≠ .accumulative → ∀ old, store templateId = some old →
            t.accumulationWeeks = old.accumulationWeeks) := by
  have hvalid : form.isFormValid = true := isFormValid_iff.mpr h
  obtain ⟨dtos, courses, hdtos, hcourses, hstored⟩ := accepted_of_addUp (h.addUp hsound)
  cases isNew with
  | true =>
    refine ⟨_, by rw [Form.saveTemplate, if_pos hvalid, if_pos rfl, h.createDto hdtos]; rfl,
      fun store _ => ⟨_, ?_, ?_, h.created cycleId hstored, fun hnew => Bool.noConfusion hnew⟩⟩
    · simp only [TemplateCall.effect, hcourses]
    · rfl
  | false =>
    refine ⟨_, by rw [Form.saveTemplate, if_pos hvalid, if_neg Bool.false_ne_true,
      h.updateDto hdtos]; rfl, fun store hold => ?_⟩
    obtain ⟨old, hfind, hcycle⟩ := hold rfl
    have hmapped : (form.update dtos).mapped = .ok (some courses) := by
      simp only [UpdateCycleMaterialTemplateDto.mapped, update, hcourses]
      rfl
    refine ⟨_, ?_, ?_, h.updated old dtos hstored, ?_⟩
    · simp only [TemplateCall.effect, hmapped, hfind, Option.map_some, if_pos hcycle]
    · exact hcycle
    · intro _ hscope old' hfind'
      rw [hfind] at hfind'
      cases hfind'
      exact accumulationWeeks_updated hscope old dtos (some courses)

end Form

section Reopening

variable {t t' : Template} {catalog : List CatalogCourse}

/-- The catalog has the courses of a template. -/
def Covers (catalog : List CatalogCourse) (t : Template) : Prop :=
  ∀ c ∈ t.courses, ∃ k ∈ catalog, k.id = c.courseId

/-- A template as it is read back: its courses can come in another order. -/
structure Template.ReadAs (t t' : Template) : Prop where
  name : t'.name = t.name
  scope : t'.scope = t.scope
  accumulationWeeks : t'.accumulationWeeks = t.accumulationWeeks
  courses : t'.courses.Perm t.courses

/-- Two forms show the same template, but for the order of its courses. -/
structure Form.SameTemplate (form form' : Form) : Prop where
  name : form'.name = form.name
  scope : form'.scope = form.scope
  weeks : form.scope = .accumulative → form'.accumulationWeeks = form.accumulationWeeks
  courses : (form'.activeCourses.map FormCourse.payload).Perm
    (form.activeCourses.map FormCourse.payload)

/-- The rows of the saved courses show them. -/
theorem savedRows_active (hcovers : Covers catalog t) :
    ((savedRows catalog t.courses).filter (·.isActive)).map FormCourse.payload =
      t.courses.map coursePayload := by
  rw [savedRows, List.filter_filterMap, List.map_filterMap, ← List.filterMap_eq_map]
  refine List.filterMap_congr fun saved hsaved => ?_
  obtain ⟨k, hk, hid⟩ := hcovers saved hsaved
  obtain ⟨found, hfound⟩ := exists_find?_catalog hk
  rw [hid] at hfound
  obtain ⟨-, hsame⟩ := of_find?_catalog hfound
  simp [hfound, Option.filter, savedRow, FormCourse.payload, coursePayload, hsame]

/-- The other rows are not active. -/
theorem otherRows_inactive (courses : List TemplateCourse) :
    (otherRows catalog courses).filter (·.isActive) = [] := by
  refine List.filter_eq_nil_iff.mpr fun c hc => ?_
  obtain ⟨k, -, rfl⟩ := List.mem_map.mp hc
  exact Bool.false_ne_true

/-- A page that is opened on a template shows it. -/
theorem Form.storedAs_mounted (form : Form) (hcovers : Covers catalog t) :
    (form.mounted (some t) catalog).StoredAs t := by
  refine ⟨rfl, rfl, fun _ => rfl, ?_⟩
  rw [activeCourses, courses_mounted, allCourses, List.filter_append, otherRows_inactive,
    List.append_nil]
  exact (savedRows_active hcovers).symm

/-- The courses that a form shows are in the catalog where its rows are. -/
theorem Form.StoredAs.covers {form : Form} (h : form.StoredAs t)
    (hrows : ∀ c ∈ form.courses, c.entry ∈ catalog) : Covers catalog t := by
  intro c hc
  have hsent : coursePayload c ∈ form.activeCourses.map FormCourse.payload :=
    h.courses ▸ List.mem_map_of_mem hc
  obtain ⟨row, hrow, hpayload⟩ := List.mem_map.mp hsent
  have hid : row.courseId = c.courseId := congrArg CoursePayload.courseId hpayload
  exact ⟨row.entry, hrows row (List.mem_of_mem_filter hrow), hid⟩

/-- A page that is opened on what a form was stored as shows what the form showed. -/
theorem Form.StoredAs.reopened {form : Form} (h : form.StoredAs t) (hcovers : Covers catalog t)
    (hread : t.ReadAs t') (start : Form) :
    form.SameTemplate (start.mounted (some t') catalog) := by
  have hcovers' : Covers catalog t' := fun c hc => hcovers c (hread.courses.mem_iff.mp hc)
  have hopened := start.storedAs_mounted hcovers'
  constructor
  · exact hread.name.trans h.name
  · exact hread.scope.trans h.scope
  · intro hscope
    change t'.accumulationWeeks.map Int.ofNat = form.accumulationWeeks
    rw [hread.accumulationWeeks, h.weeks hscope]
  · rw [← hopened.courses, ← h.courses]
    exact hread.courses.map _

end Reopening

/-- **What the page saves:** in every run in which no negative count is typed, the page has no row,
or the courses of the catalog, each once; the counts of a row are never more than its quantity; and
a form that is valid passes the checks of the request and is stored as the page shows it, with no
course twice. A page that is opened on it shows it again. -/
theorem template_page_saves {template : Option Template} {catalog : List CatalogCourse}
    (hcatalog : (catalog.map (·.id)).Nodup)
    (htemplate : ((templateCourses template).map (·.courseId)).Nodup) {page : TemplatePage}
    (h : Reaches (TemplatePage.step template catalog) (fun _ e => e.NonNegative) .initial page) :
    (page.form.courses = [] ∨ (page.form.courses.map FormCourse.entry).Perm catalog) ∧
      (∀ c ∈ page.form.courses, c.sumDifficulty ≤ max 0 (number c.questionsQuantity)) ∧
      (page.form.isFormValid = true → ∀ isNew cycleId templateId rowIds,
        ∃ call, page.form.saveTemplate isNew cycleId templateId rowIds = some call ∧
          ∀ store : Store,
            (isNew = false → ∃ t, store templateId = some t ∧ t.cycleId = cycleId) →
            ∃ t, call.effect store = Function.update store templateId (some t) ∧
              t.cycleId = cycleId ∧ page.form.StoredAs t ∧ (t.courses.map (·.courseId)).Nodup ∧
              ∀ t', t.ReadAs t' →
                page.form.SameTemplate (Form.initial.mounted (some t') catalog)) := by
  have hkept := kept_of_reaches h
  have hentries := allCourses_entries hcatalog htemplate
  have hrows : page.form.courses = [] ∨
      (page.form.courses.map FormCourse.entry).Perm catalog := by
    rcases hkept.entries with hnone | hall
    · exact .inl (List.map_eq_nil_iff.mp hnone.eq_nil)
    · exact .inr (hall.trans hentries)
  have hids : (page.form.courses.map (·.courseId)).Nodup := by
    rcases hrows with hnone | hall
    · rw [hnone]
      exact List.nodup_nil
    · have hperm := hall.map CatalogCourse.id
      rw [List.map_map] at hperm
      exact hperm.nodup_iff.mpr hcatalog
  have hlisted : ∀ c ∈ page.form.courses, c.entry ∈ catalog := by
    intro c hc
    rcases hrows with hnone | hall
    · rw [hnone] at hc
      cases hc
    · exact hall.mem_iff.mp (List.mem_map_of_mem hc)
  refine ⟨hrows, fun c hc => (hkept.sound c hc).within, fun hvalid => ?_⟩
  intro isNew cycleId templateId rowIds
  obtain ⟨call, hcall, hstores⟩ := (Form.isFormValid_iff.mp hvalid).saveTemplate hkept.sound isNew
    cycleId templateId rowIds
  refine ⟨call, hcall, fun store hold => ?_⟩
  obtain ⟨t, heffect, hcycle, hstored, -⟩ := hstores store hold
  refine ⟨t, heffect, hcycle, hstored, ?_, fun t' hread => ?_⟩
  · have hsame : t.courses.map (·.courseId) = page.form.activeCourses.map (·.courseId) := by
      have hmap := congrArg (List.map CoursePayload.courseId) hstored.courses
      rwa [List.map_map, List.map_map] at hmap
    rw [hsame]
    exact hids.sublist (List.filter_sublist.map _)
  · exact hstored.reopened (hstored.covers hlisted) hread .initial

/-- A catalog of two courses. -/
def twoCourses : List CatalogCourse := [⟨1, "Álgebra"⟩, ⟨2, "Física"⟩]

/-- A template is written with both; of nine easy questions of seven three are left, and the second
course is dragged before the first. -/
def examEdits : List PageEvent :=
  [.mounted, .edit (.typeName "Examen"), .edit (.addCourse 0), .edit (.addCourse 1),
    .edit (.typeQuantity 1 (some 7)), .edit (.typeCount 1 .easy (some 9)), .edit (.onDrop 1 0)]

/-- The page after these edits. -/
def examPage : TemplatePage := after (TemplatePage.step none twoCourses) .initial examEdits

/-- The page of the new template saves it, with its courses as they were dragged. -/
theorem template_page_saves_examPage :
    examPage.form.activeCourses.map FormCourse.payload = [⟨2, 7, 3, 2, 2⟩, ⟨1, 5, 2, 2, 1⟩] ∧
      ∃ call, examPage.form.saveTemplate true 70 80 id = some call ∧
        ∀ store : Store, ∃ t, call.effect store = Function.update store 80 (some t) ∧
          examPage.form.StoredAs t := by
  have hreach : Reaches (TemplatePage.step none twoCourses) (fun _ e => e.NonNegative) .initial
      examPage := by
    refine reaches_after rfl fun _ e he => ?_
    simp only [examEdits, List.mem_cons, List.not_mem_nil, or_false] at he
    rcases he with rfl | rfl | rfl | rfl | rfl | rfl | rfl <;>
      simp [PageEvent.NonNegative, FormEdit.NonNegative]
  obtain ⟨-, -, hsaves⟩ := template_page_saves (by decide) (by decide) hreach
  obtain ⟨call, hcall, hstores⟩ := hsaves (by decide +kernel) true 70 80 id
  refine ⟨by decide +kernel, call, hcall, fun store => ?_⟩
  obtain ⟨t, heffect, -, hstored, -⟩ := hstores store fun hnew => Bool.noConfusion hnew
  exact ⟨t, heffect, hstored⟩

/-- A negative count leaves a form that is valid and that the checks of the request refuse. -/
example :
    let page := after (TemplatePage.step none twoCourses) .initial
      [.mounted, .edit (.typeName "Examen"), .edit (.addCourse 0),
        .edit (.typeCount 0 .hard (some (-2))), .edit (.typeCount 0 .easy (some 5))]
    page.form.isFormValid = true ∧ page.form.payload.createDto = none := by
  decide +kernel

end Odiseo.Templates
