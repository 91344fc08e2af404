import Odiseo.Database.Transition
import Odiseo.Logging.ScrubSecrets
import Odiseo.Materials.Selection
import Odiseo.Templates.Store

/-!
# The page of a template

The page on which a template is written. Its form has a row for every course of the catalog, and
the active rows are the template. A quantity that changes is split evenly over the difficulties,
a count that is typed is cut to what the quantity leaves, and rows are dragged into an order. The
page sends a form that it finds valid; the checks of the request then have the last word.
-/

namespace Odiseo.Templates

open Odiseo.Materials (CatalogId QuestionDifficultyLevel TemplateCourse CreateTemplateCourseDto
  validateAndMapCourse)
open Odiseo.Logging (isSpace)

/-- A course of the catalog, as the page lists it. -/
structure CatalogCourse where
  id : CatalogId
  name : String
  deriving DecidableEq, Repr

/-- `Number(value) || 0` of a field that `v-model.number` fills: with a number, or with no text. -/
def number (field : Option ℤ) : ℤ := field.getD 0

/-- A row of the form. The numbers that are typed are whole ones; the columns hold no others. -/
structure FormCourse where
  courseId : CatalogId
  courseName : String
  questionsQuantity : Option ℤ
  easyCount : Option ℤ
  mediumCount : Option ℤ
  hardCount : Option ℤ
  isActive : Bool
  deriving DecidableEq, Repr

namespace FormCourse

/-- `sumDifficulty`. -/
def sumDifficulty (course : FormCourse) : ℤ :=
  number course.easyCount + number course.mediumCount + number course.hardCount

/-- `autoDistributeDifficulties`. -/
def autoDistributeDifficulties (course : FormCourse) : FormCourse :=
  let total := number course.questionsQuantity
  if total ≤ 0 then
    { course with easyCount := some 0, mediumCount := some 0, hardCount := some 0 }
  else
    { course with
      easyCount := some (total / 3 + if 1 ≤ total % 3 then 1 else 0)
      mediumCount := some (total / 3 + if 2 ≤ total % 3 then 1 else 0)
      hardCount := some (total / 3) }

/-- The count of a difficulty. -/
def count (course : FormCourse) : QuestionDifficultyLevel → ℤ
  | .easy => number course.easyCount
  | .medium => number course.mediumCount
  | .hard => number course.hardCount

/-- A row with another count. -/
def setCount (course : FormCourse) (value : Option ℤ) : QuestionDifficultyLevel → FormCourse
  | .easy => { course with easyCount := value }
  | .medium => { course with mediumCount := value }
  | .hard => { course with hardCount := value }

/-- `clampDifficulty`. -/
def clampDifficulty (course : FormCourse) (changed : QuestionDifficultyLevel) : FormCourse :=
  let total := number course.questionsQuantity
  if course.sumDifficulty ≤ total then course
  else
    course.setCount (some (max 0 (course.count changed - (course.sumDifficulty - total)))) changed

/-- `addCourse`. -/
def addCourse (course : FormCourse) : FormCourse :=
  { ({ course with questionsQuantity := some 5 }).autoDistributeDifficulties with isActive := true }

/-- `removeCourse`. -/
def removeCourse (course : FormCourse) : FormCourse :=
  { course with
    questionsQuantity := some 0
    easyCount := some 0
    mediumCount := some 0
    hardCount := some 0
    isActive := false }

/-- The quantity is typed. -/
def typeQuantity (value : Option ℤ) (course : FormCourse) : FormCourse :=
  ({ course with questionsQuantity := value }).autoDistributeDifficulties

/-- A count is typed. -/
def typeCount (level : QuestionDifficultyLevel) (value : Option ℤ) (course : FormCourse) :
    FormCourse :=
  (course.setCount value level).clampDifficulty level

/-- `incrementCourse`. -/
def incrementCourse (course : FormCourse) : FormCourse :=
  course.typeQuantity (some (number course.questionsQuantity + 1))

/-- `decrementCourse`. -/
def decrementCourse (course : FormCourse) : FormCourse :=
  let current := number course.questionsQuantity
  if 1 < current then course.typeQuantity (some (current - 1)) else course.removeCourse

end FormCourse

/-- A course that the page sends. -/
structure CoursePayload where
  courseId : CatalogId
  questionsQuantity : ℤ
  easyCount : ℤ
  mediumCount : ℤ
  hardCount : ℤ
  deriving DecidableEq, Repr

/-- A row, as it is sent. -/
def FormCourse.payload (course : FormCourse) : CoursePayload where
  courseId := course.courseId
  questionsQuantity := number course.questionsQuantity
  easyCount := number course.easyCount
  mediumCount := number course.mediumCount
  hardCount := number course.hardCount

/-- What the page sends. -/
structure TemplatePayload where
  name : String
  scope : TemplateScope
  accumulationWeeks : Option ℤ
  courses : List CoursePayload
  deriving DecidableEq, Repr

/-- The form of the page. -/
structure Form where
  name : String
  scope : TemplateScope
  accumulationWeeks : Option ℤ
  courses : List FormCourse
  deriving DecidableEq, Repr

namespace Form

/-- The form before the page is mounted. -/
def initial : Form := ⟨"", .currentWeek, none, []⟩

/-- `activeCourses`. -/
def activeCourses (form : Form) : List FormCourse := form.courses.filter (·.isActive)

/-- `isFormValid`. -/
def isFormValid (form : Form) : Bool :=
  !form.name.toList.all isSpace &&
    !(form.scope == .accumulative && decide (number form.accumulationWeeks < 2)) &&
    !form.activeCourses.isEmpty &&
    form.activeCourses.all fun c =>
      decide (0 < number c.questionsQuantity) && c.sumDifficulty == number c.questionsQuantity

/-- The payload of `saveTemplate`. -/
def payload (form : Form) : TemplatePayload where
  name := form.name
  scope := form.scope
  accumulationWeeks := if form.scope = .accumulative then form.accumulationWeeks else none
  courses := form.activeCourses.map FormCourse.payload

/-- A form with other rows. -/
def withCourses (form : Form) (courses : List FormCourse) : Form := { form with courses }

/-- Change a row that is active, or one that is not. -/
def changeRow (form : Form) (active : Bool) (row : ℕ) (change : FormCourse → FormCourse) :
    Option Form :=
  match form.courses[row]? with
  | some course =>
    if course.isActive = active then some (form.withCourses (form.courses.set row (change course)))
    else none
  | none => none

end Form

/-- Take a row out of the rows, and put it in front of another one. -/
def moveCourse (courses : List FormCourse) (source target : CatalogId) : List FormCourse :=
  match courses.findIdx? (·.courseId == source), courses.findIdx? (·.courseId == target) with
  | some realSourceIdx, some realTargetIdx =>
    match courses[realSourceIdx]? with
    | some movedItem =>
      let rest := courses.eraseIdx realSourceIdx
      rest.insertIdx ((rest.findIdx? (·.courseId == target)).getD realTargetIdx) movedItem
    | none => courses
  | _, _ => courses

/-- `onDrop`, with the positions of the two rows among the active ones. A position that is not
there ends it with an exception. -/
def Form.onDrop (form : Form) (sourceIndex targetIndex : ℕ) : Form :=
  if sourceIndex = targetIndex then form
  else
    match form.activeCourses[sourceIndex]?, form.activeCourses[targetIndex]? with
    | some sourceItem, some targetItem =>
      form.withCourses (moveCourse form.courses sourceItem.courseId targetItem.courseId)
    | _, _ => form

section Mounting

variable (template : Option Template) (catalog : List CatalogCourse)

/-- The row of a course that the template has. -/
def savedRow (c : CatalogCourse) (saved : TemplateCourse) : FormCourse where
  courseId := c.id
  courseName := c.name
  questionsQuantity := some saved.questionsQuantity
  easyCount := some saved.easyCount
  mediumCount := some saved.mediumCount
  hardCount := some saved.hardCount
  isActive := true

/-- The row of a course that the template does not have. -/
def emptyRow (c : CatalogCourse) : FormCourse :=
  ⟨c.id, c.name, some 0, some 0, some 0, some 0, false⟩

/-- The rows of the courses that a template has, where the catalog has them, in their order. -/
def savedRows (courses : List TemplateCourse) : List FormCourse :=
  courses.filterMap fun saved =>
    (catalog.find? (·.id == saved.courseId)).map fun c => savedRow c saved

/-- The rows of the other courses of the catalog. -/
def otherRows (courses : List TemplateCourse) : List FormCourse :=
  (catalog.filter fun c => !courses.any (·.courseId == c.id)).map emptyRow

/-- The courses of the template that is edited, if there is one. -/
def templateCourses : List TemplateCourse := (template.map (·.courses)).getD []

/-- The rows that the form gets. -/
def allCourses : List FormCourse :=
  savedRows catalog (templateCourses template) ++ otherRows catalog (templateCourses template)

/-- The form once the template and the catalog have been fetched. -/
def Form.mounted (form : Form) : Form :=
  match template with
  | some t =>
    { name := t.name
      scope := t.scope
      accumulationWeeks := t.accumulationWeeks.map Int.ofNat
      courses := allCourses template catalog }
  | none => form.withCourses (allCourses template catalog)

end Mounting

/-- What the user does on the page. A row is named by its position in the form. -/
inductive FormEdit
  | typeName (name : String)
  | chooseScope (scope : TemplateScope)
  | typeAccumulationWeeks (weeks : Option ℤ)
  | typeQuantity (row : ℕ) (value : Option ℤ)
  | typeCount (row : ℕ) (level : QuestionDifficultyLevel) (value : Option ℤ)
  | incrementCourse (row : ℕ)
  | decrementCourse (row : ℕ)
  | addCourse (row : ℕ)
  | removeCourse (row : ℕ)
  | onDrop (sourceIndex targetIndex : ℕ)

/-- The form after an edit. Only active rows have fields, and the weeks have one only where they
matter. -/
def Form.edit (form : Form) : FormEdit → Option Form
  | .typeName name => some { form with name }
  | .chooseScope scope => some { form with scope }
  | .typeAccumulationWeeks weeks =>
    if form.scope = .accumulative then some { form with accumulationWeeks := weeks } else none
  | .typeQuantity row value => form.changeRow true row (·.typeQuantity value)
  | .typeCount row level value => form.changeRow true row (·.typeCount level value)
  | .incrementCourse row => form.changeRow true row (·.incrementCourse)
  | .decrementCourse row => form.changeRow true row (·.decrementCourse)
  | .addCourse row => form.changeRow false row (·.addCourse)
  | .removeCourse row => form.changeRow true row (·.removeCourse)
  | .onDrop sourceIndex targetIndex => some (form.onDrop sourceIndex targetIndex)

/-- The page: its form, and whether it still waits for the template and the catalog. -/
structure TemplatePage where
  form : Form
  isCatalogsLoading : Bool

/-- A page that has been opened. -/
def TemplatePage.initial : TemplatePage := ⟨.initial, true⟩

/-- What happens on the page. -/
inductive PageEvent
  | edit (e : FormEdit)
  /-- The template and the catalog have been fetched. -/
  | mounted
  /-- One of them could not be fetched. -/
  | failed

/-- A step of a page to which the server answers a template, or none, and a catalog. -/
def TemplatePage.step (template : Option Template) (catalog : List CatalogCourse)
    (page : TemplatePage) : PageEvent → Option TemplatePage
  | .edit e => (page.form.edit e).map fun form => { page with form }
  | .mounted =>
    if page.isCatalogsLoading then some ⟨page.form.mounted template catalog, false⟩ else none
  | .failed =>
    if page.isCatalogsLoading then some { page with isCatalogsLoading := false } else none

/-- The checks of `CreateTemplateCourseDto`. -/
def CoursePayload.dto (c : CoursePayload) : Option CreateTemplateCourseDto :=
  if h : 0 < c.questionsQuantity ∧ 0 ≤ c.easyCount ∧ 0 ≤ c.mediumCount ∧ 0 ≤ c.hardCount then
    some
      { courseId := c.courseId
        questionsQuantity := c.questionsQuantity.toNat
        easyCount := some c.easyCount.toNat
        mediumCount := some c.mediumCount.toNat
        hardCount := some c.hardCount.toNat
        positive := by omega }
  else none

/-- The checks of `CreateCycleMaterialTemplateDto`. -/
def TemplatePayload.createDto (p : TemplatePayload) : Option CreateCycleMaterialTemplateDto :=
  if p.name = "" ∨ p.accumulationWeeks.any (· < 1) then none
  else
    (p.courses.mapM CoursePayload.dto).map fun courses =>
      { name := p.name
        scope := p.scope
        accumulationWeeks := p.accumulationWeeks.map Int.toNat
        courses }

/-- The checks of `UpdateCycleMaterialTemplateDto`. -/
def TemplatePayload.updateDto (p : TemplatePayload) : Option UpdateCycleMaterialTemplateDto :=
  if p.accumulationWeeks.any (· < 1) then none
  else
    (p.courses.mapM CoursePayload.dto).map fun courses =>
      { name := some (some p.name)
        scope := some (some p.scope)
        accumulationWeeks := p.accumulationWeeks.map fun weeks => some weeks.toNat
        courses := some courses }

/-- `saveTemplate`: the call that a form leads to, where it is valid and the checks of the request
accept it. -/
def Form.saveTemplate (form : Form) (isNew : Bool) (cycleId templateId : Materials.Uuid)
    (rowIds : ℕ → Materials.Uuid) : Option TemplateCall :=
  if form.isFormValid then
    if isNew then
      form.payload.createDto.map fun dto => .createTemplate cycleId templateId dto rowIds
    else form.payload.updateDto.map fun dto => .updateTemplate cycleId templateId dto rowIds
  else none

end Odiseo.Templates
