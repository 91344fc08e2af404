import Odiseo.Materials.Planning
import Odiseo.Database.System

/-!
# Material templates

`AcademicTimeUseCase` for the templates of a cycle: creating, updating and deleting one with its
courses, each as the transactions that it opens. Only a deletion checks and writes in one
transaction. A creation and an update check the cycle in a transaction of their own, and write in
the next one.
-/

namespace Odiseo.Templates

open Database Odiseo.Materials

/-- `TemplateScope`. -/
inductive TemplateScope
  | currentWeek
  | accumulative
  | fullAccumulative
  deriving DecidableEq, Repr

/-- `CycleMaterialTemplate`. -/
structure CycleMaterialTemplate where
  id : Uuid
  cycleId : Uuid
  name : String
  scope : TemplateScope
  accumulationWeeks : Option ℕ
  deriving DecidableEq, Repr

/-- `CycleMaterialTemplateCourse`. -/
structure CycleMaterialTemplateCourse where
  id : Uuid
  templateId : Uuid
  course : TemplateCourse

instance : Keyed Uuid CycleMaterialTemplate := ⟨CycleMaterialTemplate.id⟩

instance : Keyed Uuid CycleMaterialTemplateCourse := ⟨CycleMaterialTemplateCourse.id⟩

/-- A row of `cycles`, as a template reads it. -/
structure CycleRow where
  id : Uuid
  /-- `deleted_at` is set. -/
  deleted : Bool
  deriving DecidableEq, Repr

/-- The tables whose rows name a template. -/
inductive Dependant
  | syllabus
  | syllabusDistribution
  | materialRequest
  | material
  deriving DecidableEq, Repr

/-- What other modules write: the cycles, and the rows that name a template. -/
structure Elsewhere where
  cycles : List CycleRow
  references : List (Dependant × Option Uuid)
  deriving DecidableEq, Repr

/-- The database of a tenant, with the courses of the shared catalog. -/
structure Db where
  catalog : List CatalogId
  elsewhere : Elsewhere
  templates : Table Uuid CycleMaterialTemplate
  templateCourses : Table Uuid CycleMaterialTemplateCourse

/-- The rows that a statement locks. -/
inductive Row
  | template (id : Uuid)
  | templateCourse (id : Uuid)
  deriving DecidableEq, Repr

/-- A transaction of the templates. It adds no jobs. -/
abbrev Tx (α : Type) := Program Db Row Empty HttpError α

/-- `CreateCycleMaterialTemplateDto`. -/
structure CreateCycleMaterialTemplateDto where
  name : String
  scope : TemplateScope
  accumulationWeeks : Option ℕ
  courses : List CreateTemplateCourseDto

/-- `UpdateCycleMaterialTemplateDto`. A column can be absent, `null` or a value; courses that are
`null` count as absent. -/
structure UpdateCycleMaterialTemplateDto where
  name : Option (Option String)
  scope : Option (Option TemplateScope)
  accumulationWeeks : Option (Option ℕ)
  courses : Option (List CreateTemplateCourseDto)

/-- `validateAndMapCourses`, before the rows get their identifiers. -/
def mapCourses : List CreateTemplateCourseDto → Except HttpError (List TemplateCourse)
  | [] => .ok []
  | c :: cs => do
    let course ← validateAndMapCourse c
    let courses ← mapCourses cs
    pure (course :: courses)

/-- The rows of the courses of a template, with the identifiers that are drawn for them. -/
def courseRows (templateId : Uuid) (rowIds : ℕ → Uuid) (courses : List TemplateCourse) :
    List CycleMaterialTemplateCourse :=
  courses.mapIdx fun i course => ⟨rowIds i, templateId, course⟩

/-- The greatest value of an `integer` column. -/
def maxInteger : ℕ := 2147483647

/-- Values that the columns of a template refuse: a name that is too long, a number that is too
great. -/
def columnsRefused (name : Option String) (accumulationWeeks : Option ℕ) : Bool :=
  name.any (255 < ·.length) || accumulationWeeks.any (maxInteger < ·)

/-- The courses of a template. -/
def Db.coursesOf (db : Db) (templateId : Uuid) : List CycleMaterialTemplateCourse :=
  db.templateCourses.filter fun r => r.templateId == templateId

/-- `getCycleWithSyllabus`, as a creation uses it: whether the cycle is there. -/
def getCycleWithSyllabus (id : Uuid) : Tx Bool :=
  Program.select fun v => v.elsewhere.cycles.any fun c => c.id == id && !c.deleted

/-- The insertion of rows of courses. Their template, their courses and their numbers have to fit
the columns. -/
def insertCoursesRefused (rows : List CycleMaterialTemplateCourse) (v : Db) : Bool :=
  rows.any fun r => (v.templates.find r.templateId).isNone || !v.catalog.contains r.course.courseId ||
    (v.templateCourses.find r.id).isSome || decide (maxInteger < r.course.questionsQuantity)

/-- The database after rows of courses have been inserted. -/
def insertCoursesIn (rows : List CycleMaterialTemplateCourse) (db : Db) : Db :=
  { db with templateCourses := rows.foldl Table.insert db.templateCourses }

/-- `manager.save(templateCourses)`, for courses if there are any. -/
def saveCourses (rows : List CycleMaterialTemplateCourse) : Tx Unit :=
  if rows.isEmpty then pure ()
  else
    Program.attempt (fun _ => rows.map fun r => .templateCourse r.id) (insertCoursesRefused rows)
      (insertCoursesIn rows) .queryFailed

/-- The database after a template has been inserted. -/
def insertTemplateIn (row : CycleMaterialTemplate) (db : Db) : Db :=
  { db with templates := db.templates.insert row }

/-- `AcademicTimeRepositoryImpl.createTemplate`. The cycle has to have a row, deleted or not. -/
def createTemplateRows (row : CycleMaterialTemplate) (rows : List CycleMaterialTemplateCourse) :
    Tx Unit := do
  Program.attempt (fun _ => [.template row.id])
    (fun v => (v.templates.find row.id).isSome || !v.elsewhere.cycles.any (·.id == row.cycleId) ||
      columnsRefused (some row.name) row.accumulationWeeks)
    (insertTemplateIn row) .queryFailed
  saveCourses rows

/-- `templateData` of a creation, without its courses. -/
def CreateCycleMaterialTemplateDto.templateData (dto : CreateCycleMaterialTemplateDto)
    (cycleId templateId : Uuid) : CycleMaterialTemplate where
  id := templateId
  cycleId := cycleId
  name := dto.name
  scope := dto.scope
  accumulationWeeks := dto.accumulationWeeks

/-- The second transaction of `createTemplate`. -/
def createTemplate (cycleId templateId : Uuid) (dto : CreateCycleMaterialTemplateDto)
    (rowIds : ℕ → Uuid) : Tx Uuid :=
  match mapCourses dto.courses with
  | .error e => Program.throw e
  | .ok courses => do
    createTemplateRows (dto.templateData cycleId templateId)
      (courseRows templateId rowIds courses)
    pure templateId

/-- `getTemplateInCycle`: whether the template belongs to the cycle. -/
def getTemplateInCycle (templateId cycleId : Uuid) : Tx Bool :=
  Program.select fun v => (v.templates.find templateId).any fun r => r.cycleId == cycleId

/-- The columns that an update of a template writes. -/
def updateTemplateColumns (dto : UpdateCycleMaterialTemplateDto) (row : CycleMaterialTemplate) :
    CycleMaterialTemplate :=
  { row with
    name := (dto.name.bind id).getD row.name
    scope := (dto.scope.bind id).getD row.scope
    accumulationWeeks := dto.accumulationWeeks.getD row.accumulationWeeks }

/-- A row that is there refuses `null` in its name and its scope. -/
def updateTemplateRefused (templateId : Uuid) (dto : UpdateCycleMaterialTemplateDto) (v : Db) :
    Bool :=
  (v.templates.find templateId).isSome &&
    (dto.name == some none || dto.scope == some none ||
      columnsRefused (dto.name.bind id) (dto.accumulationWeeks.bind id))

/-- The database after the columns of a template have been written. -/
def updateTemplateIn (templateId : Uuid) (dto : UpdateCycleMaterialTemplateDto) (db : Db) : Db :=
  { db with templates := db.templates.modify templateId (updateTemplateColumns dto) }

/-- A row that a statement sees is locked by it. -/
def lockTemplate (templateId : Uuid) (v : Db) : List Row :=
  if (v.templates.find templateId).isSome then [.template templateId] else []

/-- The database after the courses of a template that a statement sees have been deleted. -/
def deleteCoursesIn (templateId : Uuid) (v db : Db) : Db :=
  { db with templateCourses := db.templateCourses.delete fun r =>
      r.templateId == templateId && (v.templateCourses.find r.id).isSome }

/-- `manager.delete(CycleMaterialTemplateCourse, ...)`. -/
def deleteCourses (templateId : Uuid) : Tx Unit :=
  Program.write (fun v => (v.coursesOf templateId).map fun r => .templateCourse r.id)
    (deleteCoursesIn templateId) fun _ => ()

/-- `AcademicTimeRepositoryImpl.updateTemplate`. -/
def updateTemplateRows (templateId : Uuid) (dto : UpdateCycleMaterialTemplateDto)
    (courses : Option (List CycleMaterialTemplateCourse)) : Tx Unit := do
  Program.attempt (lockTemplate templateId) (updateTemplateRefused templateId dto)
    (updateTemplateIn templateId dto) .queryFailed
  match courses with
  | none => pure ()
  | some rows => do
    deleteCourses templateId
    saveCourses rows

/-- The second transaction of `updateTemplate`. -/
def updateTemplate (templateId : Uuid) (dto : UpdateCycleMaterialTemplateDto)
    (rowIds : ℕ → Uuid) : Tx Unit :=
  match dto.courses with
  | none => updateTemplateRows templateId dto none
  | some cs =>
    match mapCourses cs with
    | .error e => Program.throw e
    | .ok courses => updateTemplateRows templateId dto (some (courseRows templateId rowIds courses))

/-- The label of a table in the refusal of a deletion. -/
def Dependant.label : Dependant → String
  | .syllabus => "syllabus"
  | .syllabusDistribution => "syllabus distributions"
  | .materialRequest => "material requests"
  | .material => "generated materials"

/-- `getTemplateUsage`: how many rows of each table name the template, for those that have one. -/
def Db.dependants (db : Db) (templateId : Uuid) : List (ℕ × String) :=
  ([.syllabus, .syllabusDistribution, .materialRequest, .material].map fun table =>
    (db.elsewhere.references.count (table, some templateId), table.label)).filter (0 < ·.1)

/-- The refusal of the deletion of a template that is in use. -/
def inUse (dependants : List (ℕ × String)) : HttpError :=
  let detail := ", ".intercalate (dependants.map fun d => toString d.1 ++ " " ++ d.2)
  .conflict s!"Cannot delete this material template because it is used by {detail}. Remove or reassign them first."

/-- What the foreign keys do to a row that names a deleted template: a planned one forgets it, a
generated one goes with it. -/
def onDelete (templateId : Uuid) (reference : Dependant × Option Uuid) :
    Option (Dependant × Option Uuid) :=
  if reference.2 = some templateId then
    match reference.1 with
    | .syllabus | .syllabusDistribution => some (reference.1, none)
    | .materialRequest | .material => none
  else some reference

/-- The database after a template that a statement sees has been deleted. -/
def deleteTemplateIn (templateId : Uuid) (v db : Db) : Db :=
  if (v.templates.find templateId).isSome then
    { db with
      elsewhere :=
        { db.elsewhere with
          references := db.elsewhere.references.filterMap (onDelete templateId) }
      templates := db.templates.delete fun r => r.id == templateId
      templateCourses := db.templateCourses.delete fun r => r.templateId == templateId }
  else db

/-- `AcademicTimeRepositoryImpl.deleteTemplate`. -/
def deleteTemplateRows (templateId : Uuid) : Tx Unit := do
  deleteCourses templateId
  Program.write (fun v => lockTemplate templateId v ++
      (v.coursesOf templateId).map fun r => .templateCourse r.id)
    (deleteTemplateIn templateId) fun _ => ()

/-- `deleteTemplate`. -/
def deleteTemplate (cycleId templateId : Uuid) : Tx Unit := do
  let owned ← getTemplateInCycle templateId cycleId
  if owned then do
    let dependants ← Program.select fun v => v.dependants templateId
    if dependants.isEmpty then deleteTemplateRows templateId
    else Program.throw (inUse dependants)
  else Program.throw (.notFound "Template not found for this cycle.")

/-- The transactions of the templates. The first two are the checks of a creation and of an
update, the last one is a transaction of another module. -/
inductive TemplateCall
  | getCycleWithSyllabus (cycleId : Uuid)
  | createTemplate (cycleId templateId : Uuid) (dto : CreateCycleMaterialTemplateDto)
      (rowIds : ℕ → Uuid)
  | getTemplateInCycle (templateId cycleId : Uuid)
  | updateTemplate (cycleId templateId : Uuid) (dto : UpdateCycleMaterialTemplateDto)
      (rowIds : ℕ → Uuid)
  | deleteTemplate (cycleId templateId : Uuid)
  | elsewhere (change : Elsewhere → Elsewhere)

/-- The answer of a transaction. -/
inductive TemplateAnswer
  | found (answer : Bool)
  | created (id : Uuid)
  | done
  deriving DecidableEq, Repr

/-- The program of each call. -/
def TemplateCall.program : TemplateCall → Tx TemplateAnswer
  | .getCycleWithSyllabus cycleId => .found <$> Templates.getCycleWithSyllabus cycleId
  | .createTemplate cycleId templateId dto rowIds =>
    .created <$> Templates.createTemplate cycleId templateId dto rowIds
  | .getTemplateInCycle templateId cycleId =>
    .found <$> Templates.getTemplateInCycle templateId cycleId
  | .updateTemplate _ templateId dto rowIds =>
    (fun _ => .done) <$> Templates.updateTemplate templateId dto rowIds
  | .deleteTemplate cycleId templateId =>
    (fun _ => .done) <$> Templates.deleteTemplate cycleId templateId
  | .elsewhere change =>
    (fun _ => .done) <$> Program.write (fun _ => [])
      (fun _ db => { db with elsewhere := change db.elsewhere }) fun _ => ()

/-- The machine of the templates. -/
def templates : Machine TemplateCall Db Row Empty HttpError TemplateAnswer where
  program := TemplateCall.program
  dispatched _ := []

/-- A state of the run. -/
abbrev State := System TemplateCall Db Row Empty HttpError TemplateAnswer

/-- The identifiers that a call draws. -/
def TemplateCall.draws : TemplateCall → List Uuid
  | .createTemplate _ templateId dto rowIds =>
    templateId :: (List.range dto.courses.length).map rowIds
  | .updateTemplate _ _ dto rowIds => (List.range (dto.courses.getD []).length).map rowIds
  | _ => []

/-- A row of the templates has an identifier. -/
def Db.Mentions (db : Db) (id : Uuid) : Prop :=
  (db.templates.find id).isSome ∨ (db.templateCourses.find id).isSome

instance (db : Db) (id : Uuid) : Decidable (db.Mentions id) :=
  inferInstanceAs (Decidable (_ ∨ _))

/-- The check that comes before a call has been answered. -/
def Checked (commits : List (Commit TemplateCall Empty TemplateAnswer)) : TemplateCall → Prop
  | .createTemplate cycleId _ _ _ =>
    ∃ c ∈ commits, c.call = .getCycleWithSyllabus cycleId ∧ c.result = .found true
  | .updateTemplate cycleId templateId _ _ =>
    ∃ c ∈ commits, c.call = .getTemplateInCycle templateId cycleId ∧ c.result = .found true
  | _ => True

/-- What is promised of a run: the second transaction of a call starts after its check, and the
identifiers that are drawn are new, now and in the past. -/
def InOrder (start : Db) (s : State) (e : Event TemplateCall) : Prop :=
  ∀ call, e = .start call → Checked s.commits call ∧ call.draws.Nodup ∧
    ∀ i ∈ call.draws, ¬start.Mentions i ∧ (∀ c ∈ s.commits, i ∉ c.call.draws) ∧
      ∀ t ∈ s.active, i ∉ t.call.draws

end Odiseo.Templates
