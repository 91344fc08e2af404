import Odiseo.Syllabi.AcademicTime
import Mathlib.Algebra.GroupWithZero.Nat

/-!
# The operations on syllabi

`SyllabusUseCase` and its repository: creating and archiving a syllabus, and cloning one syllabus or
all syllabi of a cycle. How names are trimmed and lowered is a parameter.
-/

namespace Odiseo.Syllabi

open Database

/-- `CreateSyllabusDto`. -/
structure CreateSyllabus where
  cycleId : Uuid
  courseId : CatalogId
  deriving DecidableEq, Repr

/-- Another active syllabus of the cycle has the course. -/
def courseTaken (id cycleId : Uuid) (courseId : CatalogId) (db : Db) : Bool :=
  db.syllabuses.rows.any fun s =>
    s.cycleId == cycleId && s.courseId == courseId && s.isActive && s.id != id

/-- The text of both conflicts of a creation. -/
def existsMessage : String :=
  "Ya existe un sílabo para este curso y ciclo. Por favor edite el existente."

/-- Why the database refuses a new syllabus. -/
def syllabusRefusal (syllabus : Syllabus) (db : Db) : Option AcademicError :=
  if (db.syllabuses.find syllabus.id).isSome ||
      (syllabus.isActive && courseTaken syllabus.id syllabus.cycleId syllabus.courseId db) then
    some (.conflict existsMessage)
  else if (db.cycles.find syllabus.cycleId).isNone || !db.courses.contains syllabus.courseId then
    some .queryFailed
  else none

/-- The database after a syllabus has been inserted. -/
def insertSyllabusIn (syllabus : Syllabus) (db : Db) : Db :=
  { db with syllabuses := db.syllabuses.insert syllabus }

/-- `createSyllabus`. -/
def createSyllabus (syllabus : Syllabus) : Tx Unit :=
  insertUnless
    (fun _ => [.syllabus syllabus.id, .activeSyllabus syllabus.cycleId syllabus.courseId])
    (syllabusRefusal syllabus) (insertSyllabusIn syllabus)

/-- `findByCourseAndCycle`. -/
def findByCourseAndCycle (courseId : CatalogId) (cycleId : Uuid) : Tx (Option Syllabus) :=
  Program.select fun v => v.syllabuses.rows.find? fun s =>
    s.courseId == courseId && s.cycleId == cycleId && s.isActive

/-- The new syllabus of a creation. -/
def newSyllabus (dto : CreateSyllabus) (id : Uuid) : Syllabus where
  id := id
  cycleId := dto.cycleId
  courseId := dto.courseId
  name := "Nuevo Sílabo"
  templateId := none
  isActive := true

/-- `create`, with the identifier that the database draws. -/
def create (dto : CreateSyllabus) (id : Uuid) : Tx Syllabus := do
  let courseVisible ← Program.select fun v => v.courses.contains dto.courseId
  if !courseVisible then
    Program.throw (.notFound s!"El curso {dto.courseId} no existe o no está disponible.")
  else do
    let existing ← findByCourseAndCycle dto.courseId dto.cycleId
    match existing with
    | some _ => Program.throw (.conflict existsMessage)
    | none => do
      createSyllabus (newSyllabus dto id)
      pure (newSyllabus dto id)

/-- A syllabus cannot be made active: another one of its course and cycle is. -/
def reactivationTaken (id : Uuid) (isActive : Bool) (db : Db) : Bool :=
  match db.syllabuses.find id with
  | none => false
  | some s => isActive && courseTaken id s.cycleId s.courseId db

/-- The database after the flag of a syllabus has been written. -/
def setSyllabusActiveIn (id : Uuid) (isActive : Bool) (db : Db) : Db :=
  { db with syllabuses := db.syllabuses.modify id fun s => { s with isActive } }

/-- `archiveSyllabus`, in both directions. -/
def archiveSyllabus (id : Uuid) (isActive : Bool) : Tx Unit :=
  Program.attempt (fun _ => [.syllabus id]) (reactivationTaken id isActive)
    (setSyllabusActiveIn id isActive) (.conflict
      "Ya existe un sílabo activo para este curso y ciclo. Archívelo antes de reactivar este.")

/-- `findById`: only active syllabi are found. -/
def findById (id : Uuid) : Tx (Option Syllabus) :=
  Program.select fun v => (v.syllabuses.find id).filter (·.isActive)

/-- `findByCycle`: active and archived syllabi. -/
def findByCycle (cycleId : Uuid) : Tx (List Syllabus) :=
  Program.select fun v => v.syllabuses.filter (·.cycleId == cycleId)

/-- `getSummaryBySyllabus`: the distributions of a syllabus. -/
def getSummaryBySyllabus (syllabusId : Uuid) : Tx (List SyllabusDistribution) :=
  Program.select fun v => v.distributions.filter (·.syllabusId == syllabusId)

/-- `getTemplates`. -/
def getTemplates (cycleId : Uuid) : Tx (List CycleMaterialTemplate) :=
  Program.select fun v => v.templates.filter (·.cycleId == cycleId)

/-- The templates that a syllabus and its distributions name, each once. -/
def referencedTemplateIds (source : Syllabus) (distributions : List SyllabusDistribution) :
    List Uuid :=
  (source.templateId.toList ++ distributions.filterMap (·.templateId)).eraseDups

/-- The template of the target cycle whose normalized name is that of a template. -/
def counterpart (normalize : String → String) (targetTemplates : List CycleMaterialTemplate)
    (template : CycleMaterialTemplate) : Option CycleMaterialTemplate :=
  targetTemplates.find? fun t => normalize t.name == normalize template.name

/-- What the target cycle has for each template that is named. A name without a counterpart is
missing; a template that the source cycle does not have is left out. -/
def matchTemplates (normalize : String → String)
    (sourceTemplates targetTemplates : List CycleMaterialTemplate) (ids : List Uuid) :
    Except AcademicError (List (Uuid × Option Uuid)) :=
  let named := ids.filterMap fun id => (sourceTemplates.find? (·.id == id))
  let missing := named.filter fun t => (counterpart normalize targetTemplates t).isNone
  let names := String.intercalate ", " (missing.map (·.name))
  if missing.isEmpty then
    .ok (named.map fun t => (t.id, (counterpart normalize targetTemplates t).map (·.id)))
  else
    .error (.badRequest s!"No se puede realizar la clonación. Las siguientes plantillas de evaluación usadas en el origen no existen en el ciclo destino: [{names}]. Por favor, configúrelas en el ciclo destino antes de continuar.")

/-- `buildTemplateMapping`. -/
def buildTemplateMapping (normalize : String → String) (source target : Syllabus)
    (distributions : List SyllabusDistribution) : Tx (List (Uuid × Option Uuid)) :=
  let ids := referencedTemplateIds source distributions
  if source.cycleId = target.cycleId then pure []
  else if ids.isEmpty then pure []
  else do
    let sourceTemplates ← getTemplates source.cycleId
    let targetTemplates ← getTemplates target.cycleId
    if targetTemplates.isEmpty then pure (ids.map fun id => (id, none))
    else
      match matchTemplates normalize sourceTemplates targetTemplates ids with
      | .error e => Program.throw e
      | .ok templateMap => pure templateMap

/-- The template of a copied distribution. `none`: the distribution is not copied. -/
def newTemplateId (source target : Syllabus) (templateMap : List (Uuid × Option Uuid)) :
    Option Uuid → Option (Option Uuid)
  | none => some none
  | some id =>
    match templateMap.lookup id with
    | some mapped => mapped.map some
    | none => if source.cycleId = target.cycleId then some (some id) else none

/-- `distributionsToCreate`, with the identifiers that the database draws. -/
def distributionsToCreate (source target : Syllabus) (templateMap : List (Uuid × Option Uuid))
    (activeWeeks : List ℕ) (rowIds : ℕ → Uuid) (distributions : List SyllabusDistribution) :
    List SyllabusDistribution :=
  let copied := distributions.filterMap fun dist =>
    if activeWeeks.contains dist.weekNumber then
      (newTemplateId source target templateMap dist.templateId).map fun templateId =>
        { dist with syllabusId := target.id, templateId }
    else none
  copied.zipIdx.map fun (dist, i) => { dist with id := rowIds i }

/-- `WEEKLY_QUESTION_LIMIT`. -/
def weeklyQuestionLimit : ℕ := 100

/-- The questions of a week. -/
def weekSum (distributions : List SyllabusDistribution) (weekNumber : ℕ) : ℕ :=
  ((distributions.filter (·.weekNumber == weekNumber)).map (·.questionCount)).sum

/-- Insert a number before the first greater one. -/
def insertNumber (n : ℕ) : List ℕ → List ℕ
  | [] => [n]
  | m :: numbers => if n ≤ m then n :: m :: numbers else m :: insertNumber n numbers

/-- The weeks that would go over the limit, in their order. -/
def offendingWeeks (distributions : List SyllabusDistribution) : List ℕ :=
  (((distributions.map (·.weekNumber)).eraseDups.filter fun n =>
    weeklyQuestionLimit < weekSum distributions n)).foldr insertNumber []

/-- Two rows of one cell. -/
def sameCell (d e : SyllabusDistribution) : Bool :=
  d.syllabusId == e.syllabusId && d.templateId == e.templateId && d.weekNumber == e.weekNumber &&
    d.topicId == e.topicId && d.subtopicId == e.subtopicId

/-- The database refuses a new distribution: its key or its cell is taken, or it has no syllabus. -/
def distributionTaken (dist : SyllabusDistribution) (db : Db) : Bool :=
  (db.distributions.find dist.id).isSome || db.distributions.rows.any (sameCell dist) ||
    (db.syllabuses.find dist.syllabusId).isNone

/-- The database after a distribution has been inserted. -/
def insertDistributionIn (dist : SyllabusDistribution) (db : Db) : Db :=
  { db with distributions := db.distributions.insert dist }

/-- One row of `bulkCreateDistributions`. -/
def insertDistribution (dist : SyllabusDistribution) : Tx Unit :=
  Program.attempt (fun _ => [.distribution dist.id, .cell dist.syllabusId dist.templateId
      dist.weekNumber dist.topicId dist.subtopicId])
    (distributionTaken dist) (insertDistributionIn dist) .queryFailed

/-- `bulkCreateDistributions`. -/
def bulkCreateDistributions (distributions : List SyllabusDistribution) : Tx Unit :=
  forEach distributions insertDistribution

/-- The database after the distributions of a syllabus have been deleted. -/
def clearDistributionsIn (syllabusId : Uuid) (db : Db) : Db :=
  { db with distributions := db.distributions.delete (·.syllabusId == syllabusId) }

/-- `clearExistingDistributions`. -/
def clearExistingDistributions (syllabusId : Uuid) : Tx Unit :=
  Program.write
    (fun v => (v.distributions.filter (·.syllabusId == syllabusId)).map fun d => .distribution d.id)
    (fun _ => clearDistributionsIn syllabusId) fun _ => ()

/-- `copyDistributions`, with `assertCloneWeeklyLimits`. -/
def copyDistributions (rows : List SyllabusDistribution) : Tx Unit :=
  let weeks := offendingWeeks rows
  let numbers := String.intercalate ", " (weeks.map toString)
  if weeks.isEmpty then bulkCreateDistributions rows
  else Program.throw (.badRequest s!"La clonación superaría el límite de {weeklyQuestionLimit} preguntas en la(s) semana(s): {numbers}.")

/-- The database after the template of a syllabus has been written. -/
def setTemplateIn (syllabusId templateId : Uuid) (db : Db) : Db :=
  { db with syllabuses := db.syllabuses.modify syllabusId fun s =>
      { s with templateId := some templateId } }

/-- `setDefaultTemplate`. -/
def setDefaultTemplate (source target : Syllabus) (templateMap : List (Uuid × Option Uuid)) :
    Tx Unit :=
  match source.templateId.bind fun id =>
      if source.cycleId = target.cycleId then some id else (templateMap.lookup id).join with
  | none => pure ()
  | some templateId => Program.write (fun _ => [.syllabus target.id])
      (fun _ => setTemplateIn target.id templateId) fun _ => ()

/-- `cloneSyllabus`, with the identifiers that the database draws for its rows. It answers with the
distributions of the target. -/
def cloneSyllabus (normalize : String → String) (syllabusId sourceSyllabusId : Uuid)
    (targetActiveWeeks : Option (List ℕ)) (rowIds : ℕ → Uuid) : Tx (List SyllabusDistribution) := do
  let targetSyllabus ← findById syllabusId
  match targetSyllabus with
  | none => Program.throw (.badRequest "Syllabus destino no encontrado.")
  | some target => do
    let sourceSyllabus ← findById sourceSyllabusId
    match sourceSyllabus with
    | none => Program.throw (.badRequest "Syllabus origen no encontrado.")
    | some source => do
      let activeWeeks ← match targetActiveWeeks with
        | some weeks => pure weeks
        | none => getActiveWeekNumbers target.cycleId
      let sourceDistributions ← getSummaryBySyllabus source.id
      let templateMap ← buildTemplateMapping normalize source target sourceDistributions
      clearExistingDistributions target.id
      copyDistributions
        (distributionsToCreate source target templateMap activeWeeks rowIds sourceDistributions)
      setDefaultTemplate source target templateMap
      getSummaryBySyllabus target.id

/-- `existingTargetMap`: of several syllabi of one course the last one. -/
def existingTarget (existingTargets : List Syllabus) (courseId : CatalogId) : Option Syllabus :=
  existingTargets.reverse.find? (·.courseId == courseId)

/-- The copy of a syllabus in another cycle. -/
def copiedSyllabus (source : Syllabus) (cycleId id : Uuid) : Syllabus where
  id := id
  cycleId := cycleId
  courseId := source.courseId
  name := source.name
  templateId := none
  isActive := true

/-- The syllabus of the target cycle that a source syllabus is cloned into: the one that is there,
or a new one. -/
def targetOf (existingTargets : List Syllabus) (targetCycleId : Uuid) (source : Syllabus)
    (id : Uuid) : Tx Uuid :=
  match existingTarget existingTargets source.courseId with
  | some existing => pure existing.id
  | none => do
    createSyllabus (copiedSyllabus source targetCycleId id)
    pure id

/-- The identifiers that the database draws for a cloned cycle. -/
structure CloneIds where
  syllabus : ℕ → Uuid
  row : ℕ → ℕ → Uuid

/-- The loop of `cloneCycleSyllabuses`, from the source syllabus at a position on. -/
def cloneEach (normalize : String → String) (ids : CloneIds) (targetCycleId : Uuid)
    (targetActiveWeeks : List ℕ) (existingTargets : List Syllabus) : ℕ → List Syllabus → Tx Unit
  | _, [] => pure ()
  | i, source :: sources => do
    let targetSyllabusId ← targetOf existingTargets targetCycleId source (ids.syllabus i)
    let _ ← cloneSyllabus normalize targetSyllabusId source.id (some targetActiveWeeks) (ids.row i)
    cloneEach normalize ids targetCycleId targetActiveWeeks existingTargets (i + 1) sources

/-- `cloneCycleSyllabuses`. It answers with the number of the clones. -/
def cloneCycleSyllabuses (normalize : String → String) (targetCycleId sourceCycleId : Uuid)
    (ids : CloneIds) : Tx ℕ := do
  let sourceSyllabuses ← findByCycle sourceCycleId
  if sourceSyllabuses.isEmpty then
    Program.throw (.badRequest "El ciclo origen no tiene sílabos para clonar.")
  else do
    let targetActiveWeeks ← getActiveWeekNumbers targetCycleId
    let existingTargets ← findByCycle targetCycleId
    cloneEach normalize ids targetCycleId targetActiveWeeks existingTargets 0 sourceSyllabuses
    pure sourceSyllabuses.length

end Odiseo.Syllabi
