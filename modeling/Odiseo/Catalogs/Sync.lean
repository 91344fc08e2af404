import Odiseo.Catalogs.Payload
import Odiseo.Database.Table
import Mathlib.Data.Int.Notation

/-!
# Writing a payload into the shared catalog

`upsertCatalogs`: a payload that passes the validation is flattened into rows of three
levels, and one transaction upserts them level by level. The tables are those of the
schema `public`, whose foreign keys are fields of the catalog here. `bigint` stands for the
input function of the column type, which reads the text of an id.
-/

namespace Odiseo.Catalogs

open Database

/-- A row of `public.courses`. -/
structure CourseRow where
  id : ℤ
  name : String
  deriving DecidableEq, Repr

/-- A row of `public.topics`. -/
structure TopicRow where
  id : ℤ
  courseId : ℤ
  name : String
  deriving DecidableEq, Repr

/-- A row of `public.subtopics`. -/
structure SubtopicRow where
  id : ℤ
  topicId : ℤ
  name : String
  deriving DecidableEq, Repr

instance : Keyed ℤ CourseRow := ⟨CourseRow.id⟩
instance : Keyed ℤ TopicRow := ⟨TopicRow.id⟩
instance : Keyed ℤ SubtopicRow := ⟨SubtopicRow.id⟩

/-- The shared catalog: three tables with their foreign keys. -/
structure SharedCatalog where
  courses : Table ℤ CourseRow
  topics : Table ℤ TopicRow
  subtopics : Table ℤ SubtopicRow
  /-- `topics.course_id` references a course. -/
  topic_course : ∀ t ∈ topics.rows, (courses.find t.courseId).isSome = true
  /-- `subtopics.topic_id` references a topic. -/
  subtopic_topic : ∀ s ∈ subtopics.rows, (topics.find s.topicId).isSome = true

/-- A catalog without entries. -/
def SharedCatalog.empty : SharedCatalog where
  courses := Table.empty
  topics := Table.empty
  subtopics := Table.empty
  topic_course := by simp [Table.empty]
  subtopic_topic := by simp [Table.empty]

mutual

/-- `String(value)`. -/
def Json.toText : Json → String
  | .null => "null"
  | .bool value => if value then "true" else "false"
  | .num text => text
  | .str text => text
  | .arr items => ",".intercalate (Json.itemTexts items)
  | .obj _ => "[object Object]"

/-- The items of an array as `join` writes them: null as the empty text. -/
def Json.itemTexts : List Json → List String
  | [] => []
  | .null :: items => "" :: Json.itemTexts items
  | item :: items => Json.toText item :: Json.itemTexts items

end

/-- An entry of `coursesData`. -/
structure CourseData where
  id : String
  name : String
  deriving DecidableEq, Repr

/-- An entry of `topicsData`. -/
structure TopicData where
  id : String
  courseId : String
  name : String
  deriving DecidableEq, Repr

/-- An entry of `subtopicsData`; a list in the place of a subtopic has no name. -/
structure SubtopicData where
  id : String
  topicId : String
  name : Option String
  deriving DecidableEq, Repr

/-- Why an attempt to synchronise fails. -/
inductive SyncError
  /-- The request to the Core API fails. -/
  | fetch (message : String)
  | payload (error : PayloadError)
  /-- `s.id` of a null in a list of subtopics. -/
  | nullSubtopic
  /-- The text is not in the form or the range of the column type. -/
  | invalidId (text : String)
  /-- The name does not fit into the column. -/
  | invalidName (name : String)
  /-- The name is not given. -/
  | missingName
  /-- `ON CONFLICT DO UPDATE command cannot affect row a second time`. -/
  | repeatedId
  /-- A foreign key is violated. -/
  | missingParent (id : ℤ)
  /-- The connection, or a limit of the server on one statement. -/
  | connection (message : String)
  deriving DecidableEq, Repr

/-- `coursesData`. -/
def coursesData (p : CatalogPayloadDto) : List CourseData :=
  p.courses.map fun c => ⟨c.id.toText, c.name⟩

/-- `topicsData`. -/
def topicsData (p : CatalogPayloadDto) : List TopicData :=
  p.courses.flatMap fun c => c.topics.map fun t => ⟨t.id.toText, c.id.toText, t.name⟩

/-- The entry of one subtopic. -/
def subtopicData (topicId : String) : CatalogSubtopicDto → Except SyncError SubtopicData
  | .subtopic id name => .ok ⟨id.toText, topicId, some name⟩
  | .null => .error .nullSubtopic
  | .list => .ok ⟨"undefined", topicId, none⟩

/-- The subtopics of a payload, each with the text of the id of its topic. -/
def payloadSubtopics (p : CatalogPayloadDto) : List (String × CatalogSubtopicDto) :=
  p.courses.flatMap fun c => c.topics.flatMap fun t => t.subtopics.map fun s => (t.id.toText, s)

/-- `subtopicsData`. -/
def subtopicsData (p : CatalogPayloadDto) : Except SyncError (List SubtopicData) :=
  (payloadSubtopics p).mapM fun entry => subtopicData entry.1 entry.2

/-- The value of a column `varchar(255)`: more characters are cut off when they are blanks, and
refused otherwise, as the character 0 is. -/
def varchar (name : String) : Option String :=
  if name.toList.contains (Char.ofNat 0) then none
  else if name.toList.length ≤ 255 then some name
  else if (name.toList.drop 255).all (· == ' ') then some (String.ofList (name.toList.take 255))
  else none

/-- A column of type `varchar(255)` is written. -/
def readName (name : String) : Except SyncError String :=
  match varchar name with
  | some stored => .ok stored
  | none => .error (.invalidName name)

/-- The column `name`, which has no default, where a name may not be given. -/
def readNameOrNull : Option String → Except SyncError String
  | some name => readName name
  | none => .error .missingName

namespace SharedCatalog

/-- `ON CONFLICT (id) DO UPDATE SET name = EXCLUDED.name`. -/
def setCourse (r a : CourseRow) : CourseRow := { a with name := r.name }

/-- `ON CONFLICT (id) DO UPDATE SET course_id = EXCLUDED.course_id, name = EXCLUDED.name`. -/
def setTopic (r a : TopicRow) : TopicRow := { a with courseId := r.courseId, name := r.name }

/-- `ON CONFLICT (id) DO UPDATE SET topic_id = EXCLUDED.topic_id, name = EXCLUDED.name`. -/
def setSubtopic (r a : SubtopicRow) : SubtopicRow :=
  { a with topicId := r.topicId, name := r.name }

/-- `tx.upsert(Course, coursesData, ['id'])`. -/
def upsertCourses (db : SharedCatalog) (rows : List CourseRow) : Except SyncError SharedCatalog :=
  if (rows.map key).Nodup then
    .ok { db with
      courses := db.courses.upsertAll setCourse (fun _ _ => rfl) rows
      topic_course := fun t ht => Table.isSome_find_upsertAll _ _ _ _ _ (db.topic_course t ht) }
  else .error .repeatedId

/-- `tx.upsert(Topic, topicsData, ['id'])`. -/
def upsertTopics (db : SharedCatalog) (rows : List TopicRow) : Except SyncError SharedCatalog :=
  if (rows.map key).Nodup then
    if h : ∀ r ∈ rows, (db.courses.find r.courseId).isSome = true then
      .ok { db with
        topics := db.topics.upsertAll setTopic (fun _ _ => rfl) rows
        topic_course := Table.of_mem_upsertAll rows db.topic_course h fun r hr _ => h r hr
        subtopic_topic := fun s hs =>
          Table.isSome_find_upsertAll _ _ _ _ _ (db.subtopic_topic s hs) }
    else .error (.missingParent ((rows.find? fun r =>
      (db.courses.find r.courseId).isNone).elim 0 TopicRow.courseId))
  else .error .repeatedId

/-- `tx.upsert(Subtopic, subtopicsData, ['id'])`. -/
def upsertSubtopics (db : SharedCatalog) (rows : List SubtopicRow) :
    Except SyncError SharedCatalog :=
  if (rows.map key).Nodup then
    if h : ∀ r ∈ rows, (db.topics.find r.topicId).isSome = true then
      .ok { db with
        subtopics := db.subtopics.upsertAll setSubtopic (fun _ _ => rfl) rows
        subtopic_topic := Table.of_mem_upsertAll rows db.subtopic_topic h fun r hr _ => h r hr }
    else .error (.missingParent ((rows.find? fun r =>
      (db.topics.find r.topicId).isNone).elim 0 SubtopicRow.topicId))
  else .error .repeatedId

end SharedCatalog

section Statements

variable (bigint : String → Option ℤ)

/-- A column of type `bigint` is written. -/
def readId (text : String) : Except SyncError ℤ :=
  match bigint text with
  | some id => .ok id
  | none => .error (.invalidId text)

/-- The row of a course. -/
def courseRow (d : CourseData) : Except SyncError CourseRow := do
  let id ← readId bigint d.id
  let name ← readName d.name
  return ⟨id, name⟩

/-- The row of a topic. -/
def topicRow (d : TopicData) : Except SyncError TopicRow := do
  let id ← readId bigint d.id
  let courseId ← readId bigint d.courseId
  let name ← readName d.name
  return ⟨id, courseId, name⟩

/-- The row of a subtopic. -/
def subtopicRow (d : SubtopicData) : Except SyncError SubtopicRow := do
  let id ← readId bigint d.id
  let topicId ← readId bigint d.topicId
  let name ← readNameOrNull d.name
  return ⟨id, topicId, name⟩

/-- The upsert of the topics is sent when there are some. -/
def writeTopics (db : SharedCatalog) (topics : List TopicData) : Except SyncError SharedCatalog :=
  if topics.isEmpty then .ok db else topics.mapM (topicRow bigint) >>= db.upsertTopics

/-- The upsert of the subtopics is sent when there are some. -/
def writeSubtopics (db : SharedCatalog) (subtopics : List SubtopicData) :
    Except SyncError SharedCatalog :=
  if subtopics.isEmpty then .ok db else subtopics.mapM (subtopicRow bigint) >>= db.upsertSubtopics

/-- The callback of the transaction. -/
def writeLevels (db : SharedCatalog) (courses : List CourseData) (topics : List TopicData)
    (subtopics : List SubtopicData) : Except SyncError SharedCatalog := do
  let rows ← courses.mapM (courseRow bigint)
  let withCourses ← db.upsertCourses rows
  let withTopics ← writeTopics bigint withCourses topics
  writeSubtopics bigint withTopics subtopics

/-- `upsertCatalogs`: the catalog that the transaction commits, or the error with which it is
rolled back. -/
def upsertCatalogs (db : SharedCatalog) (payload : Json) : Except SyncError SharedCatalog :=
  match validateCatalogPayload payload with
  | .error e => .error (.payload e)
  | .ok validated =>
    if validated.courses.isEmpty then .ok db
    else do
      let subtopics ← subtopicsData validated
      writeLevels bigint db (coursesData validated) (topicsData validated) subtopics

end Statements

end Odiseo.Catalogs
