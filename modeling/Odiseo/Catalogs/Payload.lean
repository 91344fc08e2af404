import Odiseo.Database.Related

/-!
# The payload of the catalog synchronisation

`validateCatalogPayload` reads the answer of the Core API, a JSON value of any shape. The
optional collections are normalised, every field is checked, and what passes is read as
courses with topics and subtopics. `Describes` says which values a payload stands for,
and the validation accepts exactly these.
-/

namespace Odiseo.Catalogs

open Database.Related

/-- A JSON value. A number is kept as the text that `String(n)` writes for it. -/
inductive Json
  | null
  | bool (value : Bool)
  | num (text : String)
  | str (text : String)
  | arr (items : List Json)
  | obj (fields : List (String × Json))
  deriving Repr

/-- The fields that a spread `...value` copies. The index keys of a text or an array are left
out: no field of these names is read. -/
def Json.fields : Json → List (String × Json)
  | .obj fields => fields
  | _ => []

/-- `value?.key`; `none` stands for `undefined`. -/
def Json.get (value : Json) (key : String) : Option Json := value.fields.lookup key

/-- `value == null`. -/
def isNullish : Option Json → Bool
  | none => true
  | some .null => true
  | some _ => false

/-- The value that `@IsNotEmpty()` refuses: absent, null or the empty text. -/
def isEmptyValue : Option Json → Bool
  | some (.str text) => text == ""
  | value => isNullish value

/-- `Array.isArray(value)`. -/
def isArray : Option Json → Bool
  | some (.arr _) => true
  | _ => false

/-- `typeof value === 'string'`. -/
def isString : Option Json → Bool
  | some (.str _) => true
  | _ => false

/-- `{ ...value, [key]: field }`. -/
def Json.withField (value : Json) (key : String) (field : Json) : Json :=
  .obj ((key, field) :: value.fields.filter fun entry => entry.1 != key)

/-- `asArray`: only an absent or null value is defaulted. -/
def asArray (value : Option Json) : Json :=
  if isNullish value then .arr [] else value.getD (.arr [])

/-- `mapIfArray`. -/
def mapIfArray (value : Json) (fn : Json → Json) : Json :=
  match value with
  | .arr items => .arr (items.map fn)
  | value => value

/-- A topic with its subtopics defaulted. -/
def normaliseTopic (topic : Json) : Json :=
  topic.withField "subtopics" (asArray (topic.get "subtopics"))

/-- A course with its topics and their subtopics defaulted. -/
def normaliseCourse (course : Json) : Json :=
  course.withField "topics" (mapIfArray (asArray (course.get "topics")) normaliseTopic)

/-- One constraint of the contract that a value breaks, and the path of the field. -/
structure Violation where
  path : List String
  constraint : String
  deriving DecidableEq, Repr

/-- `@IsDefined() @IsNotEmpty()`. -/
def idViolations (path : List String) (value : Option Json) : List Violation :=
  (if isNullish value then [⟨path, "isDefined"⟩] else []) ++
    if isEmptyValue value then [⟨path, "isNotEmpty"⟩] else []

/-- `@IsString() @IsNotEmpty()`. -/
def nameViolations (path : List String) (value : Option Json) : List Violation :=
  (if isString value then [] else [⟨path, "isString"⟩]) ++
    if isEmptyValue value then [⟨path, "isNotEmpty"⟩] else []

mutual

/-- `@ValidateNested({ each: true })`: an object is checked by its class, the validator goes
into arrays at any depth, and it passes over null. -/
def nestedViolations (check : List String → Json → List Violation) (path : List String) :
    Json → List Violation
  | .null => []
  | .arr items => nestedItems check path 0 items
  | .obj fields => check path (.obj fields)
  | .bool _ => [⟨path, "nestedValidation"⟩]
  | .num _ => [⟨path, "nestedValidation"⟩]
  | .str _ => [⟨path, "nestedValidation"⟩]

/-- The items of an array, from an index on. -/
def nestedItems (check : List String → Json → List Violation) (path : List String) (index : ℕ) :
    List Json → List Violation
  | [] => []
  | item :: items =>
    nestedViolations check (path ++ [toString index]) item ++
      nestedItems check path (index + 1) items

end

/-- `@IsArray() @ValidateNested({ each: true })`. -/
def arrayViolations (check : List String → Json → List Violation) (path : List String)
    (value : Json) : List Violation :=
  (if isArray (some value) then [] else [⟨path, "isArray"⟩]) ++ nestedViolations check path value

/-- The constraints of `CatalogSubtopicDto`. -/
def subtopicViolations (path : List String) (subtopic : Json) : List Violation :=
  idViolations (path ++ ["id"]) (subtopic.get "id") ++
    nameViolations (path ++ ["name"]) (subtopic.get "name")

/-- The constraints of `CatalogTopicDto`, whose `subtopics` are empty by default. -/
def topicViolations (path : List String) (topic : Json) : List Violation :=
  idViolations (path ++ ["id"]) (topic.get "id") ++
    (nameViolations (path ++ ["name"]) (topic.get "name") ++
      arrayViolations subtopicViolations (path ++ ["subtopics"])
        ((topic.get "subtopics").getD (.arr [])))

/-- The constraints of `CatalogCourseDto`, whose `topics` are empty by default. -/
def courseViolations (path : List String) (course : Json) : List Violation :=
  idViolations (path ++ ["id"]) (course.get "id") ++
    (nameViolations (path ++ ["name"]) (course.get "name") ++
      arrayViolations topicViolations (path ++ ["topics"])
        ((course.get "topics").getD (.arr [])))

/-- `CatalogSubtopicDto`, with the two other values that the validator lets through in the
place of a subtopic. -/
inductive CatalogSubtopicDto
  | subtopic (id : Json) (name : String)
  /-- A null in the list. -/
  | null
  /-- A list in the list: it has neither an `id` nor a `name`. -/
  | list
  deriving Repr

/-- `CatalogTopicDto`. -/
structure CatalogTopicDto where
  id : Json
  name : String
  subtopics : List CatalogSubtopicDto
  deriving Repr

/-- `CatalogCourseDto`. -/
structure CatalogCourseDto where
  id : Json
  name : String
  topics : List CatalogTopicDto
  deriving Repr

/-- `CatalogPayloadDto`. -/
structure CatalogPayloadDto where
  courses : List CatalogCourseDto
  deriving Repr

/-- The text of a field that has been checked to be one. -/
def nameOf : Option Json → String
  | some (.str text) => text
  | _ => ""

/-- The items of a field that has been checked to be an array. -/
def itemsOf : Option Json → List Json
  | some (.arr items) => items
  | _ => []

/-- `plainToInstance` of one subtopic. -/
def toSubtopicDto : Json → CatalogSubtopicDto
  | .null => .null
  | .arr _ => .list
  | subtopic => .subtopic ((subtopic.get "id").getD .null) (nameOf (subtopic.get "name"))

/-- `plainToInstance` of one topic. -/
def toTopicDto (topic : Json) : CatalogTopicDto where
  id := (topic.get "id").getD .null
  name := nameOf (topic.get "name")
  subtopics := (itemsOf (topic.get "subtopics")).map toSubtopicDto

/-- `plainToInstance` of one course. -/
def toCourseDto (course : Json) : CatalogCourseDto where
  id := (course.get "id").getD .null
  name := nameOf (course.get "name")
  topics := (itemsOf (course.get "topics")).map toTopicDto

/-- Why a payload is refused. -/
inductive PayloadError
  | notAnObject
  | coursesMissing
  | violations (errors : List Violation)
  deriving DecidableEq, Repr

/-- The value is neither null nor a primitive one. -/
def isObject : Json → Bool
  | .arr _ => true
  | .obj _ => true
  | _ => false

/-- `validateCatalogPayload`. -/
def validateCatalogPayload (payload : Json) : Except PayloadError CatalogPayloadDto :=
  if isObject payload then
    match payload.get "courses" with
    | some (.arr courses) =>
      let normalised := courses.map normaliseCourse
      match arrayViolations courseViolations ["courses"] (.arr normalised) with
      | [] => .ok ⟨normalised.map toCourseDto⟩
      | errors => .error (.violations errors)
    | _ => .error .coursesMissing
  else .error .notAnObject

/-- `text.slice(0, units)`, as it is stored later: a character outside the basic plane counts
two units, and half of one is stored as the replacement character. -/
def sliceChars : ℕ → List Char → List Char
  | _, [] => []
  | 0, _ => []
  | 1, c :: _ => if c.toNat < 0x10000 then [c] else [Char.ofNat 0xfffd]
  | units + 2, c :: rest =>
    if c.toNat < 0x10000 then c :: sliceChars (units + 1) rest else c :: sliceChars units rest

/-- `text.slice(0, units)`. -/
def slice (units : ℕ) (text : String) : String := String.ofList (sliceChars units text.toList)

/-- The details in the message of `InvalidCatalogPayloadError`; `describe` is how the validator
writes its errors. -/
def PayloadError.details (describe : List Violation → String) : PayloadError → String
  | .notAnObject => "payload is not an object"
  | .coursesMissing => "\"courses\" is missing or not an array"
  | .violations errors => slice 2000 (describe errors)

/-- The message of `InvalidCatalogPayloadError`. -/
def PayloadError.message (describe : List Violation → String) (e : PayloadError) : String :=
  "Invalid catalog payload from Core API: " ++ e.details describe

/-! ### What a payload stands for -/

/-- An object with an `id` that is not empty and a `name` that is a text and not empty. -/
def EntryFor (value id : Json) (name : String) : Prop :=
  value.get "id" = some id ∧ isEmptyValue (some id) = false ∧
    value.get "name" = some (.str name) ∧ name ≠ ""

/-- What the validator lets through where it expects objects with a property. -/
inductive Passes (holds : Json → Prop) : Json → Prop
  | null : Passes holds .null
  | obj (fields : List (String × Json)) (h : holds (.obj fields)) : Passes holds (.obj fields)
  | arr (items : List Json) (h : ∀ item ∈ items, Passes holds item) : Passes holds (.arr items)

/-- An entry of a list of subtopics. -/
inductive SubtopicFor : Json → CatalogSubtopicDto → Prop
  | subtopic {fields : List (String × Json)} {id : Json} {name : String}
      (h : EntryFor (.obj fields) id name) : SubtopicFor (.obj fields) (.subtopic id name)
  | null : SubtopicFor .null .null
  | list {items : List Json}
      (h : ∀ item ∈ items, Passes (fun value => ∃ id name, EntryFor value id name) item) :
      SubtopicFor (.arr items) .list

/-- An optional collection: absent or null for the empty one, else the list of its entries. -/
def CollectionFor {α : Type} (entry : Json → α → Prop) (value : Option Json) (l : List α) : Prop :=
  isNullish value = true ∧ l = [] ∨ ∃ items, value = some (.arr items) ∧ List.Forall₂ entry items l

/-- A topic. -/
def TopicFor (value : Json) (topic : CatalogTopicDto) : Prop :=
  EntryFor value topic.id topic.name ∧
    CollectionFor SubtopicFor (value.get "subtopics") topic.subtopics

/-- A course. -/
def CourseFor (value : Json) (course : CatalogCourseDto) : Prop :=
  EntryFor value course.id course.name ∧
    CollectionFor TopicFor (value.get "topics") course.topics

/-- The courses that a payload stands for. -/
def Describes (payload : Json) (catalog : CatalogPayloadDto) : Prop :=
  ∃ courses, payload.get "courses" = some (.arr courses) ∧
    List.Forall₂ CourseFor courses catalog.courses

/-! ### The checks against the description -/

/-- Only an object has fields. -/
theorem exists_fields_of_get {value field : Json} {key : String} (h : value.get key = some field) :
    ∃ fields, value = .obj fields := by
  cases value with
  | obj fields => exact ⟨fields, rfl⟩
  | _ => simp [Json.get, Json.fields] at h

/-- The field that a spread has set. -/
@[simp] theorem get_withField_self (value : Json) (key : String) (field : Json) :
    (value.withField key field).get key = some field := by
  simp [Json.get, Json.withField, Json.fields]

/-- The fields that a spread has copied. -/
theorem get_withField_of_ne (value : Json) {key other : String} (field : Json)
    (h : other ≠ key) : (value.withField key field).get other = value.get other := by
  have hcopied : ∀ fields : List (String × Json),
      (fields.filter fun entry => entry.1 != key).lookup other = fields.lookup other := by
    intro fields
    induction fields with
    | nil => rfl
    | cons entry fields ih =>
      by_cases hentry : entry.1 = key
      · have hother : (other == entry.1) = false := by simp [hentry, h]
        rw [List.filter_cons_of_neg (by simp [hentry]), ih, List.lookup_cons, hother]
      · rw [List.filter_cons_of_pos (by simp [hentry]), List.lookup_cons, List.lookup_cons, ih]
  have hfirst : (other == key) = false := by simp [h]
  change ((key, field) :: value.fields.filter fun entry => entry.1 != key).lookup other = _
  rw [List.lookup_cons, hfirst]
  exact hcopied value.fields

/-- An `id` breaks no constraint exactly when it is not empty. -/
theorem idViolations_eq_nil (path : List String) (value : Option Json) :
    idViolations path value = [] ↔ ∃ id, value = some id ∧ isEmptyValue (some id) = false := by
  rcases value with _ | value
  · simp [idViolations, isNullish]
  · cases value <;> simp [idViolations, isNullish, isEmptyValue]

/-- A `name` breaks no constraint exactly when it is a text that is not empty. -/
theorem nameViolations_eq_nil (path : List String) (value : Option Json) :
    nameViolations path value = [] ↔ ∃ name, value = some (.str name) ∧ name ≠ "" := by
  rcases value with _ | value
  · simp [nameViolations, isString]
  · cases value <;> simp [nameViolations, isString, isEmptyValue]

/-- An `id` and a `name` together. -/
theorem entryViolations_eq_nil (path path' : List String) (value : Json) :
    idViolations path (value.get "id") = [] ∧ nameViolations path' (value.get "name") = [] ↔
      ∃ id name, EntryFor value id name := by
  rw [idViolations_eq_nil, nameViolations_eq_nil]
  constructor
  · rintro ⟨⟨id, hid, hempty⟩, name, hname, hne⟩
    exact ⟨id, name, hid, hempty, hname, hne⟩
  · rintro ⟨id, name, hid, hempty, hname, hne⟩
    exact ⟨⟨id, hid, hempty⟩, name, hname, hne⟩

/-- The constraints of a subtopic. -/
theorem subtopicViolations_eq_nil (path : List String) (subtopic : Json) :
    subtopicViolations path subtopic = [] ↔ ∃ id name, EntryFor subtopic id name := by
  rw [subtopicViolations, List.append_eq_nil_iff, entryViolations_eq_nil]

section Nested

variable {check : List String → Json → List Violation} {holds : Json → Prop}

mutual

/-- The nested validation finds nothing exactly where every object that it comes to passes. -/
theorem nestedViolations_eq_nil (hcheck : ∀ path value, check path value = [] ↔ holds value)
    (path : List String) : (value : Json) →
      (nestedViolations check path value = [] ↔ Passes holds value)
  | .null => by simp [nestedViolations, Passes.null]
  | .bool _ => by
    refine ⟨fun h => by simp [nestedViolations] at h, fun h => by cases h⟩
  | .num _ => by
    refine ⟨fun h => by simp [nestedViolations] at h, fun h => by cases h⟩
  | .str _ => by
    refine ⟨fun h => by simp [nestedViolations] at h, fun h => by cases h⟩
  | .arr items => by
    rw [nestedViolations, nestedItems_eq_nil hcheck path 0 items]
    exact ⟨fun h => .arr items h, fun h => by cases h with | arr _ h => exact h⟩
  | .obj fields => by
    rw [nestedViolations, hcheck]
    exact ⟨fun h => .obj fields h, fun h => by cases h with | obj _ h => exact h⟩

/-- The same for the items of an array. -/
theorem nestedItems_eq_nil (hcheck : ∀ path value, check path value = [] ↔ holds value)
    (path : List String) (index : ℕ) : (items : List Json) →
      (nestedItems check path index items = [] ↔ ∀ item ∈ items, Passes holds item)
  | [] => by simp [nestedItems]
  | item :: items => by
    rw [nestedItems, List.append_eq_nil_iff, nestedViolations_eq_nil hcheck _ item,
      nestedItems_eq_nil hcheck path (index + 1) items]
    simp

end

/-- An array of objects passes when each of them does. -/
theorem arrayViolations_eq_nil (hcheck : ∀ path value, check path value = [] ↔ holds value)
    (path : List String) (value : Json) :
    arrayViolations check path value = [] ↔
      ∃ items, value = .arr items ∧ ∀ item ∈ items, Passes holds item := by
  rw [arrayViolations, List.append_eq_nil_iff, nestedViolations_eq_nil hcheck]
  cases value with
  | arr items =>
    simp only [isArray, if_true, true_and]
    constructor
    · intro h
      cases h with
      | arr _ h => exact ⟨items, rfl, h⟩
    · rintro ⟨_, heq, h⟩
      cases heq
      exact .arr items h
  | _ => simp [isArray]

end Nested

/-- An object passes by its own property. -/
theorem passes_withField {holds : Json → Prop} (value : Json) (key : String) (field : Json) :
    Passes holds (value.withField key field) ↔ holds (value.withField key field) :=
  ⟨fun h => by cases h with | obj _ h => exact h, fun h => .obj _ h⟩

/-- What `plainToInstance` reads where an entry stands. -/
theorem EntryFor.read {value id : Json} {name : String} (h : EntryFor value id name) :
    (value.get "id").getD .null = id ∧ nameOf (value.get "name") = name := by
  obtain ⟨hid, _, hname, _⟩ := h
  rw [hid, hname]
  exact ⟨rfl, rfl⟩

/-- The entry of an object is read from its fields. -/
theorem entryFor_iff (value id : Json) (name : String) :
    EntryFor value id name ↔ (∃ id name, EntryFor value id name) ∧
      id = (value.get "id").getD .null ∧ name = nameOf (value.get "name") := by
  constructor
  · intro h
    exact ⟨⟨id, name, h⟩, h.read.1.symm, h.read.2.symm⟩
  · rintro ⟨⟨id', name', h⟩, hid, hname⟩
    rw [hid, hname, h.read.1, h.read.2]
    exact h

/-- The entries of a list of subtopics are the values that pass, as they are read. -/
theorem subtopicFor_iff (value : Json) (subtopic : CatalogSubtopicDto) :
    SubtopicFor value subtopic ↔
      Passes (fun value => ∃ id name, EntryFor value id name) value ∧
        subtopic = toSubtopicDto value := by
  constructor
  · intro h
    cases h with
    | subtopic h =>
      refine ⟨.obj _ ⟨_, _, h⟩, ?_⟩
      simp only [toSubtopicDto, h.read.1, h.read.2]
    | null => exact ⟨.null, rfl⟩
    | list h => exact ⟨.arr _ h, rfl⟩
  · rintro ⟨h, rfl⟩
    cases h with
    | null => exact .null
    | obj fields h =>
      obtain ⟨id, name, h⟩ := h
      simp only [toSubtopicDto, h.read.1, h.read.2]
      exact .subtopic h
    | arr items h => exact .list h

/-- A defaulted collection whose items are normalised holds its entries exactly when the value
behind it is a collection of them. -/
theorem collectionFor_iff {α : Type} {entry : Json → α → Prop} {f : Json → Json}
    {holds : Json → Prop} {read : Json → α}
    (hentry : ∀ value a, entry value a ↔ holds (f value) ∧ a = read (f value))
    (value : Option Json) (l : List α) :
    CollectionFor entry value l ↔
      ∃ items, mapIfArray (asArray value) f = .arr items ∧ (∀ item ∈ items, holds item) ∧
        l = items.map read := by
  unfold CollectionFor asArray
  simp only [forall₂_graph hentry]
  cases hnull : isNullish value with
  | true =>
    have hno : ∀ items, value ≠ some (.arr items) := by
      rintro items rfl
      simp [isNullish] at hnull
    simp only [hno, false_and, exists_false, or_false, true_and, if_true, mapIfArray,
      List.map_nil, Json.arr.injEq]
    constructor
    · rintro rfl
      exact ⟨[], rfl, by simp, rfl⟩
    · rintro ⟨items, rfl, _, h⟩
      exact h
  | false =>
    rcases value with _ | value
    · simp [isNullish] at hnull
    · cases value with
      | arr items =>
        simp only [Option.some.injEq, Json.arr.injEq, Bool.false_eq_true, false_and, false_or,
          exists_eq_left', if_false, Option.getD_some, mapIfArray, List.forall_mem_map,
          List.map_map]
        rfl
      | _ => simp [mapIfArray]

/-- The constraints of a topic. -/
def TopicPasses (topic : Json) : Prop :=
  (∃ id name, EntryFor topic id name) ∧
    ∃ items, (topic.get "subtopics").getD (.arr []) = .arr items ∧
      ∀ item ∈ items, Passes (fun value => ∃ id name, EntryFor value id name) item

/-- The constraints of a course. -/
def CoursePasses (course : Json) : Prop :=
  (∃ id name, EntryFor course id name) ∧
    ∃ items, (course.get "topics").getD (.arr []) = .arr items ∧
      ∀ item ∈ items, Passes TopicPasses item

/-- A topic breaks no constraint exactly when it passes. -/
theorem topicViolations_eq_nil (path : List String) (topic : Json) :
    topicViolations path topic = [] ↔ TopicPasses topic := by
  rw [topicViolations, List.append_eq_nil_iff, List.append_eq_nil_iff, ← and_assoc,
    entryViolations_eq_nil, arrayViolations_eq_nil subtopicViolations_eq_nil]
  rfl

/-- A course breaks no constraint exactly when it passes. -/
theorem courseViolations_eq_nil (path : List String) (course : Json) :
    courseViolations path course = [] ↔ CoursePasses course := by
  rw [courseViolations, List.append_eq_nil_iff, List.append_eq_nil_iff, ← and_assoc,
    entryViolations_eq_nil, arrayViolations_eq_nil topicViolations_eq_nil]
  rfl

/-- A spread that sets another field describes the same entry. -/
theorem entryFor_withField {value id : Json} {name key : String} (field : Json)
    (hid : "id" ≠ key) (hname : "name" ≠ key) :
    EntryFor (value.withField key field) id name ↔ EntryFor value id name := by
  unfold EntryFor
  rw [get_withField_of_ne _ _ hid, get_withField_of_ne _ _ hname]

/-- The normaliser leaves a collection whose items it does not touch. -/
theorem mapIfArray_id (value : Json) : mapIfArray value id = value := by
  cases value <;> simp [mapIfArray]

/-- A topic of a payload is one that passes once it is normalised, as it is read then. -/
theorem topicFor_iff (value : Json) (topic : CatalogTopicDto) :
    TopicFor value topic ↔
      Passes TopicPasses (normaliseTopic value) ∧ topic = toTopicDto (normaliseTopic value) := by
  unfold TopicFor toTopicDto normaliseTopic
  rw [passes_withField, TopicPasses, collectionFor_iff (f := id) subtopicFor_iff, mapIfArray_id,
    entryFor_iff]
  simp only [entryFor_withField _ (show "id" ≠ "subtopics" by decide)
    (show "name" ≠ "subtopics" by decide), get_withField_self, Option.getD_some,
    get_withField_of_ne _ _ (show "id" ≠ "subtopics" by decide),
    get_withField_of_ne _ _ (show "name" ≠ "subtopics" by decide)]
  obtain ⟨id, name, subtopics⟩ := topic
  simp only [CatalogTopicDto.mk.injEq]
  constructor
  · rintro ⟨⟨hentry, rfl, rfl⟩, items, hitems, hpass, rfl⟩
    exact ⟨⟨hentry, items, hitems, hpass⟩, rfl, rfl, by rw [hitems]; rfl⟩
  · rintro ⟨⟨hentry, items, hitems, hpass⟩, rfl, rfl, rfl⟩
    exact ⟨⟨hentry, rfl, rfl⟩, items, hitems, hpass, by rw [hitems]; rfl⟩

/-- A course of a payload is one that passes once it is normalised, as it is read then. -/
theorem courseFor_iff (value : Json) (course : CatalogCourseDto) :
    CourseFor value course ↔
      Passes CoursePasses (normaliseCourse value) ∧
        course = toCourseDto (normaliseCourse value) := by
  unfold CourseFor toCourseDto normaliseCourse
  rw [passes_withField, CoursePasses, collectionFor_iff topicFor_iff, entryFor_iff]
  simp only [entryFor_withField _ (show "id" ≠ "topics" by decide)
    (show "name" ≠ "topics" by decide), get_withField_self, Option.getD_some,
    get_withField_of_ne _ _ (show "id" ≠ "topics" by decide),
    get_withField_of_ne _ _ (show "name" ≠ "topics" by decide)]
  obtain ⟨id, name, topics⟩ := course
  simp only [CatalogCourseDto.mk.injEq]
  constructor
  · rintro ⟨⟨hentry, rfl, rfl⟩, items, hitems, hpass, rfl⟩
    exact ⟨⟨hentry, items, hitems, hpass⟩, rfl, rfl, by rw [hitems]; rfl⟩
  · rintro ⟨⟨hentry, items, hitems, hpass⟩, rfl, rfl, rfl⟩
    exact ⟨⟨hentry, rfl, rfl⟩, items, hitems, hpass, by rw [hitems]; rfl⟩

/-- The courses of a payload are accepted exactly when each of them describes the course that is
read for it. -/
theorem courses_accepted_iff (courses : List Json) (l : List CatalogCourseDto) :
    List.Forall₂ CourseFor courses l ↔
      arrayViolations courseViolations ["courses"] (.arr (courses.map normaliseCourse)) = [] ∧
        l = (courses.map normaliseCourse).map toCourseDto := by
  rw [forall₂_graph courseFor_iff, arrayViolations_eq_nil courseViolations_eq_nil, List.map_map]
  refine and_congr ?_ Iff.rfl
  constructor
  · intro h
    exact ⟨_, rfl, List.forall_mem_map.mpr h⟩
  · rintro ⟨items, heq, h⟩
    cases heq
    exact List.forall_mem_map.mp h

/-- **Contract:** a payload is accepted exactly when it describes courses with their topics and
subtopics, and these are what the validation returns. -/
theorem validateCatalogPayload_eq_ok_iff (payload : Json) (catalog : CatalogPayloadDto) :
    validateCatalogPayload payload = .ok catalog ↔ Describes payload catalog := by
  obtain ⟨l⟩ := catalog
  constructor
  · intro h
    unfold validateCatalogPayload at h
    split at h
    · split at h
      · rename_i courses hcourses
        simp only at h
        split at h
        · rename_i hnone
          cases h
          exact ⟨courses, hcourses, (courses_accepted_iff courses _).mpr ⟨hnone, rfl⟩⟩
        · cases h
      · cases h
    · cases h
  · rintro ⟨courses, hcourses, hentries⟩
    obtain ⟨fields, rfl⟩ := exists_fields_of_get hcourses
    obtain ⟨hnone, rfl⟩ := (courses_accepted_iff courses l).mp hentries
    simp [validateCatalogPayload, isObject, hcourses, hnone]

end Odiseo.Catalogs
