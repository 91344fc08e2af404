import Odiseo.Catalogs.Sync

/-!
# What one synchronisation writes

The rows of a payload, by level, and the catalog with these rows merged into it. Which
payloads are written does not depend on what the catalog holds: the foreign keys are met
by the payload itself.
-/

namespace Odiseo.Catalogs

open Database Database.Related

/-- Rows of the three levels. -/
structure CatalogRows where
  courses : List CourseRow
  topics : List TopicRow
  subtopics : List SubtopicRow

/-- The topics of a payload, each with its course. -/
def CatalogPayloadDto.topics (p : CatalogPayloadDto) :
    List (CatalogCourseDto × CatalogTopicDto) :=
  p.courses.flatMap fun c => c.topics.map fun t => (c, t)

/-- The subtopics of a payload, each with its topic. -/
def CatalogPayloadDto.subtopics (p : CatalogPayloadDto) :
    List (CatalogTopicDto × CatalogSubtopicDto) :=
  p.courses.flatMap fun c => c.topics.flatMap fun t => t.subtopics.map fun s => (t, s)

/-- The row of a course. -/
def CourseStored (bigint : String → Option ℤ) (c : CatalogCourseDto) (r : CourseRow) : Prop :=
  bigint c.id.toText = some r.id ∧ varchar c.name = some r.name

/-- The row of a topic of a course. -/
def TopicStored (bigint : String → Option ℤ) (entry : CatalogCourseDto × CatalogTopicDto)
    (r : TopicRow) : Prop :=
  bigint entry.2.id.toText = some r.id ∧ bigint entry.1.id.toText = some r.courseId ∧
    varchar entry.2.name = some r.name

/-- The row of a subtopic of a topic. -/
def SubtopicStored (bigint : String → Option ℤ) (entry : CatalogTopicDto × CatalogSubtopicDto)
    (r : SubtopicRow) : Prop :=
  ∃ id name, entry.2 = .subtopic id name ∧ bigint id.toText = some r.id ∧
    bigint entry.1.id.toText = some r.topicId ∧ varchar name = some r.name

/-- A payload can be stored as rows: every text fits into its column, every entry is an object,
and no id comes twice in a level. -/
structure Stores (bigint : String → Option ℤ) (p : CatalogPayloadDto) (rows : CatalogRows) :
    Prop where
  courses : List.Forall₂ (CourseStored bigint) p.courses rows.courses
  topics : List.Forall₂ (TopicStored bigint) p.topics rows.topics
  subtopics : List.Forall₂ (SubtopicStored bigint) p.subtopics rows.subtopics
  distinctCourses : (rows.courses.map key).Nodup
  distinctTopics : (rows.topics.map key).Nodup
  distinctSubtopics : (rows.subtopics.map key).Nodup

/-- Rows merged into a table: a row that is given replaces the one under its key, all other
rows are kept. -/
def MergedTable {ρ : Type} [Keyed ℤ ρ] (rows : List ρ) (t t' : Table ℤ ρ) : Prop :=
  ∀ id, t'.find id = (rows.find? fun r => key r = id).or (t.find id)

/-- Rows merged into a catalog. -/
structure Merged (rows : CatalogRows) (db db' : SharedCatalog) : Prop where
  courses : MergedTable rows.courses db.courses db'.courses
  topics : MergedTable rows.topics db.topics db'.topics
  subtopics : MergedTable rows.subtopics db.subtopics db'.subtopics

/-- An upsert that sets every column merges its rows into the table. -/
theorem mergedTable_upsertAll {ρ : Type} [Keyed ℤ ρ] {t : Table ℤ ρ} {set : ρ → ρ → ρ}
    {hset : ∀ r a, key (set r a) = key a} (hall : ∀ r a, key a = key r → set r a = r)
    {rows : List ρ} (hnodup : (rows.map key).Nodup) :
    MergedTable rows t (t.upsertAll set hset rows) := by
  intro id
  cases hrow : rows.find? fun r => key r = id with
  | none =>
    rw [Table.find_upsertAll_of_notMem, Option.none_or]
    rw [List.find?_eq_none] at hrow
    simpa using hrow
  | some r =>
    have hkey : key r = id := by simpa using List.find?_some hrow
    rw [← hkey, Table.find_upsertAll_of_mem t set hset hnodup (List.mem_of_find?_eq_some hrow)]
    cases hold : t.find (key r) with
    | none => rfl
    | some a =>
      simp [hall r a (Table.key_of_find hold)]

/-- A row that is given is found afterwards. -/
theorem MergedTable.isSome {ρ : Type} [Keyed ℤ ρ] {rows : List ρ} {t t' : Table ℤ ρ}
    (h : MergedTable rows t t') {r : ρ} (hr : r ∈ rows) : (t'.find (key r)).isSome = true := by
  have hrow : (rows.find? fun a => key a = key r).isSome = true := by
    rw [List.find?_isSome]
    exact ⟨r, hr, by simp⟩
  rw [h]
  cases hfind : rows.find? fun a => key a = key r with
  | none => rw [hfind] at hrow; cases hrow
  | some a => rfl

/-- Nothing is merged. -/
theorem mergedTable_nil {ρ : Type} [Keyed ℤ ρ] (t : Table ℤ ρ) : MergedTable [] t t :=
  fun _ => rfl

section Rows

variable {bigint : String → Option ℤ}

/-- Reading an id. -/
theorem readId_eq_ok {text : String} {id : ℤ} :
    readId bigint text = .ok id ↔ bigint text = some id := by
  unfold readId
  split
  · rename_i h
    simp [h]
  · rename_i h
    simp [h]

/-- Reading a name. -/
theorem readName_eq_ok {name stored : String} :
    readName name = .ok stored ↔ varchar name = some stored := by
  unfold readName
  split
  · rename_i h
    simp [h]
  · rename_i h
    simp [h]

/-- A step of a computation that succeeds. -/
theorem bind_eq_ok {α β ε : Type} {x : Except ε α} {f : α → Except ε β} {b : β} :
    (x >>= f) = .ok b ↔ ∃ a, x = .ok a ∧ f a = .ok b := by
  cases x with
  | error e =>
    constructor
    · intro h
      cases h
    · rintro ⟨_, h, _⟩
      cases h
  | ok a =>
    constructor
    · intro h
      exact ⟨a, rfl, h⟩
    · rintro ⟨_, h, hf⟩
      cases h
      exact hf

/-- Reading the row of a course. -/
theorem courseRow_eq_ok {d : CourseData} {r : CourseRow} :
    courseRow bigint d = .ok r ↔ bigint d.id = some r.id ∧ varchar d.name = some r.name := by
  obtain ⟨id, name⟩ := r
  simp only [courseRow, bind_eq_ok, readId_eq_ok, readName_eq_ok]
  constructor
  · rintro ⟨_, hid, _, hname, h⟩
    cases h
    exact ⟨hid, hname⟩
  · rintro ⟨hid, hname⟩
    exact ⟨id, hid, name, hname, rfl⟩

/-- Reading the row of a topic. -/
theorem topicRow_eq_ok {d : TopicData} {r : TopicRow} :
    topicRow bigint d = .ok r ↔ bigint d.id = some r.id ∧ bigint d.courseId = some r.courseId ∧
      varchar d.name = some r.name := by
  obtain ⟨id, courseId, name⟩ := r
  simp only [topicRow, bind_eq_ok, readId_eq_ok, readName_eq_ok]
  constructor
  · rintro ⟨_, hid, _, hcourse, _, hname, h⟩
    cases h
    exact ⟨hid, hcourse, hname⟩
  · rintro ⟨hid, hcourse, hname⟩
    exact ⟨id, hid, courseId, hcourse, name, hname, rfl⟩

/-- Reading a name that may not be given. -/
theorem readNameOrNull_eq_ok {name : Option String} {stored : String} :
    readNameOrNull name = .ok stored ↔
      ∃ given, name = some given ∧ varchar given = some stored := by
  cases name with
  | none => simp [readNameOrNull]
  | some given => simp [readNameOrNull, readName_eq_ok]

/-- Reading the row of a subtopic. -/
theorem subtopicRow_eq_ok {d : SubtopicData} {r : SubtopicRow} :
    subtopicRow bigint d = .ok r ↔ bigint d.id = some r.id ∧ bigint d.topicId = some r.topicId ∧
      ∃ name, d.name = some name ∧ varchar name = some r.name := by
  obtain ⟨id, topicId, name⟩ := r
  simp only [subtopicRow, bind_eq_ok, readId_eq_ok, readNameOrNull_eq_ok]
  constructor
  · rintro ⟨_, hid, _, htopic, _, hname, h⟩
    cases h
    exact ⟨hid, htopic, hname⟩
  · rintro ⟨hid, htopic, hname⟩
    exact ⟨id, hid, topicId, htopic, name, hname, rfl⟩

/-- The rows of the courses of a payload. -/
theorem mapM_coursesData (p : CatalogPayloadDto) (rows : List CourseRow) :
    (coursesData p).mapM (courseRow bigint) = .ok rows ↔
      List.Forall₂ (CourseStored bigint) p.courses rows := by
  rw [mapM_eq_ok_iff, coursesData, List.forall₂_map_left_iff]
  simp only [courseRow_eq_ok]
  rfl

/-- `topicsData` goes over the topics with their courses. -/
theorem topicsData_eq (p : CatalogPayloadDto) :
    topicsData p = p.topics.map fun e => ⟨e.2.id.toText, e.1.id.toText, e.2.name⟩ := by
  simp [topicsData, CatalogPayloadDto.topics, List.map_flatMap, List.map_map, Function.comp_def]

/-- The rows of the topics of a payload. -/
theorem mapM_topicsData (p : CatalogPayloadDto) (rows : List TopicRow) :
    (topicsData p).mapM (topicRow bigint) = .ok rows ↔
      List.Forall₂ (TopicStored bigint) p.topics rows := by
  rw [mapM_eq_ok_iff, topicsData_eq, List.forall₂_map_left_iff]
  simp only [topicRow_eq_ok]
  rfl

/-- `subtopicsData` goes over the subtopics with their topics. -/
theorem payloadSubtopics_eq (p : CatalogPayloadDto) :
    payloadSubtopics p = p.subtopics.map fun e => (e.1.id.toText, e.2) := by
  simp [payloadSubtopics, CatalogPayloadDto.subtopics, List.map_flatMap, List.map_map,
    Function.comp_def]

/-- The rows of the subtopics of a payload. -/
theorem mapM_subtopicsData (p : CatalogPayloadDto) (rows : List SubtopicRow) :
    (∃ data, subtopicsData p = .ok data ∧ data.mapM (subtopicRow bigint) = .ok rows) ↔
      List.Forall₂ (SubtopicStored bigint) p.subtopics rows := by
  simp only [subtopicsData, payloadSubtopics_eq, mapM_eq_ok_iff, List.forall₂_map_left_iff]
  generalize p.subtopics = entries
  induction entries generalizing rows with
  | nil =>
    constructor
    · rintro ⟨_, hdata, hrows⟩
      cases hdata
      cases hrows
      exact .nil
    · intro h
      cases h
      exact ⟨[], .nil, .nil⟩
  | cons e entries ih =>
    obtain ⟨t, s⟩ := e
    constructor
    · rintro ⟨_, hdata, hrows⟩
      cases hdata with
      | cons hd hdata =>
        cases hrows with
        | cons hr hrows =>
          refine .cons ?_ ((ih _).mp ⟨_, hdata, hrows⟩)
          obtain ⟨hid, htopic, name, hname, hstored⟩ := subtopicRow_eq_ok.mp hr
          cases s with
          | subtopic id name' =>
            cases hd
            cases hname
            exact ⟨id, name, rfl, hid, htopic, hstored⟩
          | null => cases hd
          | list =>
            cases hd
            cases hname
    · intro h
      cases h with
      | cons hstored hrows =>
        obtain ⟨data, hdata, hrest⟩ := (ih _).mpr hrows
        obtain ⟨id, name, rfl, hid, htopic, hname⟩ := hstored
        exact ⟨_ :: data, .cons rfl hdata,
          .cons (subtopicRow_eq_ok.mpr ⟨hid, htopic, name, rfl, hname⟩) hrest⟩

end Rows

namespace SharedCatalog

/-- What the upsert of the courses leaves. -/
theorem of_upsertCourses {db db' : SharedCatalog} {rows : List CourseRow}
    (h : db.upsertCourses rows = .ok db') :
    (rows.map key).Nodup ∧ MergedTable rows db.courses db'.courses ∧ db'.topics = db.topics ∧
      db'.subtopics = db.subtopics := by
  unfold upsertCourses at h
  split at h
  · rename_i hnodup
    cases h
    refine ⟨hnodup, mergedTable_upsertAll ?_ hnodup, rfl, rfl⟩
    rintro ⟨_, _⟩ ⟨_, _⟩ rfl
    rfl
  · cases h

/-- What the upsert of the topics leaves. -/
theorem of_upsertTopics {db db' : SharedCatalog} {rows : List TopicRow}
    (h : db.upsertTopics rows = .ok db') :
    (rows.map key).Nodup ∧ MergedTable rows db.topics db'.topics ∧ db'.courses = db.courses ∧
      db'.subtopics = db.subtopics := by
  unfold upsertTopics at h
  split at h
  · rename_i hnodup
    split at h
    · cases h
      refine ⟨hnodup, mergedTable_upsertAll ?_ hnodup, rfl, rfl⟩
      rintro ⟨_, _, _⟩ ⟨_, _, _⟩ rfl
      rfl
    · cases h
  · cases h

/-- What the upsert of the subtopics leaves. -/
theorem of_upsertSubtopics {db db' : SharedCatalog} {rows : List SubtopicRow}
    (h : db.upsertSubtopics rows = .ok db') :
    (rows.map key).Nodup ∧ MergedTable rows db.subtopics db'.subtopics ∧
      db'.courses = db.courses ∧ db'.topics = db.topics := by
  unfold upsertSubtopics at h
  split at h
  · rename_i hnodup
    split at h
    · cases h
      refine ⟨hnodup, mergedTable_upsertAll ?_ hnodup, rfl, rfl⟩
      rintro ⟨_, _, _⟩ ⟨_, _, _⟩ rfl
      rfl
    · cases h
  · cases h

/-- Courses with distinct ids are written. -/
theorem exists_upsertCourses (db : SharedCatalog) {rows : List CourseRow}
    (hnodup : (rows.map key).Nodup) : ∃ db', db.upsertCourses rows = .ok db' :=
  ⟨_, by rw [upsertCourses, if_pos hnodup]⟩

/-- Topics with distinct ids are written once their courses are there. -/
theorem exists_upsertTopics (db : SharedCatalog) {rows : List TopicRow}
    (hnodup : (rows.map key).Nodup) (h : ∀ r ∈ rows, (db.courses.find r.courseId).isSome = true) :
    ∃ db', db.upsertTopics rows = .ok db' :=
  ⟨_, by rw [upsertTopics, if_pos hnodup, dif_pos h]⟩

/-- Subtopics with distinct ids are written once their topics are there. -/
theorem exists_upsertSubtopics (db : SharedCatalog) {rows : List SubtopicRow}
    (hnodup : (rows.map key).Nodup) (h : ∀ r ∈ rows, (db.topics.find r.topicId).isSome = true) :
    ∃ db', db.upsertSubtopics rows = .ok db' :=
  ⟨_, by rw [upsertSubtopics, if_pos hnodup, dif_pos h]⟩

end SharedCatalog

section Payload

variable {bigint : String → Option ℤ}

/-- The course of a topic that is stored is stored. -/
theorem Stores.parent_course {p : CatalogPayloadDto} {rows : CatalogRows} (h : Stores bigint p rows)
    {r : TopicRow} (hr : r ∈ rows.topics) : ∃ c ∈ rows.courses, key c = r.courseId := by
  obtain ⟨⟨c, t⟩, hmem, _, hcourse, _⟩ := exists_of_mem_right h.topics hr
  obtain ⟨c', hc', hmem⟩ := List.mem_flatMap.mp hmem
  obtain ⟨_, _, heq⟩ := List.mem_map.mp hmem
  cases heq
  obtain ⟨row, hrow, hid, _⟩ := exists_of_mem_left h.courses hc'
  exact ⟨row, hrow, Option.some.inj (hid.symm.trans hcourse)⟩

/-- The topic of a subtopic that is stored is stored. -/
theorem Stores.parent_topic {p : CatalogPayloadDto} {rows : CatalogRows} (h : Stores bigint p rows)
    {r : SubtopicRow} (hr : r ∈ rows.subtopics) : ∃ t ∈ rows.topics, key t = r.topicId := by
  obtain ⟨⟨t, s⟩, hmem, _, _, _, _, htopic, _⟩ := exists_of_mem_right h.subtopics hr
  obtain ⟨c, hc, hmem⟩ := List.mem_flatMap.mp hmem
  obtain ⟨t', ht', hmem⟩ := List.mem_flatMap.mp hmem
  obtain ⟨_, _, heq⟩ := List.mem_map.mp hmem
  cases heq
  have hpair : (c, t) ∈ p.topics :=
    List.mem_flatMap.mpr ⟨c, hc, List.mem_map.mpr ⟨t, ht', rfl⟩⟩
  obtain ⟨row, hrow, hid, _⟩ := exists_of_mem_left h.topics hpair
  exact ⟨row, hrow, Option.some.inj (hid.symm.trans htopic)⟩

/-- A payload without courses stores no rows. -/
theorem stores_nil_iff {rows : CatalogRows} : Stores bigint ⟨[]⟩ rows ↔ rows = ⟨[], [], []⟩ := by
  constructor
  · intro h
    obtain ⟨courses, topics, subtopics⟩ := rows
    have hcourses := h.courses
    have htopics := h.topics
    have hsubtopics := h.subtopics
    simp only [CatalogPayloadDto.topics, CatalogPayloadDto.subtopics, List.flatMap_nil,
      List.forall₂_nil_left_iff] at hcourses htopics hsubtopics
    rw [hcourses, htopics, hsubtopics]
  · rintro rfl
    exact ⟨.nil, .nil, .nil, List.nodup_nil, List.nodup_nil, List.nodup_nil⟩

/-- What the upsert of the topics leaves, if it is sent. -/
theorem of_writeTopics {db db' : SharedCatalog} {data : List TopicData}
    (h : writeTopics bigint db data = .ok db') :
    ∃ rows, data.mapM (topicRow bigint) = .ok rows ∧ (rows.map key).Nodup ∧
      MergedTable rows db.topics db'.topics ∧ db'.courses = db.courses ∧
      db'.subtopics = db.subtopics := by
  unfold writeTopics at h
  split at h
  · rename_i hempty
    cases h
    rw [List.isEmpty_iff.mp hempty]
    exact ⟨[], rfl, List.nodup_nil, mergedTable_nil _, rfl, rfl⟩
  · obtain ⟨rows, hrows, hup⟩ := bind_eq_ok.mp h
    exact ⟨rows, hrows, SharedCatalog.of_upsertTopics hup⟩

/-- What the upsert of the subtopics leaves, if it is sent. -/
theorem of_writeSubtopics {db db' : SharedCatalog} {data : List SubtopicData}
    (h : writeSubtopics bigint db data = .ok db') :
    ∃ rows, data.mapM (subtopicRow bigint) = .ok rows ∧ (rows.map key).Nodup ∧
      MergedTable rows db.subtopics db'.subtopics ∧ db'.courses = db.courses ∧
      db'.topics = db.topics := by
  unfold writeSubtopics at h
  split at h
  · rename_i hempty
    cases h
    rw [List.isEmpty_iff.mp hempty]
    exact ⟨[], rfl, List.nodup_nil, mergedTable_nil _, rfl, rfl⟩
  · obtain ⟨rows, hrows, hup⟩ := bind_eq_ok.mp h
    exact ⟨rows, hrows, SharedCatalog.of_upsertSubtopics hup⟩

/-- Topics with distinct ids are written once their courses are there. -/
theorem exists_writeTopics {db : SharedCatalog} {data : List TopicData} {rows : List TopicRow}
    (hread : data.mapM (topicRow bigint) = .ok rows) (hnodup : (rows.map key).Nodup)
    (h : ∀ r ∈ rows, (db.courses.find r.courseId).isSome = true) :
    ∃ db', writeTopics bigint db data = .ok db' := by
  unfold writeTopics
  split
  · exact ⟨db, rfl⟩
  · obtain ⟨db', hup⟩ := db.exists_upsertTopics hnodup h
    exact ⟨db', bind_eq_ok.mpr ⟨rows, hread, hup⟩⟩

/-- Subtopics with distinct ids are written once their topics are there. -/
theorem exists_writeSubtopics {db : SharedCatalog} {data : List SubtopicData}
    {rows : List SubtopicRow} (hread : data.mapM (subtopicRow bigint) = .ok rows)
    (hnodup : (rows.map key).Nodup)
    (h : ∀ r ∈ rows, (db.topics.find r.topicId).isSome = true) :
    ∃ db', writeSubtopics bigint db data = .ok db' := by
  unfold writeSubtopics
  split
  · exact ⟨db, rfl⟩
  · obtain ⟨db', hup⟩ := db.exists_upsertSubtopics hnodup h
    exact ⟨db', bind_eq_ok.mpr ⟨rows, hread, hup⟩⟩

/-- The transaction commits only what a payload stores, and merges it. -/
theorem of_writeLevels {db db' : SharedCatalog} {p : CatalogPayloadDto}
    {data : List SubtopicData} (hdata : subtopicsData p = .ok data)
    (h : writeLevels bigint db (coursesData p) (topicsData p) data = .ok db') :
    ∃ rows, Stores bigint p rows ∧ Merged rows db db' := by
  simp only [writeLevels, bind_eq_ok] at h
  obtain ⟨courses, hcourses, db₁, h₁, db₂, h₂, h₃⟩ := h
  obtain ⟨hnodup₁, hmerged₁, htopics₁, hsubtopics₁⟩ := SharedCatalog.of_upsertCourses h₁
  obtain ⟨topics, htopics, hnodup₂, hmerged₂, hcourses₂, hsubtopics₂⟩ := of_writeTopics h₂
  obtain ⟨subtopics, hsubtopics, hnodup₃, hmerged₃, hcourses₃, htopics₃⟩ := of_writeSubtopics h₃
  refine ⟨⟨courses, topics, subtopics⟩, ⟨(mapM_coursesData p courses).mp hcourses,
    (mapM_topicsData p topics).mp htopics,
    (mapM_subtopicsData p subtopics).mp ⟨data, hdata, hsubtopics⟩, hnodup₁, hnodup₂, hnodup₃⟩, ?_⟩
  refine ⟨?_, ?_, ?_⟩
  · rw [hcourses₃, hcourses₂]
    exact hmerged₁
  · rw [htopics₃, ← htopics₁]
    exact hmerged₂
  · rw [← hsubtopics₁, ← hsubtopics₂]
    exact hmerged₃

/-- The transaction commits what a payload stores. -/
theorem exists_writeLevels {p : CatalogPayloadDto} {rows : CatalogRows}
    (h : Stores bigint p rows) (db : SharedCatalog) :
    ∃ data db', subtopicsData p = .ok data ∧
      writeLevels bigint db (coursesData p) (topicsData p) data = .ok db' := by
  obtain ⟨data, hdata, hsubtopics⟩ := (mapM_subtopicsData p rows.subtopics).mpr h.subtopics
  have hcourses := (mapM_coursesData p rows.courses).mpr h.courses
  have htopics := (mapM_topicsData p rows.topics).mpr h.topics
  obtain ⟨db₁, h₁⟩ := db.exists_upsertCourses h.distinctCourses
  obtain ⟨_, hmerged₁, _, _⟩ := SharedCatalog.of_upsertCourses h₁
  have hparents₁ : ∀ r ∈ rows.topics, (db₁.courses.find r.courseId).isSome = true := by
    intro r hr
    obtain ⟨c, hc, hkey⟩ := h.parent_course hr
    exact hkey ▸ hmerged₁.isSome hc
  obtain ⟨db₂, h₂⟩ := exists_writeTopics htopics h.distinctTopics hparents₁
  have hparents₂ : ∀ r ∈ rows.subtopics, (db₂.topics.find r.topicId).isSome = true := by
    obtain ⟨topics, hread, _, hmerged₂, _, _⟩ := of_writeTopics h₂
    rw [htopics] at hread
    cases hread
    intro r hr
    obtain ⟨t, ht, hkey⟩ := h.parent_topic hr
    exact hkey ▸ hmerged₂.isSome ht
  obtain ⟨db₃, h₃⟩ := exists_writeSubtopics hsubtopics h.distinctSubtopics hparents₂
  refine ⟨data, db₃, hdata, ?_⟩
  simp only [writeLevels, bind_eq_ok]
  exact ⟨_, hcourses, db₁, h₁, db₂, h₂, h₃⟩

/-- The rows of a payload are determined by it. -/
theorem Stores.unique {p : CatalogPayloadDto} {rows rows' : CatalogRows}
    (h : Stores bigint p rows) (h' : Stores bigint p rows') : rows = rows' := by
  obtain ⟨courses, topics, subtopics⟩ := rows
  obtain ⟨courses', topics', subtopics'⟩ := rows'
  have hcourses : courses = courses' := by
    refine List.right_unique_forall₂' ?_ h.courses h'.courses
    rintro c ⟨id, name⟩ ⟨id', name'⟩ ⟨hid, hname⟩ ⟨hid', hname'⟩
    rw [hid] at hid'
    rw [hname] at hname'
    cases hid'
    cases hname'
    rfl
  have htopics : topics = topics' := by
    refine List.right_unique_forall₂' ?_ h.topics h'.topics
    rintro t ⟨id, courseId, name⟩ ⟨id', courseId', name'⟩ ⟨hid, hcourse, hname⟩
      ⟨hid', hcourse', hname'⟩
    rw [hid] at hid'
    rw [hcourse] at hcourse'
    rw [hname] at hname'
    cases hid'
    cases hcourse'
    cases hname'
    rfl
  have hsubtopics : subtopics = subtopics' := by
    refine List.right_unique_forall₂' ?_ h.subtopics h'.subtopics
    rintro s ⟨id, topicId, name⟩ ⟨id', topicId', name'⟩ ⟨_, _, hs, hid, htopic, hname⟩
      ⟨_, _, hs', hid', htopic', hname'⟩
    rw [hs] at hs'
    cases hs'
    rw [hid] at hid'
    rw [htopic] at htopic'
    rw [hname] at hname'
    cases hid'
    cases htopic'
    cases hname'
    rfl
  rw [hcourses, htopics, hsubtopics]

/-- What a synchronisation that succeeds has written. -/
theorem of_upsertCatalogs {db db' : SharedCatalog} {payload : Json}
    (h : upsertCatalogs bigint db payload = .ok db') :
    ∃ p rows, Describes payload p ∧ Stores bigint p rows ∧ Merged rows db db' := by
  unfold upsertCatalogs at h
  split at h
  · cases h
  · rename_i p hvalid
    have hp := (validateCatalogPayload_eq_ok_iff payload p).mp hvalid
    split at h
    · rename_i hempty
      cases h
      obtain ⟨courses⟩ := p
      cases courses with
      | cons _ _ => cases hempty
      | nil =>
        exact ⟨_, ⟨[], [], []⟩, hp, stores_nil_iff.mpr rfl,
          mergedTable_nil _, mergedTable_nil _, mergedTable_nil _⟩
    · obtain ⟨data, hdata, hwrite⟩ := bind_eq_ok.mp h
      obtain ⟨rows, hstores, hmerged⟩ := of_writeLevels hdata hwrite
      exact ⟨p, rows, hp, hstores, hmerged⟩

/-- A payload that can be stored is written into any catalog. -/
theorem exists_upsertCatalogs {payload : Json} {p : CatalogPayloadDto} {rows : CatalogRows}
    (hp : Describes payload p) (h : Stores bigint p rows) (db : SharedCatalog) :
    ∃ db', upsertCatalogs bigint db payload = .ok db' := by
  have hvalid := (validateCatalogPayload_eq_ok_iff payload p).mpr hp
  unfold upsertCatalogs
  rw [hvalid]
  dsimp only
  split
  · exact ⟨db, rfl⟩
  · obtain ⟨data, db', hdata, hwrite⟩ := exists_writeLevels h db
    exact ⟨db', bind_eq_ok.mpr ⟨data, hdata, hwrite⟩⟩

end Payload

/-- **Synchronisation:** whether a payload is written depends on the payload alone: it is
written exactly when it describes a catalog whose ids and names fit into their columns and
whose ids are distinct in each level. What it describes is then merged into the catalog:
each entry is found under its id as the payload has it, and every other entry is kept. -/
theorem upsertCatalogs_spec (bigint : String → Option ℤ) (db : SharedCatalog) (payload : Json) :
    ((∃ db', upsertCatalogs bigint db payload = .ok db') ↔
      ∃ p rows, Describes payload p ∧ Stores bigint p rows) ∧
    ∀ db' p rows, upsertCatalogs bigint db payload = .ok db' → Describes payload p →
      Stores bigint p rows → Merged rows db db' := by
  refine ⟨⟨?_, ?_⟩, ?_⟩
  · rintro ⟨db', h⟩
    obtain ⟨p, rows, hp, hrows, _⟩ := of_upsertCatalogs h
    exact ⟨p, rows, hp, hrows⟩
  · rintro ⟨p, rows, hp, hrows⟩
    exact exists_upsertCatalogs hp hrows db
  · intro db' p rows h hp hrows
    obtain ⟨p', rows', hp', hrows', hmerged⟩ := of_upsertCatalogs h
    have hvalid := (validateCatalogPayload_eq_ok_iff payload p).mpr hp
    rw [(validateCatalogPayload_eq_ok_iff payload p').mpr hp'] at hvalid
    cases hvalid
    rw [hrows.unique hrows']
    exact hmerged

/-- A payload of one course with one topic, in a catalog that has the course under another
name. -/
theorem upsertCatalogs_spec_renamed :
    let payload : Json := .obj [("courses", .arr [.obj [("id", .num "1"), ("name", .str "Algebra"),
      ("topics", .arr [.obj [("id", .str "2"), ("name", .str "Ecuaciones")]])]])]
    let bigint := fun text => if text = "1" then some 1 else if text = "2" then some 2 else none
    let db : SharedCatalog := { SharedCatalog.empty with
      courses := Table.empty.insert ⟨1, "Algebra I"⟩
      topic_course := by simp [SharedCatalog.empty, Table.empty] }
    ∃ db', upsertCatalogs bigint db payload = .ok db' ∧
      db'.courses.find 1 = some ⟨1, "Algebra"⟩ ∧ db'.topics.find 2 = some ⟨2, 1, "Ecuaciones"⟩ := by
  intro payload bigint db
  have hp : Describes payload ⟨[⟨.num "1", "Algebra", [⟨.str "2", "Ecuaciones", []⟩]⟩]⟩ :=
    ⟨_, rfl, .cons ⟨⟨rfl, rfl, rfl, by decide⟩,
      .inr ⟨_, rfl, .cons ⟨⟨rfl, rfl, rfl, by decide⟩, .inl ⟨rfl, rfl⟩⟩ .nil⟩⟩ .nil⟩
  have hrows : Stores bigint ⟨[⟨.num "1", "Algebra", [⟨.str "2", "Ecuaciones", []⟩]⟩]⟩
      ⟨[⟨1, "Algebra"⟩], [⟨2, 1, "Ecuaciones"⟩], []⟩ :=
    ⟨.cons ⟨rfl, by decide⟩ .nil, .cons ⟨rfl, rfl, by decide⟩ .nil, .nil, by decide, by decide,
      by decide⟩
  obtain ⟨hwritten, hmerged⟩ := upsertCatalogs_spec bigint db payload
  obtain ⟨db', hdb⟩ := hwritten.mpr ⟨_, _, hp, hrows⟩
  have hdb' := hmerged db' _ _ hdb hp hrows
  exact ⟨db', hdb, hdb'.courses 1, hdb'.topics 2⟩

end Odiseo.Catalogs
