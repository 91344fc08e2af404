import Odiseo.Database.Transition

/-!
# Catalog reads under versioned cache keys

`CatalogUseCase.getCourses`, `getCourseTopics` and `updateTopicVisibility` for one tenant,
with the repository behind them. A read takes the version of the key space from the
cache, then the entry under this version, then the database; a toggle writes to the
database and then a new version to the cache. Any entry may be evicted, the version
included, and any cache operation may fail or be given up: a write that is given up may
still take effect later.
-/

namespace Odiseo.Catalogs

/-- `Subtopic`. -/
structure Subtopic where
  id : ℕ
  name : String
  deriving DecidableEq, Repr

/-- `Topic`, with its subtopics. -/
structure Topic where
  id : ℕ
  courseId : ℕ
  name : String
  subtopics : List Subtopic
  deriving DecidableEq, Repr

/-- `Course`. -/
structure Course where
  id : ℕ
  name : String
  deriving DecidableEq, Repr

/-- `CatalogSyncState`. -/
structure SyncState where
  lastAttemptAt : Option ℕ
  lastSuccessAt : Option ℕ
  lastOutcome : Option String
  lastError : Option String
  deriving DecidableEq, Repr

/-- The shared catalog, and the table `tenant_topic_visibility` of the tenant. -/
structure CatalogDb where
  courses : List Course
  topics : List Topic
  visibility : List (ℕ × Bool)
  syncState : Option SyncState
  deriving DecidableEq, Repr

/-- One course of the answer of `getCourses`. -/
structure CourseEntry where
  id : ℕ
  name : String
  topicsCount : ℕ
  activeTopicsCount : ℕ
  deriving DecidableEq, Repr

/-- One topic of the answer of `getCourseTopics`. -/
structure TopicEntry where
  id : ℕ
  name : String
  isActive : Bool
  subtopics : List Subtopic
  deriving DecidableEq, Repr

/-- The answer of a catalog read. -/
inductive CatalogData
  /-- `getCourses`: the courses and the state of the synchronisation. -/
  | courses (courses : List CourseEntry) (syncState : Option SyncState)
  /-- `getCourseTopics`. -/
  | topics (topics : List TopicEntry)
  deriving DecidableEq, Repr

/-- A call of `getCourses` or `getCourseTopics`, by its arguments. -/
inductive Query
  | courses (search : Option String)
  | topics (courseId : ℕ) (search : Option String)
  deriving DecidableEq, Repr

/-- `search`, where the empty text counts as absent. -/
def searchTerm : Option String → Option String
  | some "" => none
  | search => search

/-- `name ILIKE '%term%'` with the metacharacters of the term escaped. -/
def ilike (name term : String) : Bool :=
  name.toLower.toList.tails.any fun rest => term.toLower.toList.isPrefixOf rest

/-- A row passes the `WHERE` clause of a search. -/
def matchesSearch (search : Option String) (names : List String) : Bool :=
  match search with
  | none => true
  | some term => names.any fun name => ilike name term

/-- `COALESCE(ttv.is_active, true)`. -/
def CatalogDb.isActive (db : CatalogDb) (topicId : ℕ) : Bool :=
  ((db.visibility.find? fun row => row.1 == topicId).map Prod.snd).getD true

/-- The topics of a course that a search of the courses joins. -/
def CatalogDb.joinedTopics (db : CatalogDb) (search : Option String) (c : Course) : List Topic :=
  db.topics.filter fun t => t.courseId == c.id &&
    matchesSearch search (c.name :: t.name :: t.subtopics.map (·.name))

/-- `MAX_COURSES_RESULT`. -/
def maxCoursesResult : ℕ := 500

/-- `getCourses` of the repository. -/
def CatalogDb.getCourses (db : CatalogDb) (search : Option String) : List CourseEntry :=
  let courses := db.courses.filter fun c =>
    matchesSearch search [c.name] || !(db.joinedTopics search c).isEmpty
  ((courses.mergeSort fun a b => decide (a.name ≤ b.name)).take maxCoursesResult).map fun c =>
    { id := c.id
      name := c.name
      topicsCount := (db.joinedTopics search c).length
      activeTopicsCount := ((db.joinedTopics search c).filter fun t => db.isActive t.id).length }

/-- `getCourseTopics` of the repository: a topic that does not match itself is listed with
the subtopics that do. -/
def CatalogDb.getCourseTopics (db : CatalogDb) (courseId : ℕ) (search : Option String) :
    List TopicEntry :=
  let topics := db.topics.filter fun t => t.courseId == courseId &&
    matchesSearch search (t.name :: t.subtopics.map (·.name))
  (topics.mergeSort fun a b => decide (a.name ≤ b.name)).map fun t =>
    { id := t.id
      name := t.name
      isActive := db.isActive t.id
      subtopics := (t.subtopics.filter fun s => matchesSearch search [t.name, s.name]).mergeSort
        fun a b => decide (a.name ≤ b.name) }

/-- The upsert of `updateTopicLocalVisibility`. -/
def CatalogDb.setVisibility (db : CatalogDb) (topicId : ℕ) (isActive : Bool) : CatalogDb :=
  { db with
    visibility := (topicId, isActive) :: db.visibility.filter fun row => row.1 != topicId }

/-- A key of the cache, by the parts that its text is put together from. -/
structure CacheKey where
  version : ℕ
  /-- The course whose topics are listed; `none`: the courses. -/
  courseId : Option ℕ
  /-- `search || 'all'`. -/
  search : String
  deriving DecidableEq, Repr

/-- The key of a read under a version. -/
def Query.cacheKey (version : ℕ) : Query → CacheKey
  | .courses search => ⟨version, none, (searchTerm search).getD "all"⟩
  | .topics courseId search => ⟨version, some courseId, (searchTerm search).getD "all"⟩

/-- The answer of a read, with the number of toggles that had committed when its rows were
read. -/
structure ReadData where
  data : CatalogData
  readAt : ℕ
  deriving DecidableEq, Repr

/-- How far a read has come. -/
inductive ReadStage
  /-- The version has been asked for. -/
  | readingVersion
  /-- The entry has been asked for. -/
  | readingCache (version : ℕ)
  /-- The repository has been asked. -/
  | readingRepository (version : ℕ)
  /-- The courses have been read; the state of the synchronisation comes next. -/
  | readingSyncState (version : ℕ) (courses : List CourseEntry) (readAt : ℕ)
  /-- The entry is being written. -/
  | writingCache (version : ℕ) (result : ReadData)
  deriving DecidableEq, Repr

/-- The version that a read has picked. -/
def ReadStage.version : ReadStage → Option ℕ
  | .readingVersion => none
  | .readingCache version => some version
  | .readingRepository version => some version
  | .readingSyncState version _ _ => some version
  | .writingCache version _ => some version

/-- The version of a read that has its rows, and when it read them. -/
def ReadStage.computed : ReadStage → Option (ℕ × ℕ)
  | .readingSyncState version _ readAt => some (version, readAt)
  | .writingCache version result => some (version, result.readAt)
  | _ => none

/-- A read in flight, with the toggles that had returned when it started. -/
structure ReadCall where
  query : Query
  toggled : List ℕ
  stage : ReadStage
  deriving DecidableEq, Repr

/-- How far a toggle has come. -/
inductive ToggleStage
  /-- The topic exists; the upsert has been sent. -/
  | updating
  /-- The upsert has committed. -/
  | committed (number : ℕ)
  /-- The new version is being written. -/
  | bumping (number version : ℕ)
  deriving DecidableEq, Repr

/-- The number of a toggle that has committed. -/
def ToggleStage.number : ToggleStage → Option ℕ
  | .updating => none
  | .committed number => some number
  | .bumping number _ => some number

/-- A call of `updateTopicVisibility`. -/
structure Toggle where
  topicId : ℕ
  isActive : Bool
  stage : ToggleStage
  deriving DecidableEq, Repr

/-- A write of an entry that may still take effect. -/
structure CacheWrite where
  key : CacheKey
  result : ReadData
  deriving DecidableEq, Repr

/-- What a read has returned. -/
structure Returned where
  toggled : List ℕ
  result : ReadData
  deriving DecidableEq, Repr

/-- The database, the cache and the calls of all processes. Toggles are numbered in the
order of their commits. -/
structure World where
  db : CatalogDb
  cache : CacheKey → Option ReadData
  /-- The entry `catalogs:version:<tenant>`. -/
  version : Option ℕ
  calls : List ReadCall
  writes : List CacheWrite
  toggles : List Toggle
  /-- Writes of a version that may still take effect. -/
  versionWrites : List ℕ
  /-- The last value of `Date.now()` in a toggle. -/
  lastNow : ℕ
  /-- The number of toggles that have committed. -/
  commits : ℕ
  /-- The toggles that have returned. -/
  toggled : List ℕ
  /-- What the reads have returned. -/
  returned : List Returned

/-- The cache is empty and nothing runs. -/
def World.start (db : CatalogDb) : World where
  db := db
  cache := fun _ => none
  version := none
  calls := []
  writes := []
  toggles := []
  versionWrites := []
  lastNow := 0
  commits := 0
  toggled := []
  returned := []

/-- One step of a read, of a toggle or of the cache. -/
inductive Action
  /-- `getCourses` or `getCourseTopics` is called. -/
  | read (query : Query)
  /-- The cache answers with the version. -/
  | versionHit (call : ℕ)
  /-- The cache has no version, refuses, or does not answer in time: version 0. -/
  | versionMiss (call : ℕ)
  /-- The cache answers with the entry. -/
  | cacheHit (call : ℕ)
  /-- The cache has no entry, refuses, or does not answer in time. -/
  | cacheMiss (call : ℕ)
  /-- The rows are read from the repository. -/
  | readRepository (call : ℕ)
  /-- `getSyncState`; the write to the cache is sent. -/
  | readSyncState (call : ℕ)
  /-- The write was answered, refused or given up, and the read returns. -/
  | finish (call : ℕ)
  /-- A write of an entry takes effect. -/
  | writeLands (write : ℕ)
  /-- A write of an entry is lost. -/
  | writeLost (write : ℕ)
  /-- An entry is evicted. -/
  | evict (key : CacheKey)
  /-- The version is evicted. -/
  | evictVersion
  /-- `updateTopicVisibility` is called. -/
  | toggle (topicId : ℕ) (isActive : Bool)
  /-- The upsert commits. -/
  | commitToggle (toggle : ℕ)
  /-- `Date.now()` is taken and written. -/
  | bump (toggle : ℕ) (now : ℕ)
  /-- The write was answered, refused or given up, and the toggle returns. -/
  | toggleReturns (toggle : ℕ)
  /-- A write of a version takes effect. -/
  | versionLands (write : ℕ)
  /-- A write of a version is lost. -/
  | versionLost (write : ℕ)
  deriving DecidableEq, Repr

namespace World

/-- A read goes on. -/
def setStage (w : World) (i : ℕ) (c : ReadCall) (stage : ReadStage) : World :=
  { w with calls := w.calls.set i { c with stage := stage } }

/-- A read returns. -/
def answer (w : World) (i : ℕ) (c : ReadCall) (result : ReadData) : World :=
  { w with
    calls := w.calls.eraseIdx i
    returned := w.returned ++ [⟨c.toggled, result⟩] }

/-- The read has its answer and sends it to the cache. -/
def store (w : World) (i : ℕ) (c : ReadCall) (version : ℕ) (result : ReadData) : World :=
  { w.setStage i c (.writingCache version result) with
    writes := w.writes ++ [⟨c.query.cacheKey version, result⟩] }

/-- `getCacheVersion` with an answer of the cache. -/
def versionHit (w : World) (i : ℕ) (c : ReadCall) : Option World :=
  match c.stage, w.version with
  | .readingVersion, some version => some (w.setStage i c (.readingCache version))
  | _, _ => none

/-- `getCacheVersion` without an answer. -/
def versionMiss (w : World) (i : ℕ) (c : ReadCall) : Option World :=
  match c.stage with
  | .readingVersion => some (w.setStage i c (.readingCache 0))
  | _ => none

/-- An entry is returned as it is. -/
def cacheHit (w : World) (i : ℕ) (c : ReadCall) : Option World :=
  match c.stage with
  | .readingCache version => (w.cache (c.query.cacheKey version)).map (w.answer i c)
  | _ => none

/-- Without an entry the repository is asked. -/
def cacheMiss (w : World) (i : ℕ) (c : ReadCall) : Option World :=
  match c.stage with
  | .readingCache version => some (w.setStage i c (.readingRepository version))
  | _ => none

/-- The rows of the answer. -/
def readRepository (w : World) (i : ℕ) (c : ReadCall) : Option World :=
  match c.stage, c.query with
  | .readingRepository version, .courses search =>
    some (w.setStage i c
      (.readingSyncState version (w.db.getCourses (searchTerm search)) w.commits))
  | .readingRepository version, .topics courseId search =>
    some (w.store i c version
      ⟨.topics (w.db.getCourseTopics courseId (searchTerm search)), w.commits⟩)
  | _, _ => none

/-- The rest of the answer of `getCourses`. -/
def readSyncState (w : World) (i : ℕ) (c : ReadCall) : Option World :=
  match c.stage with
  | .readingSyncState version courses readAt =>
    some (w.store i c version ⟨.courses courses w.db.syncState, readAt⟩)
  | _ => none

/-- A read returns what it has read. -/
def finish (w : World) (i : ℕ) (c : ReadCall) : Option World :=
  match c.stage with
  | .writingCache _ result => some (w.answer i c result)
  | _ => none

/-- A write of an entry takes effect. -/
def writeLands (w : World) (j : ℕ) (x : CacheWrite) : World :=
  { w with
    cache := fun key => if key = x.key then some x.result else w.cache key
    writes := w.writes.eraseIdx j }

/-- A toggle of an unknown topic is refused. -/
def toggle (w : World) (topicId : ℕ) (isActive : Bool) : World :=
  if w.db.topics.any fun t => t.id == topicId then
    { w with toggles := w.toggles ++ [⟨topicId, isActive, .updating⟩] }
  else w

/-- The upsert commits. -/
def commitToggle (w : World) (k : ℕ) (t : Toggle) : Option World :=
  match t.stage with
  | .updating =>
    some { w with
      db := w.db.setVisibility t.topicId t.isActive
      commits := w.commits + 1
      toggles := w.toggles.set k { t with stage := .committed (w.commits + 1) } }
  | _ => none

/-- `bumpCacheVersion`: the clock has moved on since the last toggle. -/
def bump (now : ℕ) (w : World) (k : ℕ) (t : Toggle) : Option World :=
  match t.stage with
  | .committed number =>
    if w.lastNow < now then
      some { w with
        lastNow := now
        versionWrites := w.versionWrites ++ [now]
        toggles := w.toggles.set k { t with stage := .bumping number now } }
    else none
  | _ => none

/-- A toggle returns, whether its version was written or not. -/
def toggleReturns (w : World) (k : ℕ) (t : Toggle) : Option World :=
  match t.stage with
  | .bumping number _ =>
    some { w with toggles := w.toggles.eraseIdx k, toggled := w.toggled ++ [number] }
  | _ => none

/-- What an action does, when it can happen. -/
def step (w : World) : Action → Option World
  | .read query => some { w with calls := w.calls ++ [⟨query, w.toggled, .readingVersion⟩] }
  | .versionHit i => (w.calls[i]?).bind (w.versionHit i)
  | .versionMiss i => (w.calls[i]?).bind (w.versionMiss i)
  | .cacheHit i => (w.calls[i]?).bind (w.cacheHit i)
  | .cacheMiss i => (w.calls[i]?).bind (w.cacheMiss i)
  | .readRepository i => (w.calls[i]?).bind (w.readRepository i)
  | .readSyncState i => (w.calls[i]?).bind (w.readSyncState i)
  | .finish i => (w.calls[i]?).bind (w.finish i)
  | .writeLands j => (w.writes[j]?).map (w.writeLands j)
  | .writeLost j => some { w with writes := w.writes.eraseIdx j }
  | .evict key => some { w with cache := fun k => if k = key then none else w.cache k }
  | .evictVersion => some { w with version := none }
  | .toggle topicId isActive => some (w.toggle topicId isActive)
  | .commitToggle k => (w.toggles[k]?).bind (w.commitToggle k)
  | .bump k now => (w.toggles[k]?).bind (w.bump now k)
  | .toggleReturns k => (w.toggles[k]?).bind (w.toggleReturns k)
  | .versionLands j =>
    (w.versionWrites[j]?).map fun version =>
      { w with version := some version, versionWrites := w.versionWrites.eraseIdx j }
  | .versionLost j => some { w with versionWrites := w.versionWrites.eraseIdx j }

end World

end Odiseo.Catalogs
