import Mathlib.Data.List.Basic
import Odiseo.Database.Transition
import Odiseo.Syllabi.Clone
import Odiseo.Syllabi.Distributions

/-!
# The store of the matrix

`useSyllabusStore` of the client, for the three calls that edit one cell. Each of them applies its
effect before the server has answered, and undoes it when the answer is a failure: an addition by
its temporary identifier, an update with the number that it has replaced, a deletion at the position
that the cell had. The calls overlap, and their answers arrive in any order.
-/

namespace Odiseo.Syllabi

open Database Database.Transition

/-- An identifier in the store: that of a row, or the temporary one of a cell that is being added,
with the reading of the clock. -/
inductive DistId
  | uuid (id : Uuid)
  | temp (now : ℕ)
  deriving DecidableEq, Repr

/-- `SyllabusDistribution` of the client. -/
structure StoredDistribution where
  id : DistId
  syllabusId : Uuid
  templateId : Option Uuid
  weekNumber : ℕ
  topicId : CatalogId
  subtopicId : CatalogId
  questionCount : ℕ
  deriving DecidableEq, Repr

/-- A row as the server answers with it. -/
def SyllabusDistribution.json (row : SyllabusDistribution) : StoredDistribution where
  id := .uuid row.id
  syllabusId := row.syllabusId
  templateId := row.templateId
  weekNumber := row.weekNumber
  topicId := row.topicId
  subtopicId := row.subtopicId
  questionCount := row.questionCount

/-- `CreateDistributionPayload`. -/
structure CreateDistributionPayload where
  weekNumber : ℕ
  topicId : CatalogId
  subtopicId : CatalogId
  questionCount : ℕ
  templateId : Option Uuid

/-- The cell that is shown while it is being added. -/
def CreateDistributionPayload.newDist (payload : CreateDistributionPayload) (syllabusId : Uuid)
    (tempId : DistId) : StoredDistribution where
  id := tempId
  syllabusId := syllabusId
  templateId := payload.templateId
  weekNumber := payload.weekNumber
  topicId := payload.topicId
  subtopicId := payload.subtopicId
  questionCount := payload.questionCount

/-- The validation of a payload by the server. -/
def CreateDistributionPayload.validate (payload : CreateDistributionPayload) :
    Option CreateDistribution :=
  if h : 1 ≤ payload.weekNumber ∧ 1 ≤ payload.questionCount ∧ payload.questionCount ≤ 100 then
    some
      { templateId := payload.templateId
        weekNumber := payload.weekNumber
        topicId := payload.topicId
        subtopicId := payload.subtopicId
        questionCount := payload.questionCount
        weekNumber_pos := h.1
        questionCount_mem := h.2 }
  else none

/-- A reference to an object of the client. -/
abbrev Ref := ℕ

/-- The store: the objects that have been made, and `distributions`, the references of those that
are shown. -/
structure Store where
  objects : List StoredDistribution
  distributions : List Ref
  deriving DecidableEq, Repr

/-- What the server has made of a call. -/
inductive Answer (α : Type)
  | waiting
  | succeeded (response : α)
  | failed
  deriving DecidableEq, Repr

/-- A call whose answer has not arrived, with what it has captured for the time after it. -/
inductive InFlight
  | addDistribution (tempId : ℕ) (payload : CreateDistributionPayload)
      (answer : Answer SyllabusDistribution)
  | updateDistributionQuestionCount (distId : DistId) (dist : Ref)
      (prevQuestionCount questionCount : ℕ) (answer : Answer Unit)
  | deleteDistribution (distId : DistId) (distIndex : ℕ) (backupDist : Ref) (answer : Answer Unit)

namespace Store

/-- The store after `fetchSummary`. -/
def fetched (summary : List StoredDistribution) : Store where
  objects := summary
  distributions := List.range summary.length

/-- The cells that are shown. -/
def shown (store : Store) : List StoredDistribution :=
  store.distributions.filterMap fun a => store.objects[a]?

/-- A reference is to an object with an identifier. -/
def hasId (store : Store) (distId : DistId) (a : Ref) : Bool :=
  store.objects[a]?.any fun d => d.id == distId

/-- `dist.questionCount = questionCount`. -/
def setQuestionCount (store : Store) (dist : Ref) (questionCount : ℕ) : Store :=
  { store with objects := store.objects.modify dist fun d => { d with questionCount } }

/-- `addDistribution`, up to its request. -/
def addDistribution (store : Store) (now : ℕ) (syllabusId : Uuid)
    (payload : CreateDistributionPayload) : Store × Option InFlight :=
  ({ objects := store.objects ++ [payload.newDist syllabusId (.temp now)]
     distributions := store.distributions ++ [store.objects.length] },
    some (.addDistribution now payload .waiting))

/-- `updateDistributionQuestionCount`, up to its request. -/
def updateDistributionQuestionCount (store : Store) (distId : DistId) (questionCount : ℕ) :
    Store × Option InFlight :=
  match store.distributions.find? (store.hasId distId) with
  | none => (store, none)
  | some dist =>
    match store.objects[dist]? with
    | none => (store, none)
    | some object =>
      (store.setQuestionCount dist questionCount,
        some (.updateDistributionQuestionCount distId dist object.questionCount questionCount
          .waiting))

/-- `deleteDistribution`, up to its request. -/
def deleteDistribution (store : Store) (distId : DistId) : Store × Option InFlight :=
  match store.distributions.findIdx? (store.hasId distId) with
  | none => (store, none)
  | some distIndex =>
    match store.distributions[distIndex]? with
    | none => (store, none)
    | some backupDist =>
      ({ store with distributions := store.distributions.eraseIdx distIndex },
        some (.deleteDistribution distId distIndex backupDist .waiting))

/-- What a call does when its answer arrives. -/
def settle (store : Store) : InFlight → Store
  | .addDistribution tempId _ (.succeeded createdDist) =>
    match store.distributions.findIdx? (store.hasId (.temp tempId)) with
    | none => store
    | some index =>
      { objects := store.objects ++ [createdDist.json]
        distributions := store.distributions.set index store.objects.length }
  | .addDistribution tempId _ .failed =>
    { store with
      distributions := store.distributions.filter fun a => !store.hasId (.temp tempId) a }
  | .updateDistributionQuestionCount _ dist prevQuestionCount _ .failed =>
    store.setQuestionCount dist prevQuestionCount
  | .deleteDistribution _ distIndex backupDist .failed =>
    -- `splice` inserts at the end when the position lies behind it
    { store with
      distributions := store.distributions.take distIndex ++
        backupDist :: store.distributions.drop distIndex }
  | _ => store

end Store

namespace InFlight

/-- The server has not come to a call. -/
def isWaiting : InFlight → Bool
  | .addDistribution _ _ .waiting => true
  | .updateDistributionQuestionCount _ _ _ _ .waiting => true
  | .deleteDistribution _ _ _ .waiting => true
  | _ => false

/-- A call that fails. -/
def fail : InFlight → InFlight
  | .addDistribution tempId payload _ => .addDistribution tempId payload .failed
  | .updateDistributionQuestionCount distId dist prevQuestionCount questionCount _ =>
    .updateDistributionQuestionCount distId dist prevQuestionCount questionCount .failed
  | .deleteDistribution distId distIndex backupDist _ =>
    .deleteDistribution distId distIndex backupDist .failed

/-- The write of a call at the server, with the identifier that the database draws. The comparison
with the limit of the week comes before it, in a transaction of its own, and a temporary identifier
is none for the database. -/
def write (known : CatalogId → CatalogId → Bool) (syllabusId id : Uuid) (db : Db) :
    InFlight → InFlight × Db
  | .addDistribution tempId payload _ =>
    match payload.validate with
    | none => (.addDistribution tempId payload .failed, db)
    | some dto =>
      match (createDistribution known (dto.row syllabusId id)).run db with
      | .ok (_, db', _) =>
        (.addDistribution tempId payload (.succeeded (dto.row syllabusId id)), db')
      | .error _ => (.addDistribution tempId payload .failed, db)
  | .updateDistributionQuestionCount (.uuid distId) dist prevQuestionCount questionCount _ =>
    let settled := InFlight.updateDistributionQuestionCount (.uuid distId) dist prevQuestionCount
      questionCount
    if 1 ≤ questionCount ∧ questionCount ≤ 100 then
      match (writeQuestionCount distId syllabusId questionCount).run db with
      | .ok (_, db', _) => (settled (.succeeded ()), db')
      | .error _ => (settled .failed, db)
    else (settled .failed, db)
  | .deleteDistribution (.uuid distId) distIndex backupDist _ =>
    let settled := InFlight.deleteDistribution (.uuid distId) distIndex backupDist
    match (Syllabi.deleteDistribution distId syllabusId).run db with
    | .ok (_, db', _) => (settled (.succeeded ()), db')
    | .error _ => (settled .failed, db)
  | call => (call.fail, db)

end InFlight

/-- A syllabus that one client edits: the store of the client, its calls in the order in which they
were started, and the database, with the identifiers that it has drawn. -/
structure Editor where
  store : Store
  inFlight : List InFlight
  db : Db
  drawn : List Uuid

/-- What can happen next: a call of the store, the server coming to a call, a call failing without
an effect, or an answer arriving. -/
inductive StoreEvent
  | addDistribution (now : ℕ) (payload : CreateDistributionPayload)
  | updateDistributionQuestionCount (distId : DistId) (questionCount : ℕ)
  | deleteDistribution (distId : DistId)
  | write (k : ℕ) (id : Uuid)
  | fail (k : ℕ)
  | answer (k : ℕ)

namespace Editor

/-- The state after `fetchSummary`, when no call is in flight. -/
def fetched (summary : List StoredDistribution) (db : Db) : Editor where
  store := .fetched summary
  inFlight := []
  db := db
  drawn := db.distributions.rows.map (·.id)

/-- A call of the store, up to its request. -/
def start (m : Editor) (called : Store × Option InFlight) : Editor :=
  { m with
    store := called.1
    inFlight := m.inFlight ++ called.2.toList }

/-- The server comes to a call. -/
def written (known : CatalogId → CatalogId → Bool) (syllabusId : Uuid) (m : Editor) (k : ℕ)
    (id : Uuid) (call : InFlight) : Editor :=
  { m with
    inFlight := m.inFlight.set k (call.write known syllabusId id m.db).1
    db := (call.write known syllabusId id m.db).2
    drawn := m.drawn ++ [id] }

/-- One step. -/
def step (known : CatalogId → CatalogId → Bool) (syllabusId : Uuid) (m : Editor) :
    StoreEvent → Option Editor
  | .addDistribution now payload =>
    some (m.start (m.store.addDistribution now syllabusId payload))
  | .updateDistributionQuestionCount distId questionCount =>
    some (m.start (m.store.updateDistributionQuestionCount distId questionCount))
  | .deleteDistribution distId => some (m.start (m.store.deleteDistribution distId))
  | .write k id =>
    match m.inFlight[k]? with
    | some call =>
      if call.isWaiting && !m.drawn.contains id then
        some (m.written known syllabusId k id call)
      else none
    | none => none
  | .fail k =>
    match m.inFlight[k]? with
    | some call =>
      if call.isWaiting then some { m with inFlight := m.inFlight.set k call.fail } else none
    | none => none
  | .answer k =>
    match m.inFlight[k]? with
    | some call =>
      if call.isWaiting then none
      else some { m with store := m.store.settle call, inFlight := m.inFlight.eraseIdx k }
    | none => none

end Editor

namespace InFlight

/-- The number of questions that an update brings to a row, before the server has come to it. -/
def bringsTo (u : Uuid) : InFlight → Option ℕ
  | .updateDistributionQuestionCount (.uuid v) _ _ questionCount .waiting =>
    if v = u then some questionCount else none
  | _ => none

/-- An update of a row has failed, and its answer has not arrived. -/
def rejects (u : Uuid) : InFlight → Bool
  | .updateDistributionQuestionCount (.uuid v) _ _ _ .failed => v == u
  | _ => false

/-- A call adds a cell under a temporary identifier. -/
def addsAs (now : ℕ) : InFlight → Bool
  | .addDistribution tempId _ _ => tempId == now
  | _ => false

end InFlight

/-- The numbers of questions that the server has not written into a row yet, in the order in which
the updates were started. -/
def unwritten (u : Uuid) (calls : List InFlight) : List ℕ := calls.filterMap (·.bringsTo u)

/-- The number of questions that a row ends with when the server comes to the updates in the order
in which they were started. -/
def expected (u : Uuid) (calls : List InFlight) (questionCount : ℕ) : ℕ :=
  (unwritten u calls).getLast?.getD questionCount

/-- The server does not come to the last update of a row before an earlier one, the last update of a
row that has failed restores the number that the row ends with, and no call is answered whose
temporary cell is away, or would come back for good. -/
def followsServer (syllabusId : Uuid) (m : Editor) : StoreEvent → Prop
  | .write k _ => ∀ u dist prevQuestionCount questionCount,
      m.inFlight[k]? = some (.updateDistributionQuestionCount (.uuid u) dist prevQuestionCount
        questionCount .waiting) →
      noSuchCell u syllabusId m.db = true ∨ m.inFlight.any (·.rejects u) = true ∨
        unwritten u (m.inFlight.drop (k + 1)) ≠ [] ∨
          ∀ earlier ∈ (unwritten u (m.inFlight.take k)).getLast?, earlier = questionCount
  | .answer k =>
    match m.inFlight[k]? with
    | some (.addDistribution tempId _ (.succeeded _)) =>
      m.store.distributions.any (m.store.hasId (.temp tempId)) = true
    | some (.updateDistributionQuestionCount (.uuid u) _ prevQuestionCount _ .failed) =>
      (m.inFlight.eraseIdx k).any (·.rejects u) = true ∨
        ∀ row ∈ m.db.cellsOf syllabusId, row.id = u →
          prevQuestionCount = expected u m.inFlight row.questionCount
    | some (.deleteDistribution (.temp tempId) _ _ .failed) =>
      m.store.distributions.countP (m.store.hasId (.temp tempId)) <
        m.inFlight.countP (·.addsAs tempId)
    | _ => True
  | _ => True

/-- In the states without a call in flight that are reached under a condition, the store shows
exactly the rows of the server. -/
def StoreConverges (known : CatalogId → CatalogId → Bool)
    (cond : Uuid → Editor → StoreEvent → Prop) : Prop :=
  ∀ syllabusId summary db m, summary.Perm ((db.cellsOf syllabusId).map (·.json)) →
    Reaches (Editor.step known syllabusId) (cond syllabusId) (.fetched summary db) m →
      m.inFlight = [] → ∀ d, d ∈ m.store.shown ↔ d ∈ (m.db.cellsOf syllabusId).map (·.json)

end Odiseo.Syllabi
