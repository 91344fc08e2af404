import Odiseo.Database.Program
import Odiseo.Database.Table
import Mathlib.Data.Int.Notation

/-!
# Cycles and syllabi

The rows of the academic calendar and of the syllabi that hang on it. A cycle and a syllabus are
archived by their flag and never deleted here; a week can be deleted softly.
-/

namespace Odiseo.Syllabi

open Database

/-- A row identifier. -/
abbrev Uuid := ℕ

/-- An identifier of the shared catalog. -/
abbrev CatalogId := ℕ

/-- A date, as the number of its day. -/
abbrev Day := ℤ

/-- `Cycle`. -/
structure Cycle where
  id : Uuid
  name : String
  year : ℕ
  startDate : Day
  endDate : Day
  daysPerWeek : ℕ
  totalWeeks : ℕ
  isActive : Bool
  deriving DecidableEq, Repr

/-- `CycleWeek`. -/
structure CycleWeek where
  id : Uuid
  cycleId : Uuid
  weekNumber : ℕ
  startDate : Day
  endDate : Day
  isActive : Bool
  /-- `deleted_at` is set. -/
  deleted : Bool
  deriving DecidableEq, Repr

/-- `CycleMaterialTemplate`, as the cloning of a syllabus reads it. -/
structure CycleMaterialTemplate where
  id : Uuid
  cycleId : Uuid
  name : String
  deriving DecidableEq, Repr

/-- `Syllabus`. -/
structure Syllabus where
  id : Uuid
  cycleId : Uuid
  courseId : CatalogId
  name : String
  templateId : Option Uuid
  isActive : Bool
  deriving DecidableEq, Repr

/-- `SyllabusDistribution`. -/
structure SyllabusDistribution where
  id : Uuid
  syllabusId : Uuid
  templateId : Option Uuid
  weekNumber : ℕ
  topicId : CatalogId
  subtopicId : CatalogId
  questionCount : ℕ
  deriving DecidableEq, Repr

instance : Keyed Uuid Cycle := ⟨Cycle.id⟩

instance : Keyed Uuid CycleWeek := ⟨CycleWeek.id⟩

instance : Keyed Uuid CycleMaterialTemplate := ⟨CycleMaterialTemplate.id⟩

instance : Keyed Uuid Syllabus := ⟨Syllabus.id⟩

instance : Keyed Uuid SyllabusDistribution := ⟨SyllabusDistribution.id⟩

/-- The database of a tenant, with the courses of the shared catalog. -/
structure Db where
  courses : List CatalogId
  cycles : Table Uuid Cycle
  weeks : Table Uuid CycleWeek
  templates : Table Uuid CycleMaterialTemplate
  syllabuses : Table Uuid Syllabus
  distributions : Table Uuid SyllabusDistribution

/-- The database of a new tenant. -/
def Db.provisioned (courses : List CatalogId) : Db where
  courses := courses
  cycles := Table.empty
  weeks := Table.empty
  templates := Table.empty
  syllabuses := Table.empty
  distributions := Table.empty

/-- What an operation throws. -/
inductive AcademicError
  | notFound (message : String)
  | conflict (message : String)
  | badRequest (message : String)
  /-- An error of the database that no use case translates. -/
  | queryFailed
  deriving DecidableEq, Repr

/-- The rows and index entries that a statement locks. -/
inductive Row
  | cycle (id : Uuid)
  | week (id : Uuid)
  | liveWeek (cycleId : Uuid) (weekNumber : ℕ)
  | syllabus (id : Uuid)
  | activeSyllabus (cycleId : Uuid) (courseId : CatalogId)
  | distribution (id : Uuid)
  | cell (syllabusId : Uuid) (templateId : Option Uuid) (weekNumber : ℕ) (topicId : CatalogId)
      (subtopicId : CatalogId)
  deriving DecidableEq, Repr

/-- A transaction of these modules. It adds no jobs. -/
abbrev Tx (α : Type) := Program Db Row Empty AcademicError α

/-- A statement that the database may refuse, each time with an error of its own. -/
def insertUnless (locks : Db → List Row) (refusal : Db → Option AcademicError) (change : Db → Db) :
    Tx Unit :=
  (Program.write locks (fun v => if (refusal v).isSome then fun db => db else change) refusal).bind
    fun r =>
      match r with
      | some e => .fail e
      | none => .done ()

/-- Run a transaction for each element of a list. -/
def forEach {α : Type} (xs : List α) (f : α → Tx Unit) : Tx Unit :=
  match xs with
  | [] => pure ()
  | x :: xs => do
    f x
    forEach xs f

/-- A statement that runs alone is refused with its error, or writes its change. -/
theorem run_insertUnless (locks : Db → List Row) (refusal : Db → Option AcademicError)
    (change : Db → Db) (db : Db) : (insertUnless locks refusal change).run db =
      match refusal db with
      | some e => .error e
      | none => .ok ((), change db, []) := by
  simp only [insertUnless, Program.run_write_bind]
  cases refusal db <;> rfl

/-- It writes its change only where it is not refused. -/
theorem writes_insertUnless {Φ : Db → List Row → (Db → Db) → Prop} {locks : Db → List Row}
    {refusal : Db → Option AcademicError} {change : Db → Db}
    (hid : ∀ v, Φ v (locks v) fun db => db)
    (hchange : ∀ v, refusal v = none → Φ v (locks v) change) :
    (insertUnless locks refusal change).Writes Φ := by
  intro v
  cases hrefusal : refusal v with
  | some e =>
    refine ⟨?_, ?_⟩
    · simpa [hrefusal] using hid v
    · simp only [hrefusal]
      trivial
  | none =>
    refine ⟨?_, ?_⟩
    · simpa [hrefusal] using hchange v hrefusal
    · simp only [hrefusal]
      trivial

/-- The writes of a loop are those of its passes. -/
theorem writes_forEach {α : Type} {Φ : Db → List Row → (Db → Db) → Prop} {f : α → Tx Unit}
    (xs : List α) (hf : ∀ x ∈ xs, (f x).Writes Φ) : (forEach xs f).Writes Φ := by
  induction xs with
  | nil => trivial
  | cons x xs ih =>
    exact (hf x List.mem_cons_self).bind fun _ => ih fun y hy => hf y (List.mem_cons_of_mem x hy)

end Odiseo.Syllabi
