import Odiseo.Database.Sequence
import Odiseo.Syllabi.Distributions
import Odiseo.Syllabi.SafeWeeks

/-!
# Two writers of one cell

`SyllabusRepositoryImpl.createDistribution`, with the errors of its statements. It catches the
violation of a taken cell and looks for the row that is there, in order to overwrite it; the
violation has aborted the transaction by then, and the look fails.
-/

namespace Odiseo.Syllabi

open Database

/-- The cell of a matrix: what the unique index of the distributions compares. -/
structure Cell where
  syllabusId : Uuid
  templateId : Option Uuid
  weekNumber : ℕ
  topicId : CatalogId
  subtopicId : CatalogId

/-- A call that writes a cell, with the identifier that the database draws for its row. -/
structure CellWrite where
  id : Uuid
  questionCount : ℕ
  questionCount_pos : 1 ≤ questionCount

/-- The row that a call inserts. -/
def Cell.row (cell : Cell) (call : CellWrite) : SyllabusDistribution where
  id := call.id
  syllabusId := cell.syllabusId
  templateId := cell.templateId
  weekNumber := cell.weekNumber
  topicId := cell.topicId
  subtopicId := cell.subtopicId
  questionCount := call.questionCount

/-- A row lies in the cell. -/
def Cell.holds (cell : Cell) (d : SyllabusDistribution) : Bool :=
  cell.syllabusId == d.syllabusId && cell.templateId == d.templateId &&
    cell.weekNumber == d.weekNumber && cell.topicId == d.topicId && cell.subtopicId == d.subtopicId

/-- What the database answers to the `INSERT` of a distribution, when it refuses it. -/
def distributionRefusal (known : CatalogId → CatalogId → Bool) (dist : SyllabusDistribution)
    (db : Db) : Option QueryError :=
  if (db.distributions.find dist.id).isSome || db.distributions.rows.any (sameCell dist) then
    some .uniqueViolation
  else if (db.syllabuses.find dist.syllabusId).isNone || danglingKey known dist db then
    some .foreignKeyViolation
  else none

/-- The database after an existing distribution has been saved. -/
def saveDistributionIn (dist : SyllabusDistribution) (db : Db) : Db :=
  { db with distributions := db.distributions.modify dist.id fun d => { dist with id := d.id } }

/-- `createDistribution`. -/
def createDistributionIn (known : CatalogId → CatalogId → Bool) (newDist : SyllabusDistribution) :
    Callback SyllabusDistribution := do
  match ← Session.attempt (fun _ => [.distribution newDist.id, .cell newDist.syllabusId
      newDist.templateId newDist.weekNumber newDist.topicId newDist.subtopicId])
    (distributionRefusal known newDist) (insertDistributionIn newDist) with
  | .ok () => pure newDist
  | .error .uniqueViolation => do
    let existing ← Session.select fun v => v.distributions.rows.find? (sameCell newDist)
    match existing with
    | some existing => do
      let overwritten := { existing with questionCount := newDist.questionCount }
      Session.exec (fun _ => [.distribution existing.id]) (fun _ => none)
        (saveDistributionIn overwritten)
      pure overwritten
    | none => Session.throw .uniqueViolation
  | .error e => Session.throw e

/-- The calls that write a cell, each in the transaction of `runInTenant`. -/
def cellMachine (known : CatalogId → CatalogId → Bool) (cell : Cell) :
    Machine CellWrite Db Row Empty (RolledBack QueryError SyllabusDistribution)
      SyllabusDistribution where
  program call :=
    (createDistributionIn known (cell.row call)).transaction .inFailedTransaction false
  dispatched _ := []

/-- Every call has succeeded, and the cell has one row, with the number of the last of them. -/
def LastWins (cell : Cell) (calls : List CellWrite)
    (s : Snapshot CellWrite Db Empty SyllabusDistribution) : Prop :=
  (s.commits.map (·.call)).Perm calls ∧
    ∃ row last, s.db.distributions.filter cell.holds = [row] ∧ s.commits.getLast? = some last ∧
      row.questionCount = last.call.questionCount

/-- In whatever order the statements of concurrent calls run, the last one wins once all have
ended. -/
def LastWriteWins (known : CatalogId → CatalogId → Bool) (cell : Cell) (calls : List CellWrite)
    (db : Db) : Prop :=
  ∀ events s, (cellMachine known cell).runEvents (System.idle db) events = some s →
    (starts events).Perm calls → Undisturbed events → s.active = [] →
      LastWins cell calls s.toSnapshot

/-- A call that runs alone inserts its row, or an exception leaves it. -/
theorem run_cellMachine (known : CatalogId → CatalogId → Bool) (cell : Cell) (call : CellWrite)
    (db : Db) : ((cellMachine known cell).program call).run db =
      match distributionRefusal known (cell.row call) db with
      | none => .ok (cell.row call, insertDistributionIn (cell.row call) db, [])
      | some .uniqueViolation => .error (.thrown .inFailedTransaction)
      | some e => .error (.thrown e) := by
  simp only [cellMachine]
  rw [Session.run_transaction _ _ db (fun db => db)]
  have hview : (⟨fun _ => db, fun db => db, false⟩ : Live Db).view = db := rfl
  simp only [createDistributionIn, Session.bind_eq, Session.run_attempt_bind, hview]
  cases distributionRefusal known (cell.row call) db with
  | none => rfl
  | some e =>
    cases e with
    | uniqueViolation => rfl
    | foreignKeyViolation => rfl
    | inFailedTransaction => rfl

/-- The planning calls write a cell in the same way, with one error for every refusal. -/
theorem run_createDistribution (known : CatalogId → CatalogId → Bool) (dist : SyllabusDistribution)
    (db : Db) : (createDistribution known dist).run db =
      match distributionRefusal known dist db with
      | none => .ok ((), insertDistributionIn dist db, [])
      | some _ => .error .queryFailed := by
  unfold createDistribution distributionRefusal distributionTaken
  rw [Program.run_attempt]
  cases (db.distributions.find dist.id).isSome || db.distributions.rows.any (sameCell dist) with
  | true => rfl
  | false =>
    rw [Bool.false_or]
    cases (db.syllabuses.find dist.syllabusId).isNone || danglingKey known dist db with
    | true => rfl
    | false => rfl

/-- A call that is refused commits nothing. -/
theorem alone_of_refused {known : CatalogId → CatalogId → Bool} {cell : Cell} {call : CellWrite}
    {s : System CellWrite Db Row Empty (RolledBack QueryError SyllabusDistribution)
      SyllabusDistribution}
    (hrefused : distributionRefusal known (cell.row call) s.db ≠ none) :
    ((cellMachine known cell).alone s call).toSnapshot = s.toSnapshot := by
  unfold Machine.alone
  rw [run_cellMachine]
  cases hrefusal : distributionRefusal known (cell.row call) s.db with
  | none => exact absurd hrefusal hrefused
  | some e =>
    cases e with
    | uniqueViolation => rfl
    | foreignKeyViolation => rfl
    | inFailedTransaction => rfl

/-- A call that is accepted inserts its row and commits. -/
theorem alone_of_accepted {known : CatalogId → CatalogId → Bool} {cell : Cell} {call : CellWrite}
    {s : System CellWrite Db Row Empty (RolledBack QueryError SyllabusDistribution)
      SyllabusDistribution}
    (haccepted : distributionRefusal known (cell.row call) s.db = none) :
    ((cellMachine known cell).alone s call).toSnapshot =
      ⟨insertDistributionIn (cell.row call) s.db,
        s.commits ++ [⟨call, s.commits.length, cell.row call, []⟩]⟩ := by
  unfold Machine.alone
  rw [run_cellMachine, haccepted]
  rfl

/-- A cell with a row refuses every call. -/
theorem refused_of_holds (known : CatalogId → CatalogId → Bool) {cell : Cell} (call : CellWrite)
    {db : Db} (htaken : db.distributions.rows.any cell.holds = true) :
    distributionRefusal known (cell.row call) db ≠ none := by
  have hsame : db.distributions.rows.any (sameCell (cell.row call)) = true := htaken
  unfold distributionRefusal
  rw [hsame, Bool.or_true, if_pos rfl]
  exact Option.some_ne_none _

/-- An accepted call leaves its row in the cell. -/
theorem holds_of_accepted {known : CatalogId → CatalogId → Bool} {cell : Cell} {call : CellWrite}
    {db : Db} (haccepted : distributionRefusal known (cell.row call) db = none) :
    (insertDistributionIn (cell.row call) db).distributions.filter cell.holds =
      [cell.row call] := by
  unfold distributionRefusal at haccepted
  split at haccepted
  · cases haccepted
  · rename_i hfree
    obtain ⟨hid, hcell⟩ : (db.distributions.find (cell.row call).id).isSome = false ∧
        db.distributions.rows.any (sameCell (cell.row call)) = false := by
      simpa using hfree
    have hnone : db.distributions.find (cell.row call).id = none := by
      simpa using hid
    have hempty : db.distributions.filter cell.holds = [] := by
      refine List.filter_eq_nil_iff.mpr fun d hd hholds => ?_
      have hany : db.distributions.rows.any (sameCell (cell.row call)) = true :=
        List.any_eq_true.mpr ⟨d, hd, hholds⟩
      rw [hcell] at hany
      cases hany
    have hholds : cell.holds (cell.row call) = true := by
      simp [Cell.holds, Cell.row]
    have hinsert := Table.filter_insert db.distributions (cell.row call) cell.holds hnone
    simp only [insertDistributionIn]
    rw [hinsert, hempty, hholds]
    rfl

/-- A cell with a row takes no more calls. -/
theorem commits_serially_of_holds {known : CatalogId → CatalogId → Bool} {cell : Cell}
    (calls : List CellWrite)
    {s : System CellWrite Db Row Empty (RolledBack QueryError SyllabusDistribution)
      SyllabusDistribution}
    (htaken : s.db.distributions.rows.any cell.holds = true) :
    ((cellMachine known cell).serially s calls).commits = s.commits := by
  induction calls generalizing s with
  | nil => rfl
  | cons call calls ih =>
    have hrefused := refused_of_holds known call htaken
    have hsame := alone_of_refused hrefused
    rw [Machine.serially_cons, ih (by rw [hsame]; exact htaken), hsame]

/-- Of calls that run one after the other, at most one commits. -/
theorem length_commits_serially (known : CatalogId → CatalogId → Bool) (cell : Cell)
    (calls : List CellWrite)
    (s : System CellWrite Db Row Empty (RolledBack QueryError SyllabusDistribution)
      SyllabusDistribution) :
    ((cellMachine known cell).serially s calls).commits.length ≤ s.commits.length + 1 := by
  induction calls generalizing s with
  | nil => exact Nat.le_succ _
  | cons call calls ih =>
    rw [Machine.serially_cons]
    cases hrefusal : distributionRefusal known (cell.row call) s.db with
    | some e =>
      have hrefused : distributionRefusal known (cell.row call) s.db ≠ none := by
        rw [hrefusal]
        exact Option.some_ne_none e
      have hsame := alone_of_refused hrefused
      have hrest := ih ((cellMachine known cell).alone s call)
      rwa [hsame] at hrest
    | none =>
      have hcommit := alone_of_accepted (s := s) hrefusal
      have hholds := holds_of_accepted hrefusal
      have htaken : ((cellMachine known cell).alone s call).db.distributions.rows.any
          cell.holds = true := by
        rw [hcommit]
        have hmem : cell.row call ∈ (insertDistributionIn (cell.row call) s.db).distributions.filter
            cell.holds := by
          rw [hholds]
          exact List.mem_singleton_self _
        obtain ⟨hrow, hin⟩ := List.mem_filter.mp hmem
        exact List.any_eq_true.mpr ⟨_, hrow, hin⟩
      rw [commits_serially_of_holds calls htaken, hcommit]
      simp

/-- **Concurrent calls on a cell converge exactly when there is one of them and the database
accepts it**: the cell has no row, and the syllabus, the template and the topic are there. A second
call on the cell fails in every interleaving that runs them one after the other. -/
theorem lastWriteWins_iff (known : CatalogId → CatalogId → Bool) (cell : Cell) (first : CellWrite)
    (others : List CellWrite) (db : Db) :
    LastWriteWins known cell (first :: others) db ↔
      others = [] ∧ distributionRefusal known (cell.row first) db = none := by
  constructor
  · intro hwins
    obtain ⟨events, hrun, hstarts, hquiet⟩ :=
      Machine.runEvents_serially (m := cellMachine known cell) (first :: others)
        (s := System.idle db) rfl
    have hend : ((cellMachine known cell).serially (System.idle db) (first :: others)).active =
        [] := Machine.serially_active _ _ rfl
    obtain ⟨hperm, -⟩ := hwins events _ hrun (by rw [hstarts]) hquiet hend
    have hcount := hperm.length_eq
    have hmost := length_commits_serially known cell (first :: others) (System.idle db)
    have hnil : others = [] := by
      simp only [List.length_map, List.length_cons] at hcount
      have hzero : (System.idle db : System CellWrite Db Row Empty
        (RolledBack QueryError SyllabusDistribution) SyllabusDistribution).commits.length = 0 := rfl
      exact List.length_eq_zero_iff.mp (by omega)
    refine ⟨hnil, ?_⟩
    by_contra hrefused
    rw [hnil, Machine.serially_cons] at hcount
    have hsame := alone_of_refused (s := System.idle db) hrefused
    have hlast : (cellMachine known cell).serially
        ((cellMachine known cell).alone (System.idle db) first) [] =
          (cellMachine known cell).alone (System.idle db) first := rfl
    rw [hlast, hsame] at hcount
    cases hcount
  · rintro ⟨rfl, haccepted⟩ events s hrun hstarts hquiet hend
    have hfinal := Machine.eq_alone_of_runEvents (m := cellMachine known cell) (s := System.idle db)
      rfl (List.perm_singleton.mp hstarts) hquiet hrun hend
    have hcommit := alone_of_accepted (s := System.idle db) haccepted
    rw [hfinal]
    unfold LastWins
    rw [hcommit]
    exact ⟨List.Perm.refl _, cell.row first, _, holds_of_accepted haccepted, rfl, rfl⟩

/-- An empty cell of the syllabus 1. -/
def emptyCell : Cell where
  syllabusId := 1
  templateId := none
  weekNumber := 1
  topicId := 10
  subtopicId := 20

/-- A tenant with the syllabus 1. -/
def oneSyllabus : Db :=
  { Db.provisioned [] with
    syllabuses := Table.empty.insert
      { id := 1, cycleId := 1, courseId := 7, name := "Nuevo Sílabo", templateId := none,
        isActive := true } }

/-- The questions of the first call below. -/
theorem firstWriter_pos : 1 ≤ 5 := by decide

/-- The questions of the second one. -/
theorem secondWriter_pos : 1 ≤ 8 := by decide

/-- A coordinator enters five questions. -/
def firstWriter : CellWrite where
  id := 101
  questionCount := 5
  questionCount_pos := firstWriter_pos

/-- Another one enters eight. -/
def secondWriter : CellWrite where
  id := 102
  questionCount := 8
  questionCount_pos := secondWriter_pos

/-- Both are at it at once. The second `INSERT` waits for the first one to be committed. -/
def bothWrite : List (Event CellWrite) :=
  [.start firstWriter, .start secondWriter, .exec 0, .exec 0, .exec 1, .exec 1]

/-- The second of two coordinators is answered with an error, and the first one's number stays. -/
theorem not_lastWriteWins : ¬∀ (known : CatalogId → CatalogId → Bool) (cell : Cell)
    (first : CellWrite) (others : List CellWrite) (db : Db),
    LastWriteWins known cell (first :: others) db := by
  intro hall
  have hwins := hall (fun _ _ => true) emptyCell firstWriter [secondWriter] oneSyllabus bothWrite
  have hcount : ((cellMachine (fun _ _ => true) emptyCell).runEvents (System.idle oneSyllabus)
      bothWrite).map (fun s => (s.commits.length, s.active.length)) = some (1, 0) := by
    decide +kernel
  obtain ⟨s, hrun, hends⟩ := Option.map_eq_some_iff.mp hcount
  obtain ⟨hone, hactive⟩ := Prod.mk.inj hends
  have hquiet : Undisturbed bothWrite := by
    intro id hid
    simp [bothWrite] at hid
  obtain ⟨hperm, -⟩ := hwins s hrun (List.Perm.refl _) hquiet (List.length_eq_zero_iff.mp hactive)
  have htwo := hperm.length_eq
  rw [List.length_map, hone] at htwo
  cases htwo

end Odiseo.Syllabi
