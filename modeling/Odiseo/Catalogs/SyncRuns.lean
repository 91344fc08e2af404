import Odiseo.Catalogs.SyncSpec
import Odiseo.Catalogs.UseCase

/-!
# Runs of the catalog synchronisation

`CatalogCronService.runSync` on any number of replicas: up to three attempts to fetch and
write the catalogs, with a pause between them, and the record of the outcome in
`catalog_sync_state`. A record may fail without stopping the run, a transaction may be
rolled back or be committed without an answer, and a replica may stop anywhere. Each
statement on the record is one step.
-/

namespace Odiseo.Catalogs

open Database Database.Transition Database.Related

/-- The statement of `recordSyncAttempt`. -/
def recordSyncAttempt (now : ℕ) : Option SyncState → SyncState
  | none => ⟨some now, none, none, none⟩
  | some state => { state with lastAttemptAt := some now }

/-- The statement of `recordSyncSuccess`. -/
def recordSyncSuccess (now : ℕ) : Option SyncState → SyncState
  | none => ⟨some now, some now, some "SUCCESS", none⟩
  | some state =>
    { state with lastSuccessAt := some now, lastOutcome := some "SUCCESS", lastError := none }

/-- The statement of `recordSyncFailure`. -/
def recordSyncFailure (now : ℕ) (error : String) : Option SyncState → SyncState
  | none => ⟨some now, none, some "FAILED", some (slice 4000 error)⟩
  | some state =>
    { state with lastOutcome := some "FAILED", lastError := some (slice 4000 error) }

/-- `MAX_ATTEMPTS`. -/
def maxAttempts : ℕ := 3

/-- `BACKOFF_BASE_MS`. -/
def backoffBase : ℕ := 1000

/-- What the connection does to a transaction that could commit. -/
inductive Commitment
  | answered
  /-- It is rolled back. -/
  | lost (message : String)
  /-- It commits, and the answer is lost. -/
  | unanswered (message : String)
  deriving DecidableEq, Repr

/-- How far a run has come. -/
inductive SyncStage
  /-- `fetchAndUpsert` of an attempt. -/
  | attempting (attempt : ℕ)
  /-- The pause after an attempt. -/
  | waiting (attempt deadline : ℕ)
  /-- An attempt has succeeded; `recordSyncSuccess` comes next. -/
  | succeeded
  /-- The last attempt has failed; `recordSyncFailure` comes next. -/
  | failed (error : SyncError)
  deriving DecidableEq, Repr

/-- A transaction that committed. -/
structure SyncCommit where
  run : ℕ
  /-- Which attempt of the run fetched the payload. -/
  attempt : ℕ
  payload : Json
  time : ℕ

/-- The shared catalog, the record of the synchronisation and the runs of all replicas, with
what each run has met: the results of its attempts, newest first (`none`: it succeeded). -/
structure SyncWorld where
  now : ℕ
  catalog : SharedCatalog
  state : Option SyncState
  nextRun : ℕ
  runs : ℕ → Option SyncStage
  results : ℕ → List (Option SyncError)
  /-- The commits, newest first. -/
  commits : List SyncCommit

/-- Nothing has run. -/
def SyncWorld.start (catalog : SharedCatalog) : SyncWorld where
  now := 0
  catalog := catalog
  state := none
  nextRun := 0
  runs := fun _ => none
  results := fun _ => []
  commits := []

/-- One step of a run, or of the time. -/
inductive SyncAction
  /-- Milliseconds pass. -/
  | elapse (ms : ℕ)
  /-- A run starts; `recordSyncAttempt` is done or fails. -/
  | start (recorded : Bool)
  /-- `fetchAndUpsert` with what the Core API answers. -/
  | attempt (run : ℕ) (response : Except String Json) (commitment : Commitment)
  /-- The pause is over. -/
  | resume (run : ℕ)
  /-- `recordSyncSuccess` is done or fails, and the run ends. -/
  | recordSuccess (run : ℕ) (recorded : Bool)
  /-- `recordSyncFailure` is done or fails, and the run ends. -/
  | recordFailure (run : ℕ) (recorded : Bool)
  /-- The replica of a run stops. -/
  | crash (run : ℕ)

namespace SyncWorld

/-- A run goes on, or ends. -/
def setStage (w : SyncWorld) (run : ℕ) (stage : Option SyncStage) : SyncWorld :=
  { w with runs := Function.update w.runs run stage }

/-- An attempt has ended. -/
def addResult (w : SyncWorld) (run : ℕ) (result : Option SyncError) : SyncWorld :=
  { w with results := Function.update w.results run (result :: w.results run) }

/-- The transaction of a run has committed. -/
def commit (w : SyncWorld) (run attempt : ℕ) (payload : Json) (catalog : SharedCatalog) :
    SyncWorld :=
  { w with catalog := catalog, commits := ⟨run, attempt, payload, w.now⟩ :: w.commits }

/-- An attempt succeeds: the loop is left. -/
def attemptSucceeds (w : SyncWorld) (run : ℕ) : SyncWorld :=
  (w.addResult run none).setStage run (some .succeeded)

/-- An attempt fails: the run pauses, or gives up after the last attempt. -/
def attemptFails (w : SyncWorld) (run attempt : ℕ) (error : SyncError) : SyncWorld :=
  (w.addResult run (some error)).setStage run <| some <|
    if attempt = maxAttempts then .failed error
    else .waiting attempt (w.now + attempt * backoffBase)

/-- `fetchAndUpsert`, in the world and for the loop around it. -/
def fetchAndUpsert (bigint : String → Option ℤ) (w : SyncWorld) (run attempt : ℕ)
    (commitment : Commitment) : Except String Json → SyncWorld
  | .error message => w.attemptFails run attempt (.fetch message)
  | .ok payload =>
    match upsertCatalogs bigint w.catalog payload, commitment with
    | .error e, _ => w.attemptFails run attempt e
    | .ok catalog, .answered => (w.commit run attempt payload catalog).attemptSucceeds run
    | .ok _, .lost message => w.attemptFails run attempt (.connection message)
    | .ok catalog, .unanswered message =>
      (w.commit run attempt payload catalog).attemptFails run attempt (.connection message)

/-- A run starts with its first attempt. -/
def begin (w : SyncWorld) : SyncWorld :=
  { w with
    runs := Function.update w.runs w.nextRun (some (.attempting 1))
    nextRun := w.nextRun + 1 }

/-- A statement on the record; `safely` passes over one that fails. -/
def safely (w : SyncWorld) (recorded : Bool) (state : SyncState) : SyncWorld :=
  if recorded then { w with state := some state } else w

/-- What an action does, when it can happen; `message` is the text of an error. -/
def step (bigint : String → Option ℤ) (message : SyncError → String) (w : SyncWorld) :
    SyncAction → Option SyncWorld
  | .elapse ms => some { w with now := w.now + ms }
  | .start recorded => some (w.begin.safely recorded (recordSyncAttempt w.now w.state))
  | .attempt run response commitment =>
    match w.runs run with
    | some (.attempting attempt) => some (w.fetchAndUpsert bigint run attempt commitment response)
    | _ => none
  | .resume run =>
    match w.runs run with
    | some (.waiting attempt deadline) =>
      if deadline ≤ w.now then some (w.setStage run (some (.attempting (attempt + 1)))) else none
    | _ => none
  | .recordSuccess run recorded =>
    match w.runs run with
    | some .succeeded =>
      some ((w.setStage run none).safely recorded (recordSyncSuccess w.now w.state))
    | _ => none
  | .recordFailure run recorded =>
    match w.runs run with
    | some (.failed error) =>
      some ((w.setStage run none).safely recorded
        (recordSyncFailure w.now (message error) w.state))
    | _ => none
  | .crash run => some (w.setStage run none)

end SyncWorld

/-- A run whose first attempt is not answered and whose second one writes a course. -/
def recoveringRun : List SyncAction :=
  [.start true, .attempt 0 (.error "timeout") .answered, .elapse 1000, .resume 0,
    .attempt 0 (.ok (.obj [("courses", .arr [.obj [("id", .num "1"), ("name", .str "Algebra")]])]))
      .answered,
    .recordSuccess 0 true]

/-- The run can happen, so its last world is one that a run reaches. -/
theorem reaches_recoveringRun (message : SyncError → String) :
    Reaches (SyncWorld.step (fun text => if text = "1" then some 1 else none) message)
      (fun _ _ => True) (SyncWorld.start .empty)
      (after (SyncWorld.step (fun text => if text = "1" then some 1 else none) message)
        (SyncWorld.start .empty) recoveringRun) :=
  reaches_after rfl fun _ _ _ => trivial

/-! ### The catalog over a run -/

/-- Rows merged after rows. -/
theorem MergedTable.trans {ρ : Type} [Keyed ℤ ρ] {rows more : List ρ} {t t' t'' : Table ℤ ρ}
    (h : MergedTable rows t t') (h' : MergedTable more t' t'') :
    MergedTable (more ++ rows) t t'' := by
  intro id
  rw [h', h, List.find?_append, Option.or_assoc]

/-- The rows that a commit has written. -/
def Wrote (bigint : String → Option ℤ) (c : SyncCommit) (rows : CatalogRows) : Prop :=
  ∃ p, Describes c.payload p ∧ Stores bigint p rows

/-- The catalog is the one at the start with the rows of the commits merged into it, those of the
newest first. -/
def Replayed (bigint : String → Option ℤ) (start : SharedCatalog) (commits : List SyncCommit)
    (catalog : SharedCatalog) : Prop :=
  ∃ rows, List.Forall₂ (Wrote bigint) commits rows ∧
    Merged ⟨rows.flatMap (·.courses), rows.flatMap (·.topics), rows.flatMap (·.subtopics)⟩
      start catalog

/-- A commit is replayed last. -/
theorem Replayed.commit {bigint : String → Option ℤ} {start catalog catalog' : SharedCatalog}
    {commits : List SyncCommit} (h : Replayed bigint start commits catalog)
    (run attempt time : ℕ) {payload : Json}
    (hup : upsertCatalogs bigint catalog payload = .ok catalog') :
    Replayed bigint start (⟨run, attempt, payload, time⟩ :: commits) catalog' := by
  obtain ⟨rows, hwrote, hmerged⟩ := h
  obtain ⟨p, new, hp, hnew, hnext⟩ := of_upsertCatalogs hup
  refine ⟨new :: rows, .cons ⟨p, hp, hnew⟩ hwrote, ?_, ?_, ?_⟩
  · exact hmerged.courses.trans hnext.courses
  · exact hmerged.topics.trans hnext.topics
  · exact hmerged.subtopics.trans hnext.subtopics

/-- The catalog of a world is replayed. -/
def SyncWorld.IsReplay (bigint : String → Option ℤ) (start : SharedCatalog) (w : SyncWorld) :
    Prop :=
  Replayed bigint start w.commits w.catalog

/-- An attempt keeps the catalog a replay. -/
theorem SyncWorld.IsReplay.fetchAndUpsert {bigint : String → Option ℤ} {start : SharedCatalog}
    {w : SyncWorld} (h : w.IsReplay bigint start) (run attempt : ℕ) (commitment : Commitment)
    (response : Except String Json) :
    (w.fetchAndUpsert bigint run attempt commitment response).IsReplay bigint start := by
  cases response with
  | error message => exact h
  | ok payload =>
    unfold SyncWorld.fetchAndUpsert
    dsimp only
    split
    · exact h
    · rename_i hup
      exact h.commit run attempt w.now hup
    · exact h
    · rename_i hup
      exact h.commit run attempt w.now hup

/-- The record is no part of the catalog. -/
theorem SyncWorld.IsReplay.safely {bigint : String → Option ℤ} {start : SharedCatalog}
    {w : SyncWorld} (h : w.IsReplay bigint start) (recorded : Bool) (state : SyncState) :
    (w.safely recorded state).IsReplay bigint start := by
  unfold SyncWorld.safely
  split
  · exact h
  · exact h

/-- Every step keeps the catalog a replay. -/
theorem SyncWorld.IsReplay.step {bigint : String → Option ℤ} {message : SyncError → String}
    {start : SharedCatalog} {w w' : SyncWorld} {a : SyncAction} (h : w.IsReplay bigint start)
    (hs : w.step bigint message a = some w') : w'.IsReplay bigint start := by
  cases a with
  | elapse ms =>
    cases hs
    exact h
  | start recorded =>
    cases hs
    exact SyncWorld.IsReplay.safely (w := w.begin) h recorded _
  | attempt run response commitment =>
    simp only [SyncWorld.step] at hs
    split at hs
    · cases hs
      exact h.fetchAndUpsert run _ commitment response
    · cases hs
  | resume run =>
    simp only [SyncWorld.step] at hs
    split at hs
    · split at hs
      · cases hs
        exact h
      · cases hs
    · cases hs
  | recordSuccess run recorded =>
    simp only [SyncWorld.step] at hs
    split at hs
    · cases hs
      exact SyncWorld.IsReplay.safely (w := w.setStage run none) h recorded _
    · cases hs
  | recordFailure run recorded =>
    simp only [SyncWorld.step] at hs
    split at hs
    · cases hs
      exact SyncWorld.IsReplay.safely (w := w.setStage run none) h recorded _
    · cases hs
  | crash run =>
    cases hs
    exact h

/-- **The catalog of a run:** however the runs of the replicas interleave and wherever they fail,
the catalog is always the one at the start with the payloads of the committed transactions
merged into it whole, in their order: of every id it holds the entry of the last payload
that has it, and an entry of the start that no payload has is kept. -/
theorem catalog_of_sync_runs (bigint : String → Option ℤ) (message : SyncError → String)
    (start : SharedCatalog) (w : SyncWorld)
    (h : Reaches (SyncWorld.step bigint message) (fun _ _ => True) (SyncWorld.start start) w) :
    ∃ rows, List.Forall₂ (Wrote bigint) w.commits rows ∧
      Merged ⟨rows.flatMap (·.courses), rows.flatMap (·.topics), rows.flatMap (·.subtopics)⟩
        start w.catalog := by
  have hstart : (SyncWorld.start start).IsReplay bigint start :=
    ⟨[], .nil, mergedTable_nil _, mergedTable_nil _, mergedTable_nil _⟩
  have hw : w.IsReplay bigint start := h.invariant hstart fun _ _ _ hw _ hs => hw.step hs
  exact hw

/-- The catalog after the run with a failed attempt. -/
theorem catalog_of_sync_runs_recovering :
    ∃ rows, List.Forall₂ (Wrote fun text => if text = "1" then some 1 else none)
      (after (SyncWorld.step (fun text => if text = "1" then some 1 else none) fun _ => "")
        (SyncWorld.start .empty) recoveringRun).commits rows ∧
      Merged ⟨rows.flatMap (·.courses), rows.flatMap (·.topics), rows.flatMap (·.subtopics)⟩ .empty
        (after (SyncWorld.step (fun text => if text = "1" then some 1 else none) fun _ => "")
          (SyncWorld.start .empty) recoveringRun).catalog :=
  catalog_of_sync_runs _ _ _ _ (reaches_recoveringRun fun _ => "")

/-! ### The record of the outcome -/

namespace SyncWorld

/-- A run that has not succeeded: some attempts, all of them failed. -/
def Failing (w : SyncWorld) (run attempts : ℕ) : Prop :=
  ∃ errors : List SyncError, w.results run = errors.map some ∧ errors.length = attempts

/-- A run whose last attempt, after some that failed, committed what it fetched, by a time. -/
def SucceededBy (w : SyncWorld) (run time : ℕ) : Prop :=
  ∃ errors : List SyncError, w.results run = none :: errors.map some ∧
    ∃ c ∈ w.commits, c.run = run ∧ c.attempt = errors.length + 1 ∧ c.time ≤ time

/-- A run that failed as often as it may, with the error of its last attempt. -/
def GaveUp (w : SyncWorld) (run : ℕ) (error : SyncError) : Prop :=
  ∃ errors : List SyncError, w.results run = some error :: errors.map some ∧
    errors.length + 1 = maxAttempts

/-- What the stage of a run says about its attempts. -/
def StageSound (w : SyncWorld) (run : ℕ) : Option SyncStage → Prop
  | none => True
  | some (.attempting attempt) =>
    ∃ done, attempt = done + 1 ∧ done < maxAttempts ∧ w.Failing run done
  | some (.waiting attempt _) => attempt < maxAttempts ∧ w.Failing run attempt
  | some .succeeded => w.SucceededBy run w.now
  | some (.failed error) => w.GaveUp run error

/-- What the record says about the runs. -/
structure RecordSound (w : SyncWorld) (message : SyncError → String) (state : SyncState) :
    Prop where
  outcome : state.lastOutcome = none ∨ state.lastOutcome = some "SUCCESS" ∨
    state.lastOutcome = some "FAILED"
  success : state.lastOutcome = some "SUCCESS" →
    state.lastError = none ∧ state.lastSuccessAt.isSome = true
  failure : state.lastOutcome = some "FAILED" →
    ∃ run error, w.GaveUp run error ∧ state.lastError = some (slice 4000 (message error))
  lastSuccess : ∀ t, state.lastSuccessAt = some t → t ≤ w.now ∧ ∃ run, w.SucceededBy run t

/-- A run makes three attempts at most, and none after one that succeeded. -/
def Bounded (w : SyncWorld) (run : ℕ) : Prop :=
  ∃ errors : List SyncError,
    w.results run = errors.map some ∧ errors.length ≤ maxAttempts ∨
      w.results run = none :: errors.map some ∧ errors.length < maxAttempts

/-- What holds of every world that a run reaches. -/
structure Sound (w : SyncWorld) (message : SyncError → String) : Prop where
  fresh : ∀ run, w.nextRun ≤ run → w.runs run = none ∧ w.results run = []
  bounded : ∀ run, w.Bounded run
  stages : ∀ run, w.StageSound run (w.runs run)
  record : ∀ state, w.state = some state → w.RecordSound message state

/-- A world in which nothing that a run has done is lost. -/
structure Keeps (w w' : SyncWorld) : Prop where
  now : w.now ≤ w'.now
  commits : ∀ c ∈ w.commits, c ∈ w'.commits
  succeeded : ∀ run errors, w.results run = none :: errors → w'.results run = w.results run
  gaveUp : ∀ run, (w.results run).length = maxAttempts → w'.results run = w.results run

/-- A success stays one. -/
theorem Keeps.succeededBy {w w' : SyncWorld} (h : Keeps w w') {run time : ℕ}
    (hs : w.SucceededBy run time) : w'.SucceededBy run time := by
  obtain ⟨errors, hresults, c, hc, hcommit⟩ := hs
  exact ⟨errors, by rw [h.succeeded run _ hresults, hresults], c, h.commits c hc, hcommit⟩

/-- A failure stays one. -/
theorem Keeps.gaveUp' {w w' : SyncWorld} (h : Keeps w w') {run : ℕ} {error : SyncError}
    (hg : w.GaveUp run error) : w'.GaveUp run error := by
  obtain ⟨errors, hresults, hlength⟩ := hg
  refine ⟨errors, ?_, hlength⟩
  rw [h.gaveUp run (by simpa [hresults] using hlength), hresults]

/-- The record stays sound. -/
theorem Keeps.recordSound {w w' : SyncWorld} (h : Keeps w w') {message : SyncError → String}
    {state : SyncState} (hr : w.RecordSound message state) : w'.RecordSound message state where
  outcome := hr.outcome
  success := hr.success
  failure hfailed := by
    obtain ⟨run, error, hg, herror⟩ := hr.failure hfailed
    exact ⟨run, error, h.gaveUp' hg, herror⟩
  lastSuccess t ht := by
    obtain ⟨hnow, run, hs⟩ := hr.lastSuccess t ht
    exact ⟨Nat.le_trans hnow h.now, run, h.succeededBy hs⟩

/-- A stage stays sound while nothing is added to the results of its run. -/
theorem Keeps.stageSound {w w' : SyncWorld} (h : Keeps w w') {run : ℕ}
    (hresults : w'.results run = w.results run) {stage : Option SyncStage}
    (hs : w.StageSound run stage) : w'.StageSound run stage := by
  rcases stage with _ | stage
  · trivial
  · cases stage with
    | attempting attempt =>
      obtain ⟨done, heq, hlt, errors, herrors, hlength⟩ := hs
      exact ⟨done, heq, hlt, errors, hresults.trans herrors, hlength⟩
    | waiting attempt deadline =>
      obtain ⟨hlt, errors, herrors, hlength⟩ := hs
      exact ⟨hlt, errors, hresults.trans herrors, hlength⟩
    | succeeded =>
      obtain ⟨errors, hresults, c, hc, hrun, hattempt, htime⟩ := h.succeededBy hs
      exact ⟨errors, hresults, c, hc, hrun, hattempt, Nat.le_trans htime h.now⟩
    | failed error => exact h.gaveUp' hs

/-- A step that touches one run keeps the world sound when it leaves this run and the record
sound. -/
theorem Sound.touch {w w' : SyncWorld} {message : SyncError → String} (h : w.Sound message)
    (hk : Keeps w w') (run : ℕ)
    (hother : ∀ other, other ≠ run →
      w'.runs other = w.runs other ∧ w'.results other = w.results other)
    (hfresh : ∀ other, w'.nextRun ≤ other → w'.runs other = none ∧ w'.results other = [])
    (hbounded : w'.Bounded run) (hstage : w'.StageSound run (w'.runs run))
    (hrecord : ∀ state, w'.state = some state → w'.RecordSound message state) :
    w'.Sound message where
  fresh := hfresh
  bounded other := by
    by_cases heq : other = run
    · rw [heq]
      exact hbounded
    · unfold Bounded
      rw [(hother other heq).2]
      exact h.bounded other
  stages other := by
    by_cases heq : other = run
    · rw [heq]
      exact hstage
    · obtain ⟨hruns, hresults⟩ := hother other heq
      rw [hruns]
      exact hk.stageSound hresults (h.stages other)
  record := hrecord

/-- Only the stage of a run changes. -/
theorem keeps_setStage (w : SyncWorld) (run : ℕ) (stage : Option SyncStage) :
    Keeps w (w.setStage run stage) :=
  ⟨Nat.le_refl _, fun _ h => h, fun _ _ _ => rfl, fun _ _ => rfl⟩

/-- A run goes on, or ends. -/
theorem Sound.setStage {w : SyncWorld} {message : SyncError → String} (h : w.Sound message)
    {run : ℕ} {stage : Option SyncStage} (hrun : run < w.nextRun ∨ stage = none)
    (hstage : w.StageSound run stage) : (w.setStage run stage).Sound message := by
  have hk := keeps_setStage w run stage
  refine h.touch hk run (fun other hne => ⟨?_, rfl⟩) ?_ (h.bounded run) ?_
    fun state hs => hk.recordSound (h.record state hs)
  · exact Function.update_of_ne hne _ _
  · intro other hle
    refine ⟨?_, (h.fresh other hle).2⟩
    by_cases heq : other = run
    · have hle' : w.nextRun ≤ other := hle
      have hnone : stage = none := hrun.resolve_left (by omega)
      rw [heq, ← hnone]
      exact Function.update_self ..
    · exact (Function.update_of_ne heq _ _).trans (h.fresh other hle).1
  · have hset : (w.setStage run stage).runs run = stage := Function.update_self ..
    rw [hset]
    exact hk.stageSound rfl hstage

/-- The result of an attempt is added to a run whose attempts have failed so far. -/
theorem keeps_addResult {w : SyncWorld} {run done : ℕ} (h : w.Failing run done)
    (hdone : done < maxAttempts) (result : Option SyncError) :
    Keeps w (w.addResult run result) := by
  obtain ⟨errors, herrors, hlength⟩ := h
  refine ⟨Nat.le_refl _, fun _ h => h, ?_, ?_⟩
  · intro other rest hother
    by_cases heq : other = run
    · rw [heq, herrors] at hother
      cases errors <;> simp at hother
    · exact Function.update_of_ne heq _ _
  · intro other hother
    by_cases heq : other = run
    · rw [heq, herrors, List.length_map] at hother
      omega
    · exact Function.update_of_ne heq _ _

/-- The newest result of a run. -/
theorem results_addResult (w : SyncWorld) (run : ℕ) (result : Option SyncError) :
    (w.addResult run result).results run = result :: w.results run :=
  Function.update_self ..

/-- An attempt ends, and the run goes on with a stage that fits. -/
theorem Sound.addResult {w : SyncWorld} {message : SyncError → String} (h : w.Sound message)
    {run done : ℕ} (hrun : run < w.nextRun) (hfailing : w.Failing run done)
    (hdone : done < maxAttempts) {result : Option SyncError} {stage : Option SyncStage}
    (hstage : (w.addResult run result).StageSound run stage) :
    ((w.addResult run result).setStage run stage).Sound message := by
  have hk := keeps_addResult hfailing hdone result
  have hset := keeps_setStage (w.addResult run result) run stage
  refine h.touch ⟨Nat.le_refl _, fun _ h => h, hk.succeeded, hk.gaveUp⟩ run ?_ ?_ ?_ ?_ ?_
  · intro other hne
    exact ⟨Function.update_of_ne hne _ _, Function.update_of_ne hne _ _⟩
  · intro other hle
    have hne : other ≠ run := by
      have hle' : w.nextRun ≤ other := hle
      omega
    obtain ⟨hruns, hresults⟩ := h.fresh other hle
    exact ⟨(Function.update_of_ne hne _ _).trans hruns,
      (Function.update_of_ne hne _ _).trans hresults⟩
  · obtain ⟨errors, herrors, hlength⟩ := hfailing
    have hresults : ((w.addResult run result).setStage run stage).results run =
        result :: errors.map some := (results_addResult w run result).trans (by rw [herrors])
    cases result with
    | none => exact ⟨errors, .inr ⟨hresults, by omega⟩⟩
    | some error => exact ⟨error :: errors, .inl ⟨hresults, by simp; omega⟩⟩
  · have hruns : ((w.addResult run result).setStage run stage).runs run = stage :=
      Function.update_self ..
    rw [hruns]
    exact hset.stageSound rfl hstage
  · intro state hs
    exact hset.recordSound (hk.recordSound (h.record state hs))

/-- A run in flight has started. -/
theorem Sound.lt_nextRun {w : SyncWorld} {message : SyncError → String} (h : w.Sound message)
    {run : ℕ} {stage : SyncStage} (hstage : w.runs run = some stage) : run < w.nextRun := by
  by_contra hle
  rw [(h.fresh run (Nat.le_of_not_lt hle)).1] at hstage
  cases hstage

/-- A statement on the record keeps everything else. -/
theorem keeps_setState (w : SyncWorld) (state : SyncState) :
    Keeps w { w with state := some state } :=
  ⟨Nat.le_refl _, fun _ h => h, fun _ _ _ => rfl, fun _ _ => rfl⟩

/-- The record is set to a state that is sound. -/
theorem Sound.safely {w : SyncWorld} {message : SyncError → String} (h : w.Sound message)
    {recorded : Bool} {state : SyncState} (hstate : w.RecordSound message state) :
    (w.safely recorded state).Sound message := by
  unfold SyncWorld.safely
  split
  · have hk := keeps_setState w state
    refine ⟨h.fresh, h.bounded, fun run => hk.stageSound rfl (h.stages run), ?_⟩
    intro s hs
    cases hs
    exact hk.recordSound hstate
  · exact h

/-- The record after `recordSyncAttempt`. -/
theorem Sound.recordAttempt {w : SyncWorld} {message : SyncError → String} (h : w.Sound message) :
    w.RecordSound message (recordSyncAttempt w.now w.state) := by
  cases hstate : w.state with
  | none =>
    refine ⟨.inl rfl, ?_, ?_, ?_⟩
    · intro hs
      cases hs
    · intro hs
      cases hs
    · intro t ht
      cases ht
  | some state =>
    have hr := h.record state hstate
    exact ⟨hr.outcome, hr.success, hr.failure, hr.lastSuccess⟩

/-- The record after `recordSyncSuccess` of a run that succeeded. -/
theorem recordSound_success {w : SyncWorld} {message : SyncError → String}
    {run : ℕ} (hrun : w.SucceededBy run w.now) :
    w.RecordSound message (recordSyncSuccess w.now w.state) := by
  cases hstate : w.state with
  | none =>
    refine ⟨.inr (.inl rfl), fun _ => ⟨rfl, rfl⟩, ?_, ?_⟩
    · intro hs
      simp [recordSyncSuccess] at hs
    · intro t ht
      cases ht
      exact ⟨Nat.le_refl _, run, hrun⟩
  | some state =>
    refine ⟨.inr (.inl rfl), fun _ => ⟨rfl, rfl⟩, ?_, ?_⟩
    · intro hs
      simp [recordSyncSuccess] at hs
    · intro t ht
      cases ht
      exact ⟨Nat.le_refl _, run, hrun⟩

/-- The record after `recordSyncFailure` of a run that gave up. -/
theorem Sound.recordFailure {w : SyncWorld} {message : SyncError → String} (h : w.Sound message)
    {run : ℕ} {error : SyncError} (hrun : w.GaveUp run error) :
    w.RecordSound message (recordSyncFailure w.now (message error) w.state) := by
  cases hstate : w.state with
  | none =>
    refine ⟨.inr (.inr rfl), ?_, fun _ => ⟨run, error, hrun, rfl⟩, fun t ht => by cases ht⟩
    intro hs
    simp [recordSyncFailure] at hs
  | some state =>
    have hr := h.record state hstate
    refine ⟨.inr (.inr rfl), ?_, fun _ => ⟨run, error, hrun, rfl⟩, hr.lastSuccess⟩
    intro hs
    simp [recordSyncFailure] at hs

/-- An attempt fails. -/
theorem Sound.attemptFails {w : SyncWorld} {message : SyncError → String} (h : w.Sound message)
    {run attempt : ℕ} (hstage : w.runs run = some (.attempting attempt)) (error : SyncError) :
    (w.attemptFails run attempt error).Sound message := by
  have hrun := h.lt_nextRun hstage
  have hs := h.stages run
  rw [hstage] at hs
  obtain ⟨done, rfl, hdone, hfailing⟩ := hs
  refine h.addResult hrun hfailing hdone ?_
  obtain ⟨errors, herrors, hlength⟩ := hfailing
  have hresults := (results_addResult w run (some error)).trans (by rw [herrors])
  split
  · rename_i hlast
    exact ⟨errors, hresults, by omega⟩
  · rename_i hnot
    exact ⟨by omega, error :: errors, hresults, by simp [hlength]⟩

/-- A transaction commits. -/
theorem Sound.commit {w : SyncWorld} {message : SyncError → String} (h : w.Sound message)
    (run attempt : ℕ) (payload : Json) (catalog : SharedCatalog) :
    (w.commit run attempt payload catalog).Sound message := by
  have hk : Keeps w (w.commit run attempt payload catalog) :=
    ⟨Nat.le_refl _, fun c hc => List.mem_cons_of_mem _ hc, fun _ _ _ => rfl, fun _ _ => rfl⟩
  exact ⟨h.fresh, h.bounded, fun other => hk.stageSound rfl (h.stages other),
    fun state hs => hk.recordSound (h.record state hs)⟩

/-- An attempt of a run that has just committed succeeds. -/
theorem Sound.attemptSucceeds {w : SyncWorld} {message : SyncError → String} (h : w.Sound message)
    {run attempt : ℕ} (hstage : w.runs run = some (.attempting attempt))
    (hcommit : ∃ c ∈ w.commits, c.run = run ∧ c.attempt = attempt ∧ c.time ≤ w.now) :
    (w.attemptSucceeds run).Sound message := by
  have hrun := h.lt_nextRun hstage
  have hs := h.stages run
  rw [hstage] at hs
  obtain ⟨done, rfl, hdone, hfailing⟩ := hs
  refine h.addResult hrun hfailing hdone ?_
  obtain ⟨errors, herrors, hlength⟩ := hfailing
  obtain ⟨c, hc, hcrun, hattempt, htime⟩ := hcommit
  refine ⟨errors, (results_addResult w run none).trans (by rw [herrors]), c, hc, hcrun, ?_, htime⟩
  rw [hattempt, hlength]

/-- `fetchAndUpsert`. -/
theorem Sound.fetchAndUpsert {w : SyncWorld} {message : SyncError → String} (h : w.Sound message)
    (bigint : String → Option ℤ) {run attempt : ℕ}
    (hstage : w.runs run = some (.attempting attempt)) (commitment : Commitment)
    (response : Except String Json) :
    (w.fetchAndUpsert bigint run attempt commitment response).Sound message := by
  cases response with
  | error text => exact h.attemptFails hstage _
  | ok payload =>
    unfold SyncWorld.fetchAndUpsert
    dsimp only
    split
    · exact h.attemptFails hstage _
    · exact (h.commit run attempt payload _).attemptSucceeds hstage
        ⟨_, List.mem_cons_self .., rfl, rfl, Nat.le_refl _⟩
    · exact h.attemptFails hstage _
    · exact (h.commit run attempt payload _).attemptFails hstage _

/-- The time passes. -/
theorem Sound.elapse {w : SyncWorld} {message : SyncError → String} (h : w.Sound message)
    (ms : ℕ) : ({ w with now := w.now + ms } : SyncWorld).Sound message := by
  have hk : Keeps w { w with now := w.now + ms } :=
    ⟨Nat.le_add_right _ _, fun _ h => h, fun _ _ _ => rfl, fun _ _ => rfl⟩
  exact ⟨h.fresh, h.bounded, fun other => hk.stageSound rfl (h.stages other),
    fun state hs => hk.recordSound (h.record state hs)⟩

/-- A run starts. -/
theorem Sound.begin {w : SyncWorld} {message : SyncError → String} (h : w.Sound message) :
    w.begin.Sound message := by
  have hk : Keeps w w.begin :=
    ⟨Nat.le_refl _, fun _ h => h, fun _ _ _ => rfl, fun _ _ => rfl⟩
  have hresults : w.results w.nextRun = [] := (h.fresh _ (Nat.le_refl _)).2
  refine h.touch hk w.nextRun ?_ ?_ (h.bounded w.nextRun) ?_
    fun state hs => hk.recordSound (h.record state hs)
  · intro other hne
    exact ⟨Function.update_of_ne hne _ _, rfl⟩
  · intro other hle
    have hlt : w.nextRun + 1 ≤ other := hle
    obtain ⟨hruns, hnone⟩ := h.fresh other (by omega)
    exact ⟨(Function.update_of_ne (by omega) _ _).trans hruns, hnone⟩
  · have hruns : w.begin.runs w.nextRun = some (.attempting 1) := Function.update_self ..
    rw [hruns]
    exact ⟨0, rfl, by decide, [], hresults, rfl⟩

/-- Every step keeps the world sound. -/
theorem Sound.step {w w' : SyncWorld} {message : SyncError → String} (h : w.Sound message)
    {bigint : String → Option ℤ} {a : SyncAction} (hs : w.step bigint message a = some w') :
    w'.Sound message := by
  cases a with
  | elapse ms =>
    cases hs
    exact h.elapse ms
  | start recorded =>
    cases hs
    exact h.begin.safely (h.begin.recordAttempt)
  | attempt run response commitment =>
    simp only [SyncWorld.step] at hs
    split at hs
    · rename_i attempt hstage
      cases hs
      exact h.fetchAndUpsert bigint hstage commitment response
    · cases hs
  | resume run =>
    simp only [SyncWorld.step] at hs
    split at hs
    · rename_i attempt deadline hstage
      split at hs
      · cases hs
        have hwaiting := h.stages run
        rw [hstage] at hwaiting
        obtain ⟨hlt, hfailing⟩ := hwaiting
        exact h.setStage (.inl (h.lt_nextRun hstage)) ⟨attempt, rfl, hlt, hfailing⟩
      · cases hs
    · cases hs
  | recordSuccess run recorded =>
    simp only [SyncWorld.step] at hs
    split at hs
    · rename_i hstage
      cases hs
      have hsucceeded := h.stages run
      rw [hstage] at hsucceeded
      exact (h.setStage (.inr rfl) trivial).safely
        ((keeps_setStage w run none).recordSound (recordSound_success hsucceeded))
    · cases hs
  | recordFailure run recorded =>
    simp only [SyncWorld.step] at hs
    split at hs
    · rename_i error hstage
      cases hs
      have hgaveUp := h.stages run
      rw [hstage] at hgaveUp
      exact (h.setStage (.inr rfl) trivial).safely
        ((keeps_setStage w run none).recordSound (h.recordFailure hgaveUp))
    · cases hs
  | crash run =>
    cases hs
    exact h.setStage (.inr rfl) trivial

/-- At the start nothing is recorded. -/
theorem sound_start (catalog : SharedCatalog) (message : SyncError → String) :
    (SyncWorld.start catalog).Sound message where
  fresh _ _ := ⟨rfl, rfl⟩
  bounded _ := ⟨[], .inl ⟨rfl, by decide⟩⟩
  stages _ := trivial
  record _ hs := by cases hs

end SyncWorld

/-- **The record of the synchronisation is truthful:** however the runs of the replicas
interleave and whichever statements fail, a run makes three attempts at most and none after
one that succeeded; a recorded success carries no error, and at the time it names a run had
committed the payload that its last attempt fetched; a recorded failure carries the error of the
third failed attempt of a run, cut after 4000 units. -/
theorem sync_record_truthful (bigint : String → Option ℤ) (message : SyncError → String)
    (start : SharedCatalog) (w : SyncWorld)
    (h : Reaches (SyncWorld.step bigint message) (fun _ _ => True) (SyncWorld.start start) w) :
    (∀ run, w.Bounded run) ∧ ∀ state, w.state = some state → w.RecordSound message state := by
  have hstep : ∀ (w : SyncWorld) (a : SyncAction) (w' : SyncWorld), w.Sound message → True →
      w.step bigint message a = some w' → w'.Sound message := fun _ _ _ hw _ hs => hw.step hs
  have hw : w.Sound message := h.invariant (SyncWorld.sound_start start message) hstep
  exact ⟨hw.bounded, hw.record⟩

/-- The record after this run. -/
theorem sync_record_truthful_recovering :
    ((after (SyncWorld.step (fun text => if text = "1" then some 1 else none) fun _ => "")
      (SyncWorld.start .empty) recoveringRun).state.map (·.lastOutcome)) = some (some "SUCCESS") ∧
    ∀ run, (after (SyncWorld.step (fun text => if text = "1" then some 1 else none) fun _ => "")
      (SyncWorld.start .empty) recoveringRun).Bounded run :=
  ⟨rfl, (sync_record_truthful _ _ _ _ (reaches_recoveringRun fun _ => "")).1⟩

end Odiseo.Catalogs
