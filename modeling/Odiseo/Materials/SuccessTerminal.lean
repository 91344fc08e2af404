import Odiseo.Materials.RollUp

/-!
# Success is authoritative, unless a callback is already past its guard

The guard that keeps the result of a finished course is evaluated when the course
is loaded, without a lock. A callback that has passed it waits for the row while
another one commits a success, and then overwrites the success. Where that race
does not occur, and no course of a request occurs twice, nothing that callbacks
commit changes a successful course or its ledger rows.
-/

namespace Odiseo.Materials

open Database Database.Protocol

/-- Two rows of a course with the same status, URLs, warnings, page count and time of
completion. -/
structure SameResult (a b : MaterialRequestCourse) : Prop where
  status : b.status = a.status
  downloadUrl : b.downloadUrl = a.downloadUrl
  keyDownloadUrl : b.keyDownloadUrl = a.keyDownloadUrl
  solutionDownloadUrl : b.solutionDownloadUrl = a.solutionDownloadUrl
  warnings : b.warnings = a.warnings
  pageCount : b.pageCount = a.pageCount
  completedAt : b.completedAt = a.completedAt

/-- Every course that has succeeded in `a` has the same result and the same ledger rows
in `b`. -/
def KeepsSuccess (a b : Db) : Prop :=
  ∀ c row, a.courses.find c = some row → row.status.successTerminal = true →
    ∃ row', b.courses.find c = some row' ∧ SameResult row row' ∧
      b.usagesOf row.materialRequestId row.courseId =
        a.usagesOf row.materialRequestId row.courseId

/-- Success is authoritative in the runs under a condition, whatever callbacks start and
however their statements interleave. -/
def SuccessAuthoritative (orm : Orm) (cond : State → Event UseCase → Prop) : Prop :=
  ∀ (db : Db) (s s' : State),
    (materials orm).Reaches (fun s e => Machine.StartsOnly UseCase.IsWebhook s e ∧ cond s e)
      (System.idle db) s →
    (materials orm).Reaches (fun s e => Machine.StartsOnly UseCase.IsWebhook s e ∧ cond s e)
      s s' →
    KeepsSuccess s.db s'.db

/-- The callback `cb` reports a success for course `c` and holds its row. -/
def Succeeds (t : Ctx) (cb : Callback) (c : CourseRequestId) (incoming : CourseMaterialStatus) :
    Prop :=
  t.call = .webhook cb ∧ cb.Reports c incoming ∧ incoming.successTerminal = true ∧
    .course c ∈ t.held

/-- Another course of the request of `c` has succeeded for the same catalog course. -/
def HasTwin (db : Db) (c : CourseRequestId) : Prop :=
  ∃ row row', db.courses.find c = some row ∧ db.courses.find row'.id = some row' ∧ row'.id ≠ c ∧
    row'.status.successTerminal = true ∧ row'.materialRequestId = row.materialRequestId ∧
    row'.courseId = row.courseId

/-- When the callback of a success commits, no other callback has passed its guard and
waits for the course, and the ledger rows that it writes are those of no other
successful course. -/
def NoRace (s : State) (e : Event UseCase) : Prop :=
  ∀ t a cb c incoming, t ∈ s.active → e = .exec t.id → t.program = .done a →
    Succeeds t.toContext cb c incoming →
    (∀ u ∈ s.active, u.id ≠ t.id → ∀ v, .course c ∉ u.program.wants v) ∧
    (cb.writesLedger incoming = true → ¬HasTwin s.db c)

/-- A course that becomes successful by a commit becomes so by the callback that
reported it. -/
def SuccessReported (a b : Committed) : Prop :=
  ∀ c row, b.db.courses.find c = some row → row.status.successTerminal = true →
    a.db.courses.find c = some row ∨
    ∃ cb commit, b.commits = a.commits ++ [commit] ∧ commit.call = .webhook cb ∧
      cb.Reports c row.status

/-- The protocol of callbacks without races. While a callback waits for a course that it
is going to write, that course has not succeeded. -/
def successProtocol : Protocol UseCase Db Row Job Outcome where
  Inv := fun _ => True
  Guar := fun held a b => LockFrame held a.db b.db ∧ SuccessReported a b ∧
    ∀ c row, a.db.courses.find c = some row → row.status.successTerminal = true →
      b.db.courses.find c = some row ∧
        b.db.usagesOf row.materialRequestId row.courseId =
          a.db.usagesOf row.materialRequestId row.courseId
  Local := fun _ wants s => ∀ c v row, .course c ∈ wants v → s.db.courses.find c = some row →
    row.status.successTerminal = false
  Pre := fun _ _ _ => True
  PreCommit := fun t _ s => ∀ cb c incoming, Succeeds t cb c incoming →
    cb.writesLedger incoming = true → ¬HasTwin s.db c

/-- A course that passes the guard has not succeeded. -/
theorem not_successTerminal_of_not_ignores {current incoming : CourseMaterialStatus}
    (h : ignores current incoming = false) : current.successTerminal = false := by
  simp only [ignores, Bool.or_eq_false_iff] at h
  exact h.1

/-- **Step lemma:** the commit of a callback whose course has not succeeded keeps every
success and every ledger row of a successful course. -/
theorem keeps_effect {db : Db} {cb : Callback} {incoming : CourseMaterialStatus}
    {course cur : MaterialRequestCourse} {seen : List MaterialQuestionUsage}
    (hcur : db.courses.find course.id = some cur)
    (hr : cur.materialRequestId = course.materialRequestId)
    (hk : cur.courseId = course.courseId) (hopen : cur.status.successTerminal = false)
    (hseen : ∀ x ∈ seen, x.materialRequestId = course.materialRequestId ∧
      x.courseId = course.courseId)
    (htwin : cb.writesLedger incoming = true → ¬HasTwin db course.id) (c : CourseRequestId)
    (row : MaterialRequestCourse) (hfind : db.courses.find c = some row)
    (hsuccess : row.status.successTerminal = true) :
    (cb.effect incoming course seen db).courses.find c = some row ∧
      (cb.effect incoming course seen db).usagesOf row.materialRequestId row.courseId =
        db.usagesOf row.materialRequestId row.courseId := by
  have hne : c ≠ course.id := by
    rintro rfl
    rw [hcur] at hfind
    cases hfind
    rw [hopen] at hsuccess
    cases hsuccess
  refine ⟨?_, ?_⟩
  · rw [find_courses_effect, if_neg hne, hfind]
  · refine usagesOf_effect cb incoming course seen db _ _ hseen ?_
    rintro hwrites ⟨hrow, hcourse⟩
    have hid : row.id = c := Db.course_id_of_find hfind
    refine htwin hwrites ⟨cur, row, hcur, ?_, ?_, hsuccess, ?_, ?_⟩
    · rw [hid, hfind]
    · rw [hid]
      exact hne
    · rw [hrow, hr]
    · rw [hcourse, hk]

/-- Callbacks without races follow the protocol. -/
theorem successProtocol_sound (orm : Orm) :
    successProtocol.Sound (materials orm)
      (fun s e => Machine.StartsOnly UseCase.IsWebhook s e ∧ NoRace s e) where
  starts := by
    intro s call _ hcond
    obtain ⟨cb, rfl⟩ := hcond.1 call rfl
    have hguar : ∀ held a b, successProtocol.Guar held a b → LockFrame held a.db b.db :=
      fun _ _ _ h => h.1
    refine wp_webhook hguar ?_ ?_ ?_ ?_ ?_
    · intro u wants v _ _ hwants c w row hc
      exact absurd hc (hwants w c)
    · intro t outcome v₀ v _ _ hlog _ _ _ _ _ _ _ _
      have hdb : (v.commit t (.callback outcome) []).db = v.db := hlog v.db
      refine ⟨trivial, ?_, ?_, ?_⟩
      · intro mine _
        rw [hdb]
        exact Protected.refl mine v.db
      · intro c row hfind _
        rw [hdb] at hfind
        exact .inl hfind
      · intro c row hfind _
        rw [hdb]
        exact ⟨hfind, rfl⟩
    · intro t jobId incoming course v _ _ _ _ hfind hguard c w row hc hrow
      obtain rfl : c = jobId := by simpa using hc
      rw [hfind] at hrow
      cases hrow
      exact not_successTerminal_of_not_ignores hguard
    · intro t u incoming course seen v₀ v _ _ _ c w row hc
      simp at hc
    · intro t u event incoming course seen v₀ v hcall _ hreports _ _ hload _ _ hhandled hpre
      obtain ⟨cur, hcur, hr, hk⟩ := hhandled.current hguar hload
      have hdb : (v.commit u (.callback (.applied event)) []).db =
          cb.effect incoming course seen v.db := hhandled.effect
      have hucall : u.call = .webhook cb := hhandled.call.trans hcall
      -- the row was open when it was claimed, and is locked since
      have hopen : cur.status.successTerminal = false := by
        obtain ⟨w, _, hlocal, _, hafter⟩ := hhandled.claimed
        have hrow := (protected_of_after hguar hafter).courseRow course.id (by simp)
        exact hlocal course.id v.db cur (by simp) (hrow ▸ hcur)
      have htwin : cb.writesLedger incoming = true → ¬HasTwin v.db course.id := by
        intro hwrites
        have hsuccess : incoming.successTerminal = true := by
          simp only [Callback.writesLedger, Bool.and_eq_true] at hwrites
          exact hwrites.1.2
        exact hpre cb course.id incoming ⟨hucall, hreports, hsuccess, hhandled.courseHeld⟩ hwrites
      refine ⟨trivial, hhandled.lockFrame hguar hload, ?_, ?_⟩
      · intro c row hfind _
        rw [hdb, find_courses_effect] at hfind
        split at hfind
        · rename_i hc
          rw [hc, hcur] at hfind
          simp only [Option.map_some, Option.some.injEq] at hfind
          refine .inr ⟨cb, _, rfl, hucall, ?_⟩
          rw [hc, ← hfind]
          exact hreports
        · exact .inl hfind
      · intro c row hfind hsuccess
        rw [hdb]
        exact keeps_effect hcur hr hk hopen hhandled.deleted htwin c row hfind hsuccess
  pre := fun _ _ _ _ _ _ _ _ _ => trivial
  preCommit := by
    intro s t a _ ht hp hcond cb c incoming hsucceeds hwrites
    exact (hcond.2 t a cb c incoming ht rfl hp hsucceeds).2 hwrites
  stable := by
    intro s t u a hs ht hu hid hp hcond _ hguar c v row hc hfind
    have hwaiting := local_of_wp (hs.wp u hu)
    cases hsuccess : row.status.successTerminal with
    | false => rfl
    | true =>
      -- the row is successful after the commit: either it was before, or by this commit
      rcases hguar.2.1 c row hfind hsuccess with hold | ⟨cb, commit, hcommits, hcall, hreports⟩
      · rw [← hsuccess]
        exact hwaiting c v row hc hold
      · have hheld : .course c ∈ t.held := by
          by_contra hnot
          have hrow := (hguar.1 [.course c] (by simpa using hnot)).courseRow c (by simp)
          have hopen := hwaiting c v row hc (hrow ▸ hfind)
          rw [hsuccess] at hopen
          cases hopen
        have htcall : t.call = .webhook cb := by
          rw [Snapshot.commit_commits, List.append_cancel_left_eq, List.cons.injEq] at hcommits
          rw [← hcall, ← hcommits.1]
        have hrace := hcond.2 t a cb c row.status ht rfl hp ⟨htcall, hreports, hsuccess, hheld⟩
        exact absurd hc (hrace.1 u hu hid v)

/-- **Success is authoritative** in every run without such a race. -/
theorem successAuthoritative_of_noRace (orm : Orm) : SuccessAuthoritative orm NoRace := by
  intro db s s' hreach hlater
  have hstart : successProtocol.Consistent (materials orm) (System.idle db) :=
    consistent_idle trivial
  have hs := consistent_of_reaches (successProtocol_sound orm) hstart hreach
  suffices h : ∀ c row, s.db.courses.find c = some row → row.status.successTerminal = true →
      s'.db.courses.find c = some row ∧ s'.db.usagesOf row.materialRequestId row.courseId =
        s.db.usagesOf row.materialRequestId row.courseId by
    intro c row hfind hsuccess
    obtain ⟨hrow, husages⟩ := h c row hfind hsuccess
    exact ⟨row, hrow, ⟨rfl, rfl, rfl, rfl, rfl, rfl, rfl⟩, husages⟩
  induction hlater with
  | refl => exact fun c row hfind _ => ⟨hfind, rfl⟩
  | tail hmid hstep ih =>
    obtain ⟨e, hcond, hs'⟩ := hstep
    have hmid := consistent_of_reaches (successProtocol_sound orm) hs hmid
    intro c row hfind hsuccess
    obtain ⟨hrow, husages⟩ := ih c row hfind hsuccess
    rcases guar_of_step (successProtocol_sound orm) hmid hcond hs' with heq | ⟨held, hguar⟩
    · rw [heq]
      exact ⟨hrow, husages⟩
    · obtain ⟨hrow', husages'⟩ := hguar.2.2 c row hrow hsuccess
      exact ⟨hrow', husages'.trans husages⟩

/-- Two callbacks for one course both load it as being processed; the success commits. -/
def racingReports : List (Event UseCase) :=
  [.start (.webhook (report 10 "completed")), .start (.webhook (report 10 "failed")),
    .exec 0, .exec 1, .exec 0, .exec 0, .exec 0, .exec 0]

/-- The failure, which has waited for the row, updates it and commits. -/
def lateFailure : List (Event UseCase) := [.exec 1, .exec 1, .exec 1, .exec 1]

/-- The state after the commit of the success. -/
def racedState : State := (materials .typeOrm).endState (System.idle twoCourses) racingReports

/-- The state after the commit of the failure. -/
def overwrittenState : State := (materials .typeOrm).endState racedState lateFailure

/-- A success can be overwritten: a late failure passes the guard before the success
commits, and turns the completed course into a failed one. -/
theorem not_successAuthoritative :
    ¬SuccessAuthoritative .typeOrm (fun _ _ => True) := by
  intro h
  have hstarts : ∀ (s : State), ∀ e ∈ racingReports ++ lateFailure,
      Machine.StartsOnly UseCase.IsWebhook s e ∧ True := by
    intro s e he
    refine ⟨?_, trivial⟩
    rintro call rfl
    simp only [racingReports, lateFailure, List.cons_append, List.nil_append, List.mem_cons,
      Event.start.injEq, reduceCtorEq, or_false, List.not_mem_nil] at he
    rcases he with rfl | rfl
    · exact ⟨_, rfl⟩
    · exact ⟨_, rfl⟩
  have hfirst : (materials .typeOrm).Reaches _ (System.idle twoCourses) racedState :=
    Machine.reaches_endState (by decide +kernel)
      fun s e he => hstarts s e (List.mem_append_left _ he)
  have hsecond : (materials .typeOrm).Reaches _ racedState overwrittenState :=
    Machine.reaches_endState (by decide +kernel)
      fun s e he => hstarts s e (List.mem_append_right _ he)
  have hcompleted : (racedState.db.courses.find 10).map (·.status) = some .completed := by
    decide +kernel
  have hfailed : (overwrittenState.db.courses.find 10).map (·.status) = some .failed := by
    decide +kernel
  obtain ⟨row, hrow, hstatus⟩ := Option.map_eq_some_iff.mp hcompleted
  have hsuccess : row.status.successTerminal = true := by
    rw [hstatus]
    rfl
  obtain ⟨row', hrow', hsame, _⟩ := h twoCourses _ _ hfirst hsecond 10 row hrow hsuccess
  rw [hrow', Option.map_some, hsame.status, hstatus] at hfailed
  cases hfailed

end Odiseo.Materials
