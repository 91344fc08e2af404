import Odiseo.Materials.ReviewSpec
import Odiseo.Materials.RollUp

/-!
# Generation rounds overlap

An approval puts the courses of a request back to `PROCESSING` and dispatches a round
of jobs. Callbacks do not say which round they answer, so a result of an earlier round
that is delivered late counts for the current one: it changes the course, and the
success of the current round is then ignored. Nothing else gets in between: until the
next approval a course changes by callbacks of this round or of earlier ones only, and
the first success of the round is ignored only after a success of an earlier round.
-/

namespace Odiseo.Materials

open Database Database.Protocol

/-- The committed calls of a run, oldest first. -/
abbrev History := List (Commit UseCase Job Outcome)

/-- A callback, or an approval. -/
def UseCase.IsWebhookOrApprove (call : UseCase) : Prop :=
  call.IsWebhook ∨ ∃ r dto ctx, call = .approve r dto ctx

/-- The commit of an approval of request `r`. -/
def ApprovalOf (r : RequestId) (commit : Commit UseCase Job Outcome) : Prop :=
  ∃ dto ctx, commit.call = .approve r dto ctx

/-- Commit `i` has dispatched the round of request `r` that is still current: no later
commit approves the request. -/
structure CurrentRound (history : History) (r : RequestId) (i : ℕ) : Prop where
  opened : ∃ commit, history[i]? = some commit ∧ ApprovalOf r commit ∧ commit.jobs ≠ []
  last : ∀ k commit, i < k → history[k]? = some commit → ¬ApprovalOf r commit

/-- Each callback of the history answers a job that commit `origin j` had dispatched for
its course before the callback was opened, or, with `none`, a job from before the history.
Jobs may be answered late and more than once. -/
def Attributed (history : History) (origin : ℕ → Option ℕ) : Prop :=
  ∀ j commit cb i, history[j]? = some commit → commit.call = .webhook cb → origin j = some i →
    i < commit.since ∧ ∃ dispatch data, history[i]? = some dispatch ∧
      Job.generate data ∈ dispatch.jobs ∧ cb.statusData.jobId = some data.jobId

/-- The commit of a callback that reports a success for course `c`. -/
def SuccessFor (c : CourseRequestId) (commit : Commit UseCase Job Outcome) : Prop :=
  ∃ cb incoming, commit.call = .webhook cb ∧ cb.Reports c incoming ∧
    incoming.successTerminal = true

/-- The callback of the commit passed the guard. -/
def Applied (commit : Commit UseCase Job Outcome) : Prop :=
  ∃ event, commit.result = .callback (.applied event)

/-- A course has the same row and the same ledger rows in `b` as in `a`. -/
structure SameCourse (row : MaterialRequestCourse) (a b : Db) : Prop where
  course : b.courses.find row.id = a.courses.find row.id
  usages : b.usagesOf row.materialRequestId row.courseId =
    a.usagesOf row.materialRequestId row.courseId

/-- A step from `s` to `s'` in a run of approvals and attributed callbacks, within round
`i` of request `r`. -/
structure RoundStep (orm : Orm) (origin : ℕ → Option ℕ) (r : RequestId) (i : ℕ)
    (s s' : State) : Prop where
  reached : ∃ db, (materials orm).Reaches (Machine.StartsOnly UseCase.IsWebhookOrApprove)
    (System.idle db) s
  step : (materials orm).Step (Machine.StartsOnly UseCase.IsWebhookOrApprove) s s'
  attributed : Attributed s'.commits origin
  dispatched : i < s.commits.length
  current : CurrentRound s'.commits r i

/-- Within a round the courses of a request and their ledger rows change only by the
callbacks of jobs of this round. -/
def ChangesFromRound (orm : Orm) : Prop :=
  ∀ origin i s s' row, RoundStep orm origin row.materialRequestId i s s' →
    s.db.courses.find row.id = some row → ¬SameCourse row s.db s'.db →
    ∃ commit cb, s'.commits = s.commits ++ [commit] ∧ commit.call = .webhook cb ∧
      origin s.commits.length = some i

/-- The first callback of a round that reports a success for a course is not ignored. -/
def FirstSuccessKept (orm : Orm) : Prop :=
  ∀ origin i s s' row commit, RoundStep orm origin row.materialRequestId i s s' →
    s.db.courses.find row.id = some row → s'.commits = s.commits ++ [commit] →
    SuccessFor row.id commit → origin s.commits.length = some i →
    (∀ k earlier, s.commits[k]? = some earlier → SuccessFor row.id earlier → origin k ≠ some i) →
    commit.result ≠ .callback .ignored

/-- Since commit `i` a success has been applied to course `c`. -/
def SucceededSince (history : History) (c : CourseRequestId) (i : ℕ) : Prop :=
  ∃ k commit, i < k ∧ history[k]? = some commit ∧ SuccessFor c commit ∧ Applied commit

section History

variable {history more : History} {r : RequestId} {c : CourseRequestId} {i : ℕ}
  {commit : Commit UseCase Job Outcome}

/-- A round was opened by a commit of the history. -/
theorem CurrentRound.lt_length (h : CurrentRound history r i) : i < history.length := by
  obtain ⟨_, hget, _⟩ := h.opened
  exact (List.getElem?_eq_some_iff.mp hget).1

/-- A round that is current at the end was current when it had just been dispatched. -/
theorem CurrentRound.of_extended (h : CurrentRound (history ++ more) r i)
    (hi : i < history.length) : CurrentRound history r i where
  opened := by
    obtain ⟨commit, hget, happroves, hjobs⟩ := h.opened
    rw [List.getElem?_append_left hi] at hget
    exact ⟨commit, hget, happroves, hjobs⟩
  last := by
    intro k commit hk hget
    have hlt := (List.getElem?_eq_some_iff.mp hget).1
    exact h.last k commit hk (by rw [List.getElem?_append_left hlt, hget])

/-- Only an approval of the request opens a new round. -/
theorem CurrentRound.of_append (h : CurrentRound (history ++ [commit]) r i)
    (hcommit : ¬ApprovalOf r commit) : CurrentRound history r i := by
  refine h.of_extended ?_
  have hi := h.lt_length
  rw [List.length_append, List.length_singleton] at hi
  by_contra hlast
  obtain rfl : i = history.length := by omega
  obtain ⟨opening, hget, happroves, _⟩ := h.opened
  rw [List.getElem?_concat_length] at hget
  cases hget
  exact hcommit happroves

/-- An approval of the request closes the rounds before it. -/
theorem CurrentRound.eq_length (h : CurrentRound (history ++ [commit]) r i)
    (hcommit : ApprovalOf r commit) : i = history.length := by
  have hi := h.lt_length
  rw [List.length_append, List.length_singleton] at hi
  by_contra hne
  exact h.last history.length commit (by omega) (by rw [List.getElem?_concat_length]) hcommit

/-- The history only grows. -/
theorem SucceededSince.append (h : SucceededSince history c i) :
    SucceededSince (history ++ more) c i := by
  obtain ⟨k, commit, hk, hget, hsuccess⟩ := h
  have hlt := (List.getElem?_eq_some_iff.mp hget).1
  exact ⟨k, commit, hk, by rw [List.getElem?_append_left hlt, hget], hsuccess⟩

/-- The callback of a success is not an approval. -/
theorem not_approvalOf_webhook {cb : Callback} (h : commit.call = .webhook cb) :
    ¬ApprovalOf r commit := by
  rintro ⟨dto, ctx, happroves⟩
  rw [h] at happroves
  cases happroves

end History

/-- What holds of the committed state: jobs come from approvals of the request of their
course, and a course that has succeeded in a round has done so by a callback. -/
structure RoundInv (s : Committed) : Prop where
  jobs : ∀ commit ∈ s.commits, ∀ data, Job.generate data ∈ commit.jobs →
    ∃ row, s.db.courses.find data.jobId = some row ∧ ApprovalOf row.materialRequestId commit
  reopened : ∀ c row i, CurrentRound s.commits row.materialRequestId i →
    s.db.courses.find c = some row → row.status.successTerminal = true →
    SucceededSince s.commits c i

/-- What a commit does to the committed state under the locks it holds. -/
structure RoundCommit (held : List Row) (a b : Committed) (commit : Commit UseCase Job Outcome) :
    Prop where
  frame : LockFrame held a.db b.db
  grows : b.commits = a.commits ++ [commit]
  /-- No course is created or moved. -/
  back : ∀ c row, b.db.courses.find c = some row → ∃ row₀, a.db.courses.find c = some row₀ ∧
    row₀.materialRequestId = row.materialRequestId
  /-- A course changes with an approval or a callback of its request. -/
  changes : ∀ row, a.db.courses.find row.id = some row → ¬SameCourse row a.db b.db →
    ApprovalOf row.materialRequestId commit ∨ ∃ cb row', commit.call = .webhook cb ∧
      cb.statusData.jobId = some row'.id ∧ a.db.courses.find row'.id = some row' ∧
      row'.materialRequestId = row.materialRequestId
  /-- A success that was opened in a round is ignored only after another one. -/
  ignored : ∀ row i, a.db.courses.find row.id = some row → SuccessFor row.id commit →
    commit.result = .callback .ignored → CurrentRound a.commits row.materialRequestId i →
    i < commit.since → SucceededSince a.commits row.id i

/-- The protocol of callbacks and approvals. -/
def roundProtocol : Protocol UseCase Db Row Job Outcome where
  Inv := RoundInv
  Guar := fun held a b => ∃ commit, RoundCommit held a b commit
  Local := fun _ _ _ => True
  Pre := fun _ _ _ => True
  PreCommit := fun _ _ _ => True

section Waiting

variable {mine : List Row} {a b : Committed}

/-- While others commit the history grows. -/
theorem commits_append_of_after (h : roundProtocol.After mine a b) :
    ∃ more, b.commits = a.commits ++ more := by
  refine After.of_guar (R := fun a b => ∃ more, b.commits = a.commits ++ more)
    (fun a => ⟨[], by simp⟩) ?_ ?_ h
  · rintro a b c ⟨more, hab⟩ ⟨rest, hbc⟩
    exact ⟨more ++ rest, by rw [hbc, hab, List.append_assoc]⟩
  · rintro held a b _ ⟨commit, hcommit⟩ _
    exact ⟨[commit], hcommit.grows⟩

/-- While others commit no course is created or moved. -/
theorem back_of_after (h : roundProtocol.After mine a b) {c : CourseRequestId}
    {row : MaterialRequestCourse} (hrow : b.db.courses.find c = some row) :
    ∃ row₀, a.db.courses.find c = some row₀ ∧ row₀.materialRequestId = row.materialRequestId := by
  refine After.of_guar (R := fun a b => ∀ row, b.db.courses.find c = some row →
    ∃ row₀, a.db.courses.find c = some row₀ ∧ row₀.materialRequestId = row.materialRequestId)
    (fun a row hrow => ⟨row, hrow, rfl⟩) ?_ ?_ h row hrow
  · intro a b d hab hbd row hrow
    obtain ⟨row₁, hrow₁, hr₁⟩ := hbd row hrow
    obtain ⟨row₀, hrow₀, hr₀⟩ := hab row₁ hrow₁
    exact ⟨row₀, hrow₀, hr₀.trans hr₁⟩
  · rintro held a b _ ⟨commit, hcommit⟩ _ row hrow
    exact hcommit.back c row hrow

/-- Commits of this protocol keep the lock discipline. -/
theorem roundProtocol_guar (held : List Row) (a b : Committed)
    (h : roundProtocol.Guar held a b) : LockFrame held a.db b.db := by
  obtain ⟨commit, hcommit⟩ := h
  exact hcommit.frame

end Waiting

section Commits

variable {v : Committed} {u : Ctx} {cb : Callback}

/-- A commit that changes nothing: a callback without a course, or an ignored one. -/
theorem roundCommit_of_idle {outcome : CallbackOutcome} {t : Ctx} {v₀ : Committed}
    (hcall : t.call = .webhook cb) (hlog : ∀ db, t.log db = db) (hout : t.out = [])
    (hsince : t.since ≤ v₀.commits.length) (hinv₀ : RoundInv v₀) (hinv : RoundInv v)
    (hafter : roundProtocol.After [] v₀ v) (hleaves : cb.LeavesAlone v₀.db outcome) :
    RoundInv (v.commit t (.callback outcome) []) ∧
      roundProtocol.Guar t.held v (v.commit t (.callback outcome) []) := by
  have hdb : (v.commit t (.callback outcome) []).db = v.db := hlog v.db
  set commit : Commit UseCase Job Outcome := ⟨t.call, t.since, .callback outcome, t.out ++ []⟩
  have hcommits : (v.commit t (.callback outcome) []).commits = v.commits ++ [commit] := rfl
  have hnot : ∀ r, ¬ApprovalOf r commit := fun r =>
    not_approvalOf_webhook (show commit.call = .webhook cb from hcall)
  refine ⟨⟨?_, ?_⟩, commit, ?_, hcommits, ?_, ?_, ?_⟩
  · intro old hold data hjob
    rw [hdb]
    rcases List.mem_append.mp (hcommits ▸ hold) with hold | hold
    · exact hinv.jobs old hold data hjob
    · obtain rfl := List.mem_singleton.mp hold
      simp [commit, hout] at hjob
  · intro c row i hcurrent hrow hsuccess
    rw [hdb] at hrow
    rw [hcommits] at hcurrent ⊢
    exact (hinv.reopened c row i (hcurrent.of_append (hnot _)) hrow hsuccess).append
  · rw [hdb]
    exact .refl _ _
  · intro c row hrow
    rw [hdb] at hrow
    exact ⟨row, hrow, rfl⟩
  · intro row _ hchanged
    rw [hdb] at hchanged
    exact absurd ⟨rfl, rfl⟩ hchanged
  · intro row i hrow hsuccess hignored hcurrent hi
    obtain ⟨more, hmore⟩ := commits_append_of_after hafter
    rcases hleaves with rfl | ⟨rfl, jobId, incoming, course, hreports, hload, hguard⟩
    · cases hignored
    · -- the course was finished when the callback loaded it, after the round had begun
      obtain ⟨cb', incoming', hcall', hreports', hterminal⟩ := hsuccess
      obtain rfl : cb' = cb := by
        have heq : UseCase.webhook cb' = .webhook cb := hcall'.symm.trans hcall
        cases heq
        rfl
      obtain ⟨rfl, rfl⟩ := hreports.unique hreports'
      have hfinished : course.status.successTerminal = true := by
        simp only [ignores, Bool.or_eq_true, beq_iff_eq] at hguard
        rcases hguard with h | h
        · exact h
        · rw [h]
          exact hterminal
      obtain ⟨cur, hcur, hr, _⟩ := (protected_of_after roundProtocol_guar hafter).course _ _ hload
      rw [hrow] at hcur
      cases hcur
      rw [hr, hmore] at hcurrent
      have hearlier := hcurrent.of_extended (Nat.lt_of_lt_of_le hi hsince)
      rw [hmore]
      exact (hinv₀.reopened _ course i hearlier hload hfinished).append

/-- A callback that has passed the guard. -/
theorem roundCommit_of_handled {incoming : CourseMaterialStatus} {course : MaterialRequestCourse}
    {seen : List MaterialQuestionUsage} {event : Option MaterialGeneratedEvent} {t : Ctx}
    {v₀ : Committed} (hcall : t.call = .webhook cb) (hreports : cb.Reports course.id incoming)
    (hload : v₀.db.courses.find course.id = some course) (hinv : RoundInv v)
    (h : Handled roundProtocol cb incoming course seen t u v₀ v) :
    RoundInv (v.commit u (.callback (.applied event)) []) ∧
      roundProtocol.Guar u.held v (v.commit u (.callback (.applied event)) []) := by
  have hucall : u.call = .webhook cb := h.call.trans hcall
  obtain ⟨cur, hcur, hr, _⟩ := h.current roundProtocol_guar hload
  have hdb : (v.commit u (.callback (.applied event)) []).db =
      cb.effect incoming course seen v.db := h.effect
  have hframe := h.lockFrame roundProtocol_guar hload
  set commit : Commit UseCase Job Outcome :=
    ⟨u.call, u.since, .callback (.applied event), u.out ++ []⟩ with hcommit
  have hcommits : (v.commit u (.callback (.applied event)) []).commits = v.commits ++ [commit] := rfl
  have hnot : ∀ r, ¬ApprovalOf r commit := fun r =>
    not_approvalOf_webhook (show commit.call = .webhook cb from hucall)
  refine ⟨⟨?_, ?_⟩, commit, hframe, hcommits, ?_, ?_, ?_⟩
  · intro old hold data hjob
    rcases List.mem_append.mp (hcommits ▸ hold) with hold | hold
    · obtain ⟨row, hrow, happroves⟩ := hinv.jobs old hold data hjob
      obtain ⟨row', hrow', hr', _⟩ := (hframe [] (by simp)).course _ _ hrow
      exact ⟨row', hrow', hr' ▸ happroves⟩
    · obtain rfl := List.mem_singleton.mp hold
      rw [hcommit, List.append_nil, h.out] at hjob
      obtain ⟨_, hmerge⟩ := of_mem_mergeJobs hjob
      cases hmerge
  · intro c row i hcurrent hrow hsuccess
    rw [hcommits] at hcurrent ⊢
    have hopen := hcurrent.of_append (hnot _)
    rw [hdb, find_courses_effect] at hrow
    split at hrow
    · -- the success of this callback
      rename_i hc
      obtain ⟨old, _, rfl⟩ := Option.map_eq_some_iff.mp hrow
      refine ⟨v.commits.length, commit, hopen.lt_length, by rw [List.getElem?_concat_length], ?_, ?_⟩
      · exact ⟨cb, incoming, hucall, hc ▸ hreports, hsuccess⟩
      · exact ⟨event, rfl⟩
    · exact (hinv.reopened c row i hopen hrow hsuccess).append
  · intro c row hrow
    rw [hdb, find_courses_effect] at hrow
    split at hrow
    · obtain ⟨old, hold, rfl⟩ := Option.map_eq_some_iff.mp hrow
      exact ⟨old, hold, rfl⟩
    · exact ⟨row, hrow, rfl⟩
  · intro row hrow hchanged
    refine .inr ⟨cb, cur, hucall, ?_, ?_, ?_⟩
    · rw [Db.course_id_of_find hcur]
      exact hreports.1
    · rw [Db.course_id_of_find hcur, hcur]
    · by_contra hother
      have hne : row.id ≠ course.id := by
        intro heq
        rw [heq, hcur] at hrow
        cases hrow
        exact hother rfl
      refine hchanged ⟨?_, ?_⟩
      · rw [hdb, find_courses_effect, if_neg hne]
      · rw [hdb]
        exact usagesOf_effect cb incoming course seen v.db _ _ h.deleted
          fun _ heq => hother (hr.trans heq.1.symm)
  · intro row i _ _ hignored
    cases hignored

/-- An approval. -/
theorem roundCommit_of_approval {orm : Orm} {r : RequestId} {dto : ApproveReview}
    {ctx : MaterialReviewContext} {q : MaterialRequest} {result : ApprovalResult} {a : Approval}
    {t : Ctx} {v₀ v₁ : Committed} (hcall : t.call = .approve r dto ctx)
    (hafter : roundProtocol.After [] v₀ v₁) (hinv : RoundInv v)
    (happroves : Approves orm r dto q (v₀.db.coursesOf r) result a v.db)
    (h : Reviewed roundProtocol r ((v₀.db.coursesOf r).map (·.id)) t u v₁ v (approveIn r dto a)) :
    RoundInv (v.commit u (.approval result) result.jobsToDispatch) ∧
      roundProtocol.Guar u.held v (v.commit u (.approval result) result.jobsToDispatch) := by
  have hucall : u.call = .approve r dto ctx := h.call.trans hcall
  have hdb : (v.commit u (.approval result) result.jobsToDispatch).db = approveIn r dto a v.db :=
    h.log v.db
  have hframe := h.lockFrame
  set commit : Commit UseCase Job Outcome :=
    ⟨u.call, u.since, .approval result, u.out ++ result.jobsToDispatch⟩ with hcommit
  have hcommits : (v.commit u (.approval result) result.jobsToDispatch).commits =
      v.commits ++ [commit] := rfl
  have happroval : ApprovalOf r commit := ⟨dto, ctx, hucall⟩
  have honly : ∀ {k}, ApprovalOf k commit → k = r := by
    rintro k ⟨dto', ctx', hk⟩
    have heq : UseCase.approve k dto' ctx' = .approve r dto ctx := hk.symm.trans hucall
    cases heq
    rfl
  have hsince : roundProtocol.After [] v₀ v := hafter.trans (h.locked.mono (by simp))
  -- the courses that were loaded are the courses of the request
  have hmine : ∀ c row, v.db.courses.find c = some row →
      (c ∈ (v₀.db.coursesOf r).map (·.id) ↔ row.materialRequestId = r) := by
    intro c row hrow
    constructor
    · intro hc
      obtain ⟨row', hrow', hr⟩ := h.owns c hc
      rw [hrow] at hrow'
      cases hrow'
      exact hr
    · intro hr
      obtain ⟨row₀, hrow₀, hr₀⟩ := back_of_after hsince hrow
      have hid : row₀.id = c := Db.course_id_of_find hrow₀
      exact List.mem_map.mpr ⟨row₀, Db.mem_coursesOf.mpr ⟨hid ▸ hrow₀, hr₀.trans hr⟩, hid⟩
  have hback : ∀ c row, (approveIn r dto a v.db).courses.find c = some row →
      ∃ row₀, v.db.courses.find c = some row₀ ∧ row₀.materialRequestId = row.materialRequestId := by
    intro c row hrow
    by_cases hc : c ∈ (v₀.db.coursesOf r).map (·.id)
    · obtain ⟨row₀, hrow₀, hr₀⟩ := h.owns c hc
      obtain ⟨row', hrow', hr', _⟩ := (hframe [] (by simp)).course _ _ hrow₀
      rw [h.log, hrow] at hrow'
      cases hrow'
      exact ⟨row₀, hrow₀, hr'.symm⟩
    · rw [find_courses_approveIn_of_not_mem happroves hc] at hrow
      exact ⟨row, hrow, rfl⟩
  refine ⟨⟨?_, ?_⟩, commit, hframe, hcommits, ?_, ?_, ?_⟩
  · intro old hold data hjob
    rcases List.mem_append.mp (hcommits ▸ hold) with hold | hold
    · obtain ⟨row, hrow, hopened⟩ := hinv.jobs old hold data hjob
      obtain ⟨row', hrow', hr', _⟩ := (hframe [] (by simp)).course _ _ hrow
      exact ⟨row', hrow', hr' ▸ hopened⟩
    · obtain rfl := List.mem_singleton.mp hold
      rw [hcommit, h.out, List.nil_append] at hjob
      obtain ⟨row, hrow, hr⟩ := h.owns _ (happroves.decides.job_mem hjob)
      obtain ⟨row', hrow', hr', _⟩ := (hframe [] (by simp)).course _ _ hrow
      exact ⟨row', hrow', (hr'.trans hr) ▸ happroval⟩
  · intro c row i hcurrent hrow hsuccess
    rw [hcommits] at hcurrent ⊢
    rw [hdb] at hrow
    obtain ⟨row₀, hrow₀, hr₀⟩ := hback c row hrow
    by_cases hr : row.materialRequestId = r
    · -- the round opens with every course of the request being processed
      exfalso
      rw [hr] at hcurrent
      obtain rfl := hcurrent.eq_length happroval
      obtain ⟨opening, hget, _, hjobs⟩ := hcurrent.opened
      rw [List.getElem?_concat_length] at hget
      cases hget
      rw [hcommit, h.out, List.nil_append] at hjobs
      have hstatus := status_of_approveIn happroves hjobs
        ((hmine c row₀ hrow₀).mpr (hr₀.trans hr)) hrow
      rw [hstatus] at hsuccess
      cases hsuccess
    · have hc : c ∉ (v₀.db.coursesOf r).map (·.id) :=
        fun hc => hr (hr₀.symm.trans ((hmine c row₀ hrow₀).mp hc))
      rw [find_courses_approveIn_of_not_mem happroves hc] at hrow
      have hopen := hcurrent.of_append fun hk => hr (honly hk)
      exact (hinv.reopened c row i hopen hrow hsuccess).append
  · intro c row hrow
    rw [hdb] at hrow
    exact hback c row hrow
  · intro row hrow hchanged
    by_cases hr : row.materialRequestId = r
    · exact .inl (hr ▸ happroval)
    · have hc : row.id ∉ (v₀.db.coursesOf r).map (·.id) :=
        fun hc => hr ((hmine _ row hrow).mp hc)
      refine absurd ⟨?_, ?_⟩ hchanged
      · rw [hdb, find_courses_approveIn_of_not_mem happroves hc]
      · rw [hdb]
        simp only [Db.usagesOf, approveIn, finishIn_usages, editSlots_usages]
        rfl
  · intro row i _ _ hignored
    cases hignored

end Commits

/-- Callbacks and approvals follow the protocol. -/
theorem roundProtocol_sound (orm : Orm) :
    roundProtocol.Sound (materials orm) (Machine.StartsOnly UseCase.IsWebhookOrApprove) where
  starts := by
    intro s call _ hcond
    rcases hcond call rfl with ⟨cb, rfl⟩ | ⟨r, dto, ctx, rfl⟩
    · refine wp_webhook roundProtocol_guar (fun _ _ _ _ _ _ => trivial) ?_
        (fun _ _ _ _ _ _ _ _ _ _ _ => trivial) (fun _ _ _ _ _ _ _ _ _ _ => trivial) ?_
      · intro t outcome v₀ v hcall hsince hlog _ hout hafter₀ hinv₀ hleaves hafter hinv _
        obtain ⟨more, hmore⟩ := commits_append_of_after hafter₀
        refine roundCommit_of_idle hcall hlog hout ?_ hinv₀ hinv hafter hleaves
        rw [hsince, hmore, List.length_append]
        omega
      · intro t u event incoming course seen v₀ v hcall _ hreports _ _ hload _ hinv hhandled _
        exact roundCommit_of_handled hcall hreports hload hinv hhandled
    · refine wp_approveCall roundProtocol_guar (fun _ _ _ _ _ => trivial) ?_
      intro t u q result a v₀ v₁ v hcall _ _ hafter hinv happroves _ hreviewed _
      exact roundCommit_of_approval hcall hafter hinv happroves hreviewed
  pre := fun _ _ _ _ _ _ _ _ _ => trivial
  preCommit := fun _ _ _ _ _ _ _ => trivial
  stable := fun _ _ _ _ _ _ _ _ _ _ _ _ => trivial

/-- A callback for a course of the request answers a job of the current round or of an
earlier one. -/
theorem origin_le {s : Committed} {origin : ℕ → Option ℕ} {r : RequestId} {c : CourseRequestId}
    {i j k : ℕ} {commit : Commit UseCase Job Outcome} {cb : Callback} {row : MaterialRequestCourse}
    (hinv : RoundInv s) (hattributed : Attributed s.commits origin)
    (hcurrent : CurrentRound s.commits r i) (hget : s.commits[k]? = some commit)
    (hcall : commit.call = .webhook cb) (hjob : cb.statusData.jobId = some c)
    (hrow : s.db.courses.find c = some row) (hr : row.materialRequestId = r)
    (horigin : origin k = some j) : j ≤ i := by
  obtain ⟨_, dispatch, data, hdispatch, hmem, hid⟩ := hattributed k commit cb j hget hcall horigin
  obtain ⟨row', hrow', happroval⟩ := hinv.jobs dispatch (List.mem_of_getElem? hdispatch) data hmem
  obtain rfl : c = data.jobId := Option.some.inj (hjob.symm.trans hid)
  rw [hrow] at hrow'
  cases hrow'
  by_contra hlater
  exact hcurrent.last j dispatch (by omega) hdispatch (hr ▸ happroval)

/-- **Rounds overlap, and nothing else.** Within a round of a request its courses change
only by callbacks of jobs of this round or of earlier ones. The first callback of the
round that reports a success is ignored only after a success of an earlier round has been
applied since the round began. -/
theorem changes_up_to_round (orm : Orm) (origin : ℕ → Option ℕ) (i : ℕ) (s s' : State)
    (row : MaterialRequestCourse) (hround : RoundStep orm origin row.materialRequestId i s s')
    (hrow : s.db.courses.find row.id = some row) :
    (¬SameCourse row s.db s'.db →
      ∃ commit cb, s'.commits = s.commits ++ [commit] ∧ commit.call = .webhook cb ∧
        ∀ j, origin s.commits.length = some j → j ≤ i) ∧
    ∀ commit, s'.commits = s.commits ++ [commit] → SuccessFor row.id commit →
      origin s.commits.length = some i →
      (∀ k earlier, s.commits[k]? = some earlier → SuccessFor row.id earlier →
        origin k ≠ some i) →
      commit.result = .callback .ignored →
      ∃ k earlier, i < k ∧ s.commits[k]? = some earlier ∧ SuccessFor row.id earlier ∧
        Applied earlier ∧ ∀ j, origin k = some j → j < i := by
  obtain ⟨⟨db, hreach⟩, ⟨e, hcond, hstep⟩, hattributed, hdispatched, hcurrent⟩ := hround
  have hsound := roundProtocol_sound orm
  have hempty : RoundInv ⟨db, []⟩ := by
    refine ⟨by simp, fun c row i hopen => ?_⟩
    have hlt := hopen.lt_length
    simp at hlt
  have hs := consistent_of_reaches hsound (consistent_idle hempty) hreach
  have hs' := consistent_of_step hsound hs hcond hstep
  rcases guar_of_step hsound hs hcond hstep with heq | ⟨held, commit, hcommit⟩
  · refine ⟨fun hchanged => ?_, fun commit hgrows => ?_⟩
    · rw [heq] at hchanged
      exact absurd ⟨rfl, rfl⟩ hchanged
    · rw [heq] at hgrows
      simp at hgrows
  have hgrows : s'.commits = s.commits ++ [commit] := hcommit.grows
  have hlast : s'.commits[s.commits.length]? = some commit := by
    rw [hgrows, List.getElem?_concat_length]
  have hnot : ¬ApprovalOf row.materialRequestId commit :=
    hcurrent.last _ commit hdispatched hlast
  -- courses stay with their request, so callbacks for them answer jobs of the request
  have hbound : ∀ k old cb row' j, s'.commits[k]? = some old → old.call = .webhook cb →
      cb.statusData.jobId = some row'.id → s.db.courses.find row'.id = some row' →
      row'.materialRequestId = row.materialRequestId → origin k = some j → j ≤ i := by
    intro k old cb row' j hget hcall hjob hrow' hr horigin
    obtain ⟨cur, hcur, hmoved, _⟩ := (hcommit.frame [] (by simp)).course _ _ hrow'
    exact origin_le hs'.inv hattributed hcurrent hget hcall hjob hcur (hmoved.trans hr) horigin
  refine ⟨fun hchanged => ?_, fun last hgrows' hsuccess horigin hfirst hignored => ?_⟩
  · rcases hcommit.changes row hrow hchanged with happroval | ⟨cb, row', hcall, hjob, hrow', hr⟩
    · exact absurd happroval hnot
    · exact ⟨commit, cb, hgrows, hcall,
        fun j horigin => hbound _ commit cb row' j hlast hcall hjob hrow' hr horigin⟩
  · obtain rfl : last = commit := by
      rw [hgrows, List.append_cancel_left_eq, List.cons.injEq] at hgrows'
      exact hgrows'.1.symm
    have hsince : i < last.since := by
      obtain ⟨cb, _, hcall, _⟩ := hsuccess
      exact (hattributed _ last cb i hlast hcall horigin).1
    have hopen : CurrentRound s.commits row.materialRequestId i :=
      (hgrows ▸ hcurrent).of_extended hdispatched
    obtain ⟨k, earlier, hk, hget, hearlier, happlied⟩ :=
      hcommit.ignored row i hrow hsuccess hignored hopen hsince
    refine ⟨k, earlier, hk, hget, hearlier, happlied, fun j hj => ?_⟩
    have hne : j ≠ i := by
      rintro rfl
      exact hfirst k earlier hget hearlier hj
    obtain ⟨cb', incoming', hcall', hreports', _⟩ := hearlier
    have hlt := (List.getElem?_eq_some_iff.mp hget).1
    have hget' : s'.commits[k]? = some earlier := by
      rw [hgrows, List.getElem?_append_left hlt, hget]
    have hle := hbound k earlier cb' row j hget' hcall' hreports'.1 hrow rfl hj
    omega

/-- Two approvals of request 1, one after the other; then a success for course 10, which
answers a job of the first round, has run its statements. -/
def lateAnswer : List (Event UseCase) :=
  .start (.approve 1 ⟨1, true, [], []⟩ ⟨1, 1⟩) :: List.replicate 13 (.exec 0) ++
    .start (.approve 1 ⟨3, true, [], []⟩ ⟨1, 1⟩) :: List.replicate 13 (.exec 1) ++
    .start (.webhook (report 10 "completed")) :: List.replicate 4 (.exec 2)

/-- The late success commits; then the success of the second round loads the course. -/
def ignoredAnswer : List (Event UseCase) :=
  lateAnswer ++ [.exec 2, .start (.webhook (report 10 "completed")), .exec 3]

/-- The state of `twoCourses` after some events. -/
def afterEvents (events : List (Event UseCase)) : State :=
  (materials .typeOrm).endState (System.idle twoCourses) events

/-- The first success answers the first approval, the second one the second approval. -/
def answers (j : ℕ) : Option ℕ := some (j - 2)

/-- The history of both runs. -/
def roundHistory : History := (afterEvents (ignoredAnswer ++ [.exec 3])).commits

/-- The course of a generation of one course. -/
def Job.course? : Job → Option CourseRequestId
  | .generate data => some data.jobId
  | _ => none

/-- The calls of the history. -/
theorem call_roundHistory {j : ℕ} {commit : Commit UseCase Job Outcome}
    (h : roundHistory[j]? = some commit) :
    [.approve 1 ⟨1, true, [], []⟩ ⟨1, 1⟩, .approve 1 ⟨3, true, [], []⟩ ⟨1, 1⟩,
      .webhook (report 10 "completed"), .webhook (report 10 "completed")][j]? =
      some commit.call := by
  have hcalls : roundHistory.map (·.call) =
      [.approve 1 ⟨1, true, [], []⟩ ⟨1, 1⟩, .approve 1 ⟨3, true, [], []⟩ ⟨1, 1⟩,
        .webhook (report 10 "completed"), .webhook (report 10 "completed")] := by decide +kernel
  rw [← hcalls, List.getElem?_map, h, Option.map_some]

/-- Both approvals dispatch a job for course 10. -/
theorem dispatch_roundHistory {i : ℕ} (hi : i < 2) : ∃ commit data,
    roundHistory[i]? = some commit ∧ Job.generate data ∈ commit.jobs ∧ data.jobId = 10 := by
  have hjobs : roundHistory[i]?.map (fun commit => commit.jobs.filterMap Job.course?) =
      some [10, 11] := by
    revert i
    decide +kernel
  obtain ⟨commit, hget, hmap⟩ := Option.map_eq_some_iff.mp hjobs
  have hten : 10 ∈ commit.jobs.filterMap Job.course? := by simp [hmap]
  obtain ⟨job, hjob, hcourse⟩ := List.mem_filterMap.mp hten
  cases job with
  | generate data => exact ⟨commit, data, hget, hjob, Option.some.inj hcourse⟩
  | generatePdf data => cases hcourse
  | mergePdf r tenantId => cases hcourse

/-- Every callback of the history answers a job that was dispatched before. -/
theorem attributed_roundHistory {m : ℕ} (hm : 2 ≤ m) :
    Attributed (roundHistory.take m) answers := by
  intro j commit cb i hget hcall horigin
  have hj : roundHistory[j]? = some commit := by
    rw [List.getElem?_take] at hget
    split at hget
    · exact hget
    · cases hget
  have hcalls := call_roundHistory hj
  have hsince : roundHistory.map (·.since) = [0, 1, 2, 3] := by decide +kernel
  have hopened : [0, 1, 2, 3][j]? = some commit.since := by
    rw [← hsince, List.getElem?_map, hj, Option.map_some]
  rw [hcall] at hcalls
  have hi : i = j - 2 := (Option.some.inj horigin).symm
  have hlate : 2 ≤ j ∧ j < 4 ∧ commit.since = j ∧ cb = report 10 "completed" := by
    match j with
    | 0 => simp at hcalls
    | 1 => simp at hcalls
    | 2 => simpa [eq_comm] using And.intro hopened hcalls
    | 3 => simpa [eq_comm] using And.intro hopened hcalls
    | j + 4 => simp at hcalls
  obtain ⟨dispatch, data, hdispatch, hjob, hid⟩ := dispatch_roundHistory (i := i) (by omega)
  refine ⟨by omega, dispatch, data, ?_, hjob, ?_⟩
  · rw [List.getElem?_take, if_pos (by omega), hdispatch]
  · rw [hlate.2.2.2, hid]
    rfl

/-- The second approval opens the round that is current from then on. -/
theorem currentRound_roundHistory {m : ℕ} (hm : 2 ≤ m) :
    CurrentRound (roundHistory.take m) 1 1 where
  opened := by
    obtain ⟨commit, data, hget, hjob, _⟩ := dispatch_roundHistory (i := 1) (by omega)
    refine ⟨commit, by rw [List.getElem?_take, if_pos (by omega), hget], ?_, ?_⟩
    · have hcall := call_roundHistory hget
      exact ⟨_, _, (Option.some.inj hcall).symm⟩
    · exact List.ne_nil_of_mem hjob
  last := by
    intro k commit hk hget happroves
    rw [List.getElem?_take] at hget
    split at hget
    · have hcall := call_roundHistory hget
      obtain ⟨dto, ctx, happroves⟩ := happroves
      rw [happroves] at hcall
      match k with
      | 0 | 1 => omega
      | 2 => simp at hcall
      | 3 => simp at hcall
      | k + 4 => simp at hcall
    · cases hget

/-- The last step of one of the two runs. -/
theorem roundStep_afterEvents {events : List (Event UseCase)} {e : Event UseCase} {m : ℕ}
    (hm : 2 ≤ m)
    (hruns : ((materials .typeOrm).runEvents (System.idle twoCourses) (events ++ [e])).isSome = true)
    (hbefore : ((materials .typeOrm).runEvents (System.idle twoCourses) events).isSome = true)
    (hstarts : ∀ call, .start call ∈ events ++ [e] → call.IsWebhookOrApprove)
    (hlength : 1 < (afterEvents events).commits.length)
    (hcommits : (afterEvents (events ++ [e])).commits = roundHistory.take m) :
    RoundStep .typeOrm answers 1 1 (afterEvents events) (afterEvents (events ++ [e])) where
  reached := by
    refine ⟨twoCourses, Machine.reaches_endState hbefore fun s e' he call hcall => ?_⟩
    exact hstarts call (List.mem_append_left _ (hcall ▸ he))
  step := by
    refine ⟨e, fun call hcall => ?_, Machine.step_endState hruns⟩
    exact hstarts call (by simp [hcall])
  attributed := by
    rw [hcommits]
    exact attributed_roundHistory hm
  dispatched := hlength
  current := by
    rw [hcommits]
    exact currentRound_roundHistory hm

/-- The runs start approvals and callbacks only. -/
theorem starts_ignoredAnswer {call : UseCase}
    (h : .start call ∈ ignoredAnswer ++ [Event.exec 3]) : call.IsWebhookOrApprove := by
  simp only [ignoredAnswer, lateAnswer, List.cons_append, List.append_assoc, List.mem_cons,
    List.mem_append, List.mem_replicate, Event.start.injEq, reduceCtorEq, and_false, false_or,
    or_false, List.nil_append, List.not_mem_nil] at h
  rcases h with rfl | rfl | rfl | rfl
  · exact .inr ⟨_, _, _, rfl⟩
  · exact .inr ⟨_, _, _, rfl⟩
  · exact .inl ⟨_, rfl⟩
  · exact .inl ⟨_, rfl⟩

/-- The commit of the late success is a step of the second round. -/
theorem roundStep_lateAnswer :
    RoundStep .typeOrm answers 1 1 (afterEvents lateAnswer) (afterEvents (lateAnswer ++ [.exec 2])) := by
  refine roundStep_afterEvents (m := 3) (by decide) (by decide +kernel) (by decide +kernel) ?_
    (by decide +kernel) (by decide +kernel)
  intro call hcall
  have hmem : .start call ∈ lateAnswer := by simpa using hcall
  exact starts_ignoredAnswer (List.mem_append_left _ (List.mem_append_left _ hmem))

/-- The commit of the ignored success is a step of the second round. -/
theorem roundStep_ignoredAnswer : RoundStep .typeOrm answers 1 1 (afterEvents ignoredAnswer)
    (afterEvents (ignoredAnswer ++ [.exec 3])) :=
  roundStep_afterEvents (m := 4) (by decide) (by decide +kernel) (by decide +kernel)
    (fun _ => starts_ignoredAnswer) (by decide +kernel) (by decide +kernel)

/-- Course 10 after the late success. -/
def lateCourse : MaterialRequestCourse :=
  (report 10 "completed").change .completed (courseRow 10 1 5 .processing)

/-- The commit of the ignored success. -/
def ignoredCommit : Commit UseCase Job Outcome :=
  ⟨.webhook (report 10 "completed"), 3, .callback .ignored, []⟩

/-- The ignored success is a success for course 10. -/
theorem successFor_ignoredCommit : SuccessFor 10 ignoredCommit :=
  ⟨report 10 "completed", .completed, rfl, ⟨rfl, "completed", rfl, rfl⟩, rfl⟩

/-- No earlier callback answers the second approval. -/
theorem first_ignoredAnswer (k : ℕ) (earlier : Commit UseCase Job Outcome)
    (hget : (afterEvents ignoredAnswer).commits[k]? = some earlier) : answers k ≠ some 1 := by
  have hlength : (afterEvents ignoredAnswer).commits.length = 3 := by decide +kernel
  have hk := (List.getElem?_eq_some_iff.mp hget).1
  intro hanswers
  have hround : k - 2 = 1 := Option.some.inj hanswers
  omega

/-- The success of the second round is ignored, because the late one of the first round
has been applied. -/
theorem changes_up_to_round_ignoredAnswer : ∃ k earlier, 1 < k ∧
    (afterEvents ignoredAnswer).commits[k]? = some earlier ∧ SuccessFor 10 earlier ∧
    Applied earlier ∧ ∀ j, answers k = some j → j < 1 := by
  have hcommits : (afterEvents (ignoredAnswer ++ [.exec 3])).commits =
      (afterEvents ignoredAnswer).commits ++ [ignoredCommit] := by decide +kernel
  have hanswers : answers (afterEvents ignoredAnswer).commits.length = some 1 := by decide +kernel
  exact (changes_up_to_round .typeOrm answers 1 _ _ lateCourse roundStep_ignoredAnswer
    (by decide +kernel)).2 ignoredCommit hcommits successFor_ignoredCommit hanswers
    (fun k earlier hget _ => first_ignoredAnswer k earlier hget) rfl

/-- Rounds are not kept apart: a success of the first round, delivered after the second
approval, completes the course, and the success of the second round is ignored. -/
theorem not_roundsApart : ¬ChangesFromRound .typeOrm ∧ ¬FirstSuccessKept .typeOrm := by
  constructor
  · intro h
    have hchanged : ¬SameCourse (courseRow 10 1 5 .processing) (afterEvents lateAnswer).db
        (afterEvents (lateAnswer ++ [.exec 2])).db := by
      intro hsame
      have hbefore : (afterEvents lateAnswer).db.courses.find 10 =
          some (courseRow 10 1 5 .processing) := by decide +kernel
      have hafter : (afterEvents (lateAnswer ++ [.exec 2])).db.courses.find 10 =
          some lateCourse := by decide +kernel
      have hrow := hsame.course
      simp only [courseRow] at hrow
      rw [hafter, hbefore] at hrow
      cases hrow
    obtain ⟨_, _, _, _, hround⟩ := h answers 1 _ _ (courseRow 10 1 5 .processing)
      roundStep_lateAnswer (by decide +kernel) hchanged
    have hlate : answers (afterEvents lateAnswer).commits.length = some 0 := by decide +kernel
    rw [hlate] at hround
    cases hround
  · intro h
    exact h answers 1 _ _ lateCourse ignoredCommit roundStep_ignoredAnswer (by decide +kernel)
      (by decide +kernel) successFor_ignoredCommit (by decide +kernel)
      (fun k earlier hget _ => first_ignoredAnswer k earlier hget) rfl

end Odiseo.Materials
