import Odiseo.Materials.ReviewSpec
import Odiseo.Materials.RollUp

/-!
# The merge of a round is dispatched once, unless the roll-up is reopened

The callback that moves a request into a final success state enqueues the merge,
under the lock of the request. The state that it leaves is recognised by later
callbacks, unless a review read turns it into `IN_REVIEW` or a failure into
`FAILED`: a roll-up that succeeds from there merges once more. Without such a late
roll-up a round has one merge, however callbacks and review reads interleave.
-/

namespace Odiseo.Materials

open Database Database.Protocol

/-- A merge of request `r`. -/
def Job.isMergeOf (r : RequestId) : Job → Bool
  | .mergePdf k _ => k == r
  | _ => false

/-- The number of merges of request `r` among some jobs. -/
def mergesOf (r : RequestId) (jobs : List Job) : ℕ := jobs.countP (Job.isMergeOf r)

/-- A callback, or a review read. -/
def UseCase.IsWebhookOrReview (call : UseCase) : Prop := call.IsWebhook ∨ ∃ r, call = .review r

/-- Request `r` has just been dispatched: created with or without review, or approved. -/
def RoundStart (db : Db) (r : RequestId) : Prop :=
  ∃ q, db.requests.find r = some q ∧
    (q.status = .reviewRequired ∧ (∀ c ∈ db.coursesOf r, c.status = .pending) ∨
      q.status = .processing ∧ ∀ c ∈ db.coursesOf r, c.status = .processing)

/-- The merge of a request is enqueued at most once in a round, in the runs under a
condition, whatever callbacks and review reads start and however they interleave. -/
def MergedOnce (orm : Orm) (cond : State → Event UseCase → Prop) : Prop :=
  ∀ (db : Db) (r : RequestId) (s : State), RoundStart db r →
    (materials orm).Reaches
      (fun s e => Machine.StartsOnly UseCase.IsWebhookOrReview s e ∧ cond s e)
      (System.idle db) s →
    mergesOf r s.queue ≤ 1

/-- In the view of a callback every course of request `r` has finished with success,
while the request itself is in review or has failed. -/
structure Reopened (r : RequestId) (db : Db) : Prop where
  finished : allFinished (db.coursesOf r) = true
  succeeded : ∀ c ∈ db.coursesOf r, c.status ≠ .failed
  several : 2 ≤ (db.coursesOf r).length
  parent : ∃ q, db.requests.find r = some q ∧ (q.status = .inReview ∨ q.status = .failed)

/-- A callback of a known tenant is about to lock request `r`, whose merge is on the
queue, and will find it reopened. -/
structure LateRollUp (s : State) (t : Transaction UseCase Db Row Job HttpError Outcome)
    (r : RequestId) : Prop where
  call : ∃ cb, t.call = .webhook cb ∧ cb.companyId.isSome = true
  locks : .request r ∈ t.program.wants (t.view s.toSnapshot)
  merged : mergesOf r s.queue ≠ 0
  reopened : Reopened r (t.view s.toSnapshot)

/-- No callback rolls a request up late. -/
def NoLateRollUp (s : State) (e : Event UseCase) : Prop :=
  ∀ t ∈ s.active, e = .exec t.id → ∀ r, ¬LateRollUp s t r

/-- The merges of request `r` that committed transactions have enqueued. -/
def mergesIn (r : RequestId) (s : Committed) : ℕ :=
  mergesOf r (s.commits.flatMap Commit.jobs)

/-- A status that a request can have once its merge has been dispatched. -/
def Settled (status : MaterialRequestStatus) : Prop :=
  status = .completed ∨ status = .reviewRequired ∨ status = .inReview ∨ status = .failed

/-- At most one merge of request `r` has been enqueued, and only with its roll-up. -/
structure MergeInv (r : RequestId) (s : Committed) : Prop where
  once : mergesIn r s ≤ 1
  settled : mergesIn r s ≠ 0 → ∃ q, s.db.requests.find r = some q ∧ Settled q.status

/-- The protocol of callbacks and review reads. A merge is enqueued under the lock of
its request, by the first transaction that enqueues one. -/
def mergeProtocol (r : RequestId) : Protocol UseCase Db Row Job Outcome where
  Inv := MergeInv r
  Guar := fun held a b => LockFrame held a.db b.db ∧
    (.request r ∉ held → mergesIn r b = mergesIn r a)
  Local := fun t _ s => mergesOf r t.out = 0 ∨
    (mergesOf r t.out = 1 ∧ .request r ∈ t.held ∧ mergesIn r s = 0)
  Pre := fun t locks s => ∀ cb, t.call = .webhook cb → cb.companyId.isSome = true →
    .request r ∈ locks → mergesIn r s ≠ 0 → ¬Reopened r (t.view s)
  PreCommit := fun _ _ _ => True

section Merges

variable {r k : RequestId}

@[simp] theorem mergesOf_nil : mergesOf r [] = 0 := rfl

theorem mergesOf_append (a b : List Job) : mergesOf r (a ++ b) = mergesOf r a + mergesOf r b :=
  List.countP_append

/-- The merges after a commit. -/
theorem mergesIn_commit (s : Committed) (t : Ctx) (a : Outcome) (after : List Job) :
    mergesIn r (s.commit t a after) = mergesIn r s + mergesOf r (t.out ++ after) := by
  simp [mergesIn, List.flatMap_append, mergesOf_append]

/-- A roll-up enqueues at most one merge, of its own request and for a known tenant, when
all courses have finished with success and the request is not final yet. -/
theorem mergesOf_mergeJobs {cb : Callback} {db : Db} (h : mergesOf r (cb.mergeJobs k db) ≠ 0) :
    mergesOf r (cb.mergeJobs k db) = 1 ∧ k = r ∧ cb.companyId.isSome = true ∧
      allFinished (db.coursesOf r) = true ∧
      mergesParent (db.requests.find r) (db.coursesOf r) = true ∧
      (db.requests.find r).isSome = true := by
  unfold Callback.mergeJobs at h ⊢
  split at h
  · rename_i hcond
    simp only [Bool.and_eq_true] at hcond
    cases hcompany : cb.companyId with
    | none => simp [hcompany] at h
    | some tenantId =>
      have hk : k = r := by
        by_contra hne
        simp [hcompany, mergesOf, Job.isMergeOf, hne] at h
      subst hk
      refine ⟨?_, rfl, rfl, hcond.1.1, hcond.1.2, hcond.2⟩
      simp [hcond, mergesOf, Job.isMergeOf]
  · simp at h

/-- The final status of a roll-up is settled. -/
theorem settled_finalStatus (courses : List MaterialRequestCourse) :
    Settled (finalStatus courses) := by
  unfold finalStatus
  split
  · exact .inr (.inr (.inr rfl))
  · split
    · exact .inr (.inl rfl)
    · exact .inl rfl

/-- A request that merges after it has been settled has been reopened. -/
theorem reopened_of_mergesParent {db : Db} {q : MaterialRequest}
    (hfind : db.requests.find r = some q) (hsettled : Settled q.status)
    (hfinished : allFinished (db.coursesOf r) = true)
    (hmerges : mergesParent (db.requests.find r) (db.coursesOf r) = true) : Reopened r db := by
  rw [hfind] at hmerges
  simp only [mergesParent, parentAlreadyFinalized, Bool.and_eq_true, Bool.not_eq_true',
    decide_eq_true_eq, List.any_eq_false, beq_iff_eq, Bool.or_eq_false_iff,
    beq_eq_false_iff_ne, ne_eq] at hmerges
  obtain ⟨⟨hsucceeded, hseveral⟩, hcompleted, hreview⟩ := hmerges
  refine ⟨hfinished, hsucceeded, hseveral, q, hfind, ?_⟩
  rcases hsettled with h | h | h | h
  · exact absurd h hcompleted
  · exact absurd h hreview
  · exact .inl h
  · exact .inr h

/-- A roll-up leaves a settled request settled, and settles it when all courses have finished. -/
theorem settled_rollUp {db : Db} (hrequest : (db.requests.find r).isSome = true)
    (h : (k = r ∧ allFinished (db.coursesOf r) = true) ∨
      ∃ q, db.requests.find r = some q ∧ Settled q.status) :
    ∃ q, (rollUp k db).requests.find r = some q ∧ Settled q.status := by
  obtain ⟨q, hq⟩ := Option.isSome_iff_exists.mp hrequest
  by_cases hk : k = r
  · subst hk
    set rolled : MaterialRequest :=
      { q with status := finalStatus (db.coursesOf k), version := q.version + 1 } with hrolled
    unfold rollUp
    split
    · split
      · refine ⟨rolled, ?_, settled_finalStatus _⟩
        simp [hrolled, setRequestStatus, find_updateRequest, hq]
      · refine ⟨rolled, ?_, settled_finalStatus _⟩
        simp [hrolled, setMaterialStatus, setRequestStatus, find_updateRequest, hq]
    · rename_i hopen
      rcases h with h | h
      · exact absurd h.2 hopen
      · exact h
  · rw [find_requests_rollUp_of_ne db (fun heq => hk heq.symm)]
    rcases h with h | h
    · exact absurd h.1 hk
    · exact h

end Merges

/-- Commits of others that spare the lock of a request enqueue none of its merges. -/
theorem mergesIn_of_after {r : RequestId} {mine : List Row} {a b : Committed}
    (hmine : .request r ∈ mine) (h : (mergeProtocol r).After mine a b) :
    mergesIn r b = mergesIn r a := by
  refine After.of_guar (R := fun a b => mergesIn r b = mergesIn r a) (fun _ => rfl) ?_ ?_ h
  · exact fun a b c hab hbc => hbc.trans hab
  · exact fun held a b hdisj hguar _ => hguar.2 fun hheld => hdisj hmine hheld

/-- **Step lemma:** a callback that has run its statements enqueues no merge of `r`, or it
is the first one to enqueue it. -/
theorem first_merge {r : RequestId} {cb : Callback} {incoming : CourseMaterialStatus}
    {course : MaterialRequestCourse} {seen : List MaterialQuestionUsage} {t u : Ctx}
    {s v : Committed} (hcall : t.call = .webhook cb) (hinv : MergeInv r v)
    (h : Handled (mergeProtocol r) cb incoming course seen t u s v) :
    mergesOf r u.out = 0 ∨
      mergesOf r u.out = 1 ∧ .request r ∈ u.held ∧ mergesIn r v = 0 ∧
        course.materialRequestId = r ∧
        allFinished ((cb.prepare incoming course seen v.db).coursesOf r) = true := by
  by_cases hnone : mergesOf r u.out = 0
  · exact .inl hnone
  rw [h.out] at hnone ⊢
  obtain ⟨hone, rfl, hcompany, hfinished, hmerges, _⟩ := mergesOf_mergeJobs hnone
  set r := course.materialRequestId
  refine .inr ⟨hone, h.requestHeld, ?_, rfl, hfinished⟩
  by_contra hmerged
  obtain ⟨q, hq, hsettled⟩ := hinv.settled hmerged
  obtain ⟨t₁, v₁, ht₁, hpre, hlog, hafter⟩ := h.locked
  have hguar : ∀ held a b, (mergeProtocol r).Guar held a b → LockFrame held a.db b.db :=
    fun _ _ _ hg => hg.1
  -- what the callback saw at the parent lock is what it sees now
  have hsame := (protected_of_after hguar hafter).sameRollUp (r := r) (List.mem_cons_self ..)
  have hmerged₁ : mergesIn r v₁ ≠ 0 := by
    rw [← mergesIn_of_after (List.mem_cons_self ..) hafter]
    exact hmerged
  have hcourses : (t₁.view v₁).coursesOf r = (cb.prepare incoming course seen v.db).coursesOf r := by
    rw [Context.view, hlog, coursesOf_prepare_congr hsame]
  have hrequest : (t₁.view v₁).requests.find r =
      (cb.prepare incoming course seen v.db).requests.find r := by
    rw [Context.view, hlog, prepare_requests, prepare_requests, hsame.2]
  refine hpre cb (ht₁.trans hcall) hcompany (List.mem_cons_self ..) hmerged₁ ?_
  refine reopened_of_mergesParent (q := q) ?_ hsettled ?_ ?_
  · rw [hrequest, prepare_requests, hq]
  · rw [hcourses, hfinished]
  · rw [hcourses, hrequest, hmerges]

/-- A callback or a review read commits without a merge of `r`. -/
theorem mergeInv_commit {r : RequestId} {v : Committed} {u : Ctx} {a : Outcome}
    (hinv : MergeInv r v) (hnone : mergesOf r (u.out ++ []) = 0)
    (hsettled : ∀ q, v.db.requests.find r = some q → Settled q.status →
      ∃ q', (u.log v.db).requests.find r = some q' ∧ Settled q'.status) :
    MergeInv r (v.commit u a []) := by
  have hmerges : mergesIn r (v.commit u a []) = mergesIn r v := by
    rw [mergesIn_commit, hnone, Nat.add_zero]
  refine ⟨hmerges ▸ hinv.once, fun hne => ?_⟩
  obtain ⟨q, hq, hst⟩ := hinv.settled (hmerges ▸ hne)
  exact hsettled q hq hst

/-- A call that has neither written nor dispatched anything commits. -/
theorem mergeProtocol_nothing {r : RequestId} {v : Committed} {t : Ctx} {a : Outcome}
    (hinv : MergeInv r v) (hlog : ∀ db, t.log db = db) (hout : t.out = []) :
    MergeInv r (v.commit t a []) ∧ (mergeProtocol r).Guar t.held v (v.commit t a []) := by
  have hnone : mergesOf r (t.out ++ []) = 0 := by
    rw [hout]
    rfl
  refine ⟨mergeInv_commit hinv hnone fun q hq hst => ⟨q, by rw [hlog, hq], hst⟩, ?_, ?_⟩
  · intro mine _
    rw [Snapshot.commit_db, hlog]
    exact Protected.refl mine v.db
  · intro _
    rw [mergesIn_commit, hnone, Nat.add_zero]

/-- The request after a review read has saved it as being in review. -/
theorem settled_saveIn {r : RequestId} {q row : MaterialRequest} {reread : MaterialRequest} {n : ℕ}
    {rows : List (MaterialRequestCourse × Option MaterialRequestCourse)} {db : Db}
    (hid : q.id = r) (hfind : db.requests.find r = some row) (hsettled : Settled row.status) :
    ∃ q', (saveIn (inReview q) reread n rows db).requests.find r = some q' ∧
      Settled q'.status := by
  refine ⟨{ saveRequestColumns (inReview q) reread row with version := n }, ?_, ?_⟩
  · have hentity : r = (inReview q).id := hid.symm
    rw [find_requests_saveIn, if_pos hentity, hfind]
    rfl
  · simp only [saveRequestColumns, saved]
    split
    · exact hsettled
    · exact .inr (.inr (.inl rfl))

/-- Callbacks and review reads without late roll-ups follow the protocol. -/
theorem mergeProtocol_sound (orm : Orm) (r : RequestId) :
    (mergeProtocol r).Sound (materials orm)
      (fun s e => Machine.StartsOnly UseCase.IsWebhookOrReview s e ∧ NoLateRollUp s e) where
  starts := by
    intro s call _ hcond
    have hguar : ∀ held a b, (mergeProtocol r).Guar held a b → LockFrame held a.db b.db :=
      fun _ _ _ h => h.1
    have hquiet : ∀ (u : Ctx) wants v, u.out = [] → (mergeProtocol r).Local u wants v :=
      fun u _ _ hout => .inl (by rw [hout]; rfl)
    rcases hcond.1 call rfl with ⟨cb, rfl⟩ | ⟨k, rfl⟩
    · refine wp_webhook hguar (fun u wants v _ hout _ => hquiet u wants v hout) ?_ ?_ ?_ ?_
      · intro t outcome v₀ v _ _ hlog _ hout _ _ _ _ hinv _
        exact mergeProtocol_nothing hinv hlog hout
      · exact fun t jobId incoming course v _ hout _ _ _ _ => hquiet t _ v hout
      · intro t u incoming course seen v₀ v hcall hinv hhandled
        rcases first_merge hcall hinv hhandled with h | ⟨hone, hheld, hnone, _⟩
        · exact .inl h
        · exact .inr ⟨hone, hheld, hnone⟩
      · intro t u event incoming course seen v₀ v hcall _ _ _ _ hload _ hinv hhandled _
        obtain ⟨cur, hcur, hr, _⟩ := hhandled.current hguar hload
        rcases first_merge hcall hinv hhandled with hnone | ⟨hone, hheld, hzero, hreq, hfinished⟩
        · have hnone' : mergesOf r (u.out ++ []) = 0 := by rw [List.append_nil, hnone]
          refine ⟨mergeInv_commit hinv hnone' ?_, hhandled.lockFrame hguar hload, fun _ => ?_⟩
          · intro q hq hst
            rw [hhandled.effect]
            exact settled_rollUp (by simp [hq]) (.inr ⟨q, by simpa using hq, hst⟩)
          · rw [mergesIn_commit, hnone', Nat.add_zero]
        · have hmerged : mergesIn r (v.commit u (.callback (.applied event)) []) = 1 := by
            rw [mergesIn_commit, hzero, List.append_nil, hone]
          refine ⟨⟨Nat.le_of_eq hmerged, fun _ => ?_⟩, hhandled.lockFrame hguar hload,
            fun hnot => absurd hheld hnot⟩
          rw [Snapshot.commit_db, hhandled.effect]
          have hmerges : mergesOf r (cb.mergeJobs course.materialRequestId
              (cb.prepare incoming course seen v.db)) ≠ 0 := by
            rw [← hhandled.out, hone]
            exact Nat.one_ne_zero
          obtain ⟨_, _, _, _, _, hsome⟩ := mergesOf_mergeJobs hmerges
          exact settled_rollUp hsome (.inl ⟨hreq, hfinished⟩)
    · refine wp_review hguar (fun u wants v _ hout => hquiet u wants v hout) ?_ ?_
      · intro t q v₀ v₁ v data _ _ hlog hout _ _ _ _ hinv _ _
        exact mergeProtocol_nothing hinv hlog hout
      · intro t u q n reread rows v₀ v₁ v data _ _ hfind _ _ hinv _ hreviewed _ _ _
        have hid : q.id = k := Db.request_id_of_find hfind
        have hnone : mergesOf r (u.out ++ []) = 0 := by
          rw [hreviewed.out]
          rfl
        refine ⟨mergeInv_commit hinv hnone ?_, hreviewed.lockFrame, fun _ => ?_⟩
        · intro row hrow hst
          rw [hreviewed.log]
          by_cases hk : k = r
          · exact settled_saveIn (hid.trans hk) hrow hst
          · refine ⟨row, ?_, hst⟩
            have hne : ¬r = (inReview q).id := fun heq => hk (hid.symm.trans heq.symm)
            rw [find_requests_saveIn, if_neg hne, hrow]
        · rw [mergesIn_commit, hnone, Nat.add_zero]
  pre := by
    intro s t locks write next hs ht hp hcond cb hcall hcompany hlock hmerged hreopened
    refine hcond.2 t ht rfl r ⟨⟨cb, hcall, hcompany⟩, ?_, ?_, hreopened⟩
    · rw [hp]
      exact hlock
    · rw [System.queue, mergesOf_append]
      exact Nat.ne_of_gt (Nat.add_pos_left (Nat.pos_of_ne_zero hmerged) _)
  preCommit := fun _ _ _ _ _ _ _ => trivial
  stable := by
    intro s t u a hs ht hu hid hp hcond _ hguar
    rcases local_of_wp (hs.wp u hu) with hnone | ⟨hone, hheld, hzero⟩
    · exact .inl hnone
    · refine .inr ⟨hone, hheld, ?_⟩
      have hnot : Row.request r ∉ t.held := fun hmine => hs.exclusive u hu t ht hid hheld hmine
      rw [hguar.2 hnot]
      exact hzero

/-- **The merge is dispatched once** in every round without late roll-ups. -/
theorem mergedOnce_of_noLateRollUp (orm : Orm) : MergedOnce orm NoLateRollUp := by
  intro db r s _ hreach
  have hstart : (mergeProtocol r).Consistent (materials orm) (System.idle db) :=
    consistent_idle ⟨by simp [mergesIn], fun h => absurd rfl h⟩
  have hs := consistent_of_reaches (mergeProtocol_sound orm r) hstart hreach
  have hlocal : ∀ t ∈ s.active, mergesOf r t.out = 0 ∨
      (mergesOf r t.out = 1 ∧ .request r ∈ t.held ∧ mergesIn r s.toSnapshot = 0) :=
    fun t ht => local_of_wp (hs.wp t ht)
  rw [System.queue, mergesOf_append]
  by_cases hout : ∃ t ∈ s.active, mergesOf r t.out ≠ 0
  · obtain ⟨t, ht, hne⟩ := hout
    have hzero : mergesIn r s.toSnapshot = 0 := by
      rcases hlocal t ht with h | h
      · exact absurd h hne
      · exact h.2.2
    have honce : mergesOf r (s.active.flatMap fun t => t.out) ≤ 1 := by
      refine hs.countP_out_le_one (k := .request r) fun u hu => ?_
      rcases hlocal u hu with h | h
      · exact .inl h
      · exact .inr ⟨h.1, h.2.1⟩
    have hcommitted : mergesOf r (s.commits.flatMap Commit.jobs) = 0 := hzero
    omega
  · have hzero : mergesOf r (s.active.flatMap fun t => t.out) = 0 := by
      rw [mergesOf, List.countP_eq_zero]
      intro job hjob hmerge
      obtain ⟨t, ht, hmem⟩ := List.mem_flatMap.mp hjob
      exact hout ⟨t, ht, fun h => List.countP_eq_zero.mp h job hmem hmerge⟩
    have honce : mergesOf r (s.commits.flatMap Commit.jobs) ≤ 1 := hs.inv.once
    omega

/-- One call after another: an empty question bank closes the round with warnings, a review
is opened, and the missing course arrives late. -/
def reopenedRound : List (Event UseCase) :=
  .start (.webhook (report 10 "completed")) :: List.replicate 5 (.exec 0) ++
    .start (.webhook (report 11 "empty_bank")) :: List.replicate 10 (.exec 1) ++
    .start (.review 1) :: List.replicate 6 (.exec 2) ++
    .start (.webhook (report 11 "completed")) :: List.replicate 10 (.exec 3)

/-- The state after the late success. -/
def remergedState : State := (materials .typeOrm).endState (System.idle twoCourses) reopenedRound

/-- A round can merge twice: the review read hides the final state of the request from
the callback that completes the course with the empty bank. -/
theorem not_mergedOnce : ¬MergedOnce .typeOrm (fun _ _ => True) := by
  intro h
  have hstart : RoundStart twoCourses 1 :=
    ⟨requestRow 1 7 .processing, rfl, .inr ⟨rfl, by decide⟩⟩
  have hreach : (materials .typeOrm).Reaches
      (fun s e => Machine.StartsOnly UseCase.IsWebhookOrReview s e ∧ True)
      (System.idle twoCourses) remergedState := by
    refine Machine.reaches_endState (by decide +kernel) fun s e he => ⟨?_, trivial⟩
    rintro call rfl
    simp only [reopenedRound, List.cons_append, List.mem_cons, List.mem_append,
      List.mem_replicate, Event.start.injEq, reduceCtorEq, and_false, false_or, or_false] at he
    rcases he with rfl | (rfl | rfl) | rfl
    · exact .inl ⟨_, rfl⟩
    · exact .inl ⟨_, rfl⟩
    · exact .inr ⟨_, rfl⟩
    · exact .inl ⟨_, rfl⟩
  have htwo : mergesOf 1 remergedState.queue = 2 := by decide +kernel
  have hone := h twoCourses 1 remergedState hstart hreach
  omega

end Odiseo.Materials
