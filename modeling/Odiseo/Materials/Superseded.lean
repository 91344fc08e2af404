import Odiseo.Materials.GenerateSpec
import Odiseo.Materials.RollUp

/-!
# Late results of a superseded request

A regeneration points its material at the new request and clears the ledger of the
earlier ones. Callbacks do not look at that link: a worker that answers late for a
course of an earlier request writes its ledger rows again and rolls its request up
into the material. Where no callback for a superseded request reaches its commit with
ledger rows or with another status for the material, superseded requests are inert.
-/

namespace Odiseo.Materials

open Database Database.Protocol

/-- A callback, or a generation. -/
def UseCase.IsWebhookOrGenerate (call : UseCase) : Prop :=
  call.IsWebhook ∨ ∃ g, call = .generate g

/-- Request `r` of material `m` has been superseded: the material points at another one. -/
def Superseded (r : RequestId) (m : MaterialId) (db : Db) : Prop :=
  ∃ q mat latest, db.requests.find r = some q ∧ q.materialId = some m ∧
    db.materials.find m = some mat ∧ mat.latestRequestId = some latest ∧ latest ≠ r

/-- From `a` to `b` the material `m` keeps its status, and no ledger row of request `r`
is created. -/
structure Inert (r : RequestId) (m : MaterialId) (a b : Db) : Prop where
  status : (b.materials.find m).map (·.status) = (a.materials.find m).map (·.status)
  usages : ∀ u ∈ b.usages.rows, u.materialRequestId = r → u ∈ a.usages.rows

/-- In the runs under a condition no step of a callback for a course of a superseded
request changes the material or creates ledger rows of the request. -/
def SupersededInert (orm : Orm) (cond : State → Event UseCase → Prop) : Prop :=
  ∀ (db : Db) (r : RequestId) (m : MaterialId) (s s' s'' : State) (cb : Callback)
    (t : Transaction UseCase Db Row Job HttpError Outcome) (course : MaterialRequestCourse),
    (materials orm).Reaches
      (fun s e => Machine.StartsOnly UseCase.IsWebhookOrGenerate s e ∧ cond s e)
      (System.idle db) s →
    Superseded r m s.db →
    (materials orm).Reaches
      (fun s e => Machine.StartsOnly UseCase.IsWebhookOrGenerate s e ∧ cond s e) s s' →
    t ∈ s'.active → t.call = .webhook cb → cb.statusData.jobId = some course.id →
    s'.db.courses.find course.id = some course → course.materialRequestId = r →
    cond s' (.exec t.id) → (materials orm).step s' (.exec t.id) = some s'' →
    Inert r m s'.db s''.db

/-- The courses of the request of `course`, with the status that the callback reports. -/
def Callback.siblings (cb : Callback) (incoming : CourseMaterialStatus)
    (course : MaterialRequestCourse) (db : Db) : List MaterialRequestCourse :=
  (cb.writeCourse incoming course.id db).coursesOf course.materialRequestId

/-- A callback that has claimed a course of a superseded request brings no ledger rows,
and if it completes the request, the material has its final status already. -/
def LateResultHarmless (t : Ctx) (db : Db) : Prop :=
  ∀ cb incoming course m, t.call = .webhook cb → cb.Reports course.id incoming →
    .course course.id ∈ t.held → db.courses.find course.id = some course →
    Superseded course.materialRequestId m db →
    cb.writesLedger incoming = false ∧
      (allFinished (cb.siblings incoming course db) = true →
        (db.materials.find m).map (·.status) = some (finalStatus (cb.siblings incoming course db)))

/-- No callback commits a late result that is not harmless. -/
def NoLateResult (s : State) (e : Event UseCase) : Prop :=
  ∀ t ∈ s.active, e = .exec t.id → t.program.isDone = true → LateResultHarmless t.toContext s.db

/-- The protocol of callbacks and generations: superseded requests stay superseded, and
what a callback commits for one of them is inert. -/
def supersededProtocol : Protocol UseCase Db Row Job Outcome where
  Inv := fun _ => True
  Guar := fun held a b => LockFrame held a.db b.db ∧
    (∀ r m, Superseded r m a.db → Superseded r m b.db) ∧
    ∀ commit cb course m, b.commits = a.commits ++ [commit] → commit.call = .webhook cb →
      cb.statusData.jobId = some course.id → a.db.courses.find course.id = some course →
      Superseded course.materialRequestId m a.db →
      Inert course.materialRequestId m a.db b.db
  Local := fun _ _ _ => True
  Pre := fun _ _ _ => True
  PreCommit := fun t _ s => LateResultHarmless t s.db

section Superseded

variable {r : RequestId} {m : MaterialId} {a b db : Db}

/-- A request stays superseded when the link of its material stays, or moves to a request
that did not exist before. -/
theorem Superseded.keep {held : List Row} (h : Superseded r m a) (hframe : LockFrame held a b)
    (hlatest : ∀ mat x, a.materials.find m = some mat → mat.latestRequestId = some x →
      ∃ mat' y, b.materials.find m = some mat' ∧ mat'.latestRequestId = some y ∧
        (y = x ∨ a.requests.find y = none)) : Superseded r m b := by
  obtain ⟨q, mat, x, hq, hm, hmat, hx, hne⟩ := h
  obtain ⟨q', hq', hm'⟩ := (hframe [] (by simp)).material r q hq
  obtain ⟨mat', y, hmat', hy, hmoved⟩ := hlatest mat x hmat hx
  refine ⟨q', mat', y, hq', hm'.trans hm, hmat', hy, ?_⟩
  rintro rfl
  rcases hmoved with heq | hfresh
  · exact hne heq.symm
  · rw [hq] at hfresh
    cases hfresh

/-- A roll-up keeps the link of every material. -/
theorem latest_rollUp {k : RequestId} {mat : Material} (h : db.materials.find m = some mat) :
    ∃ mat', (rollUp k db).materials.find m = some mat' ∧
      mat'.latestRequestId = mat.latestRequestId := by
  unfold rollUp
  split
  · split
    · exact ⟨mat, h, rfl⟩
    · rename_i m' _
      by_cases hm : m = m'
      · subst hm
        simp [setMaterialStatus, setRequestStatus, find_updateMaterial, h]
      · simp [setMaterialStatus, setRequestStatus, find_updateMaterial, hm, h]
  · exact ⟨mat, h, rfl⟩

/-- The status of the material of a request after its roll-up. -/
theorem status_rollUp {q : MaterialRequest} (hq : db.requests.find r = some q)
    (hm : q.materialId = some m) :
    ((rollUp r db).materials.find m).map (·.status) =
      if allFinished (db.coursesOf r) then
        (db.materials.find m).map fun _ => finalStatus (db.coursesOf r)
      else (db.materials.find m).map (·.status) := by
  have hlink : (db.requests.find r).bind MaterialRequest.materialId = some m := by
    rw [hq]
    exact hm
  unfold rollUp
  split
  · rw [hlink]
    simp [setMaterialStatus, setRequestStatus, find_updateMaterial, Function.comp_def]
  · rfl

/-- **Step lemma:** a harmless late result is inert. -/
theorem inert_effect {t : Ctx} {cb : Callback} {incoming : CourseMaterialStatus}
    {course cur : MaterialRequestCourse} {seen : List MaterialQuestionUsage}
    (hharmless : LateResultHarmless t db) (hcall : t.call = .webhook cb)
    (hreports : cb.Reports course.id incoming) (hheld : .course course.id ∈ t.held)
    (hcur : db.courses.find course.id = some cur)
    (hr : cur.materialRequestId = course.materialRequestId)
    (hsuperseded : Superseded cur.materialRequestId m db) :
    Inert cur.materialRequestId m db (cb.effect incoming course seen db) := by
  have hid : cur.id = course.id := Db.course_id_of_find hcur
  obtain ⟨hledger, hstatus⟩ := hharmless cb incoming cur m hcall (by rwa [hid])
    (by rwa [hid]) (by rwa [hid]) hsuperseded
  obtain ⟨q, mat, _, hq, hm, hmat, _⟩ := hsuperseded
  have hsiblings : (cb.prepare incoming course seen db).coursesOf course.materialRequestId =
      cb.siblings incoming cur db := by
    simp only [Callback.siblings, Db.coursesOf, prepare_courses, hid, hr]
  refine ⟨?_, ?_⟩
  · have hrequest : (cb.prepare incoming course seen db).requests.find course.materialRequestId =
        some q := by rw [prepare_requests, ← hr, hq]
    have hrolled := status_rollUp hrequest hm
    rw [Callback.effect, hrolled, hsiblings, prepare_materials]
    split
    · rename_i hfinished
      rw [hstatus hfinished, hmat, Option.map_some]
    · rfl
  · intro u hu _
    rw [Callback.effect, rollUp_usages, Callback.prepare, Callback.ledger, hledger] at hu
    exact hu

end Superseded

/-- Callbacks and generations follow the protocol when no late result is harmful. -/
theorem supersededProtocol_sound (orm : Orm) :
    supersededProtocol.Sound (materials orm)
      (fun s e => Machine.StartsOnly UseCase.IsWebhookOrGenerate s e ∧ NoLateResult s e) where
  starts := by
    intro s call _ hcond
    have hguar : ∀ held a b, supersededProtocol.Guar held a b → LockFrame held a.db b.db :=
      fun _ _ _ h => h.1
    rcases hcond.1 call rfl with ⟨cb, rfl⟩ | ⟨g, rfl⟩
    · refine wp_webhook hguar (fun _ _ _ _ _ _ => trivial) ?_
        (fun _ _ _ _ _ _ _ _ _ _ _ => trivial) (fun _ _ _ _ _ _ _ _ _ _ => trivial) ?_
      · intro t outcome v₀ v _ _ hlog _ _ _ _ _ _ _ _
        have hdb : (v.commit t (.callback outcome) []).db = v.db := hlog v.db
        refine ⟨trivial, ?_, ?_, ?_⟩
        · rw [hdb]
          exact .refl _ v.db
        · rw [hdb]
          exact fun _ _ h => h
        · intro _ _ _ _ _ _ _ _ _
          rw [hdb]
          exact ⟨rfl, fun _ hu _ => hu⟩
      · intro t u event incoming course seen v₀ v hcall _ hreports _ _ hload _ _ hhandled hpre
        obtain ⟨cur, hcur, hr, _⟩ := hhandled.current hguar hload
        have hframe := hhandled.lockFrame hguar hload
        have hdb : (v.commit u (.callback (.applied event)) []).db =
            cb.effect incoming course seen v.db := hhandled.effect
        have hucall : u.call = .webhook cb := hhandled.call.trans hcall
        refine ⟨trivial, hframe, ?_, ?_⟩
        · intro r m hsuperseded
          refine hsuperseded.keep hframe fun mat x hmat hx => ?_
          rw [hdb]
          obtain ⟨mat', hmat', hlatest⟩ :=
            latest_rollUp (k := course.materialRequestId)
              (show (cb.prepare incoming course seen v.db).materials.find m = some mat by
                rw [prepare_materials, hmat])
          exact ⟨mat', x, hmat', hlatest.trans hx, .inl rfl⟩
        · intro commit cb' row m hcommits hcommit hjob hrow hsuperseded
          obtain rfl : cb' = cb := by
            rw [Snapshot.commit_commits, List.append_cancel_left_eq, List.cons.injEq] at hcommits
            rw [← hcommits.1, hucall] at hcommit
            cases hcommit
            rfl
          have hid : row.id = course.id := by
            rw [hreports.1] at hjob
            exact (Option.some.inj hjob).symm
          rw [hid, hcur] at hrow
          cases hrow
          rw [hdb]
          exact inert_effect hpre hucall hreports hhandled.courseHeld hcur hr hsuperseded
    · refine wp_generateCall hguar (fun _ _ _ _ _ => trivial) ?_
      intro t u c v hcall _ _ hgenerated _
      have hframe := hgenerated.lockFrame
      refine ⟨trivial, hframe, ?_, ?_⟩
      · intro r m hsuperseded
        refine hsuperseded.keep hframe fun mat x hmat hx => ?_
        obtain ⟨mat', y, hmat', hy, hmoved⟩ := latest_createIn g c v.db hgenerated.linked hmat hx
        refine ⟨mat', y, by rw [Snapshot.commit_db, hgenerated.log, hmat'], hy, ?_⟩
        rcases hmoved with rfl | rfl
        · exact .inl rfl
        · exact .inr hgenerated.request.2
      · intro commit cb _ _ hcommits hcommit
        rw [Snapshot.commit_commits, List.append_cancel_left_eq, List.cons.injEq] at hcommits
        rw [← hcommits.1, hgenerated.call, hcall] at hcommit
        cases hcommit
  pre := fun _ _ _ _ _ _ _ _ _ => trivial
  preCommit := by
    intro s t a _ ht hp hcond
    exact hcond.2 t ht rfl (by rw [hp]; rfl)
  stable := fun _ _ _ _ _ _ _ _ _ _ _ _ => trivial

/-- **Run lemma:** once superseded, a request stays superseded. -/
theorem superseded_of_reaches {orm : Orm} {r : RequestId} {m : MaterialId} {s s' : State}
    (hs : supersededProtocol.Consistent (materials orm) s) (hsuperseded : Superseded r m s.db)
    (hreach : (materials orm).Reaches
      (fun s e => Machine.StartsOnly UseCase.IsWebhookOrGenerate s e ∧ NoLateResult s e) s s') :
    Superseded r m s'.db := by
  induction hreach with
  | refl => exact hsuperseded
  | tail hmid hstep ih =>
    obtain ⟨e, hcond, hstep⟩ := hstep
    have hmid := consistent_of_reaches (supersededProtocol_sound orm) hs hmid
    rcases guar_of_step (supersededProtocol_sound orm) hmid hcond hstep with heq | ⟨_, hguar⟩
    · rw [heq]
      exact ih
    · exact hguar.2.1 r m ih

/-- **Superseded requests are inert** in every run without harmful late results. -/
theorem supersededInert_of_noLateResult (orm : Orm) : SupersededInert orm NoLateResult := by
  intro db r m s s' s'' cb t course hreach hsuperseded hlater ht hcall hjob hcourse hr hcond hstep
  subst hr
  have hsound := supersededProtocol_sound orm
  have hs := consistent_of_reaches hsound (consistent_idle trivial) hreach
  have hs' := consistent_of_reaches hsound hs hlater
  have hstays := superseded_of_reaches hs hsuperseded hlater
  have hallowed : Machine.StartsOnly UseCase.IsWebhookOrGenerate s' (.exec t.id) ∧
      NoLateResult s' (.exec t.id) := by
    refine ⟨?_, hcond⟩
    intro call hstart
    cases hstart
  have hunchanged : s''.toSnapshot = s'.toSnapshot →
      Inert course.materialRequestId m s'.db s''.db := by
    intro heq
    rw [heq]
    exact ⟨rfl, fun _ hu _ => hu⟩
  generalize he : Event.exec t.id = e at hstep
  cases Machine.moves_of_step hstep with
  | start call => cases he
  | commit t' a ht' hp =>
    obtain rfl : t = t' := hs'.eq_of_id ht ht' (Event.exec.inj he)
    obtain ⟨_, hguar⟩ := commit_of_consistent hsound hs' ht hp hallowed
    exact hguar.2.2 _ cb course m rfl hcall hjob hcourse hstays
  | statement t' locks write next ht' hp hfree => exact hunchanged rfl
  | enqueue t' job next ht' hp => exact hunchanged rfl
  | rollback _ t' ht' => exact hunchanged rfl

/-- A new generation of one course for the material of `twoCourses`. -/
def regeneration : GenerateInputs :=
  { tenantId := 1
    profileId := 1
    weekNumber := 1
    requiresReview := false
    templateName := "Material"
    cycleId := 1
    company := none
    designTemplateId := none
    courses := [(⟨5, [], [], none⟩, 20)]
    slots := []
    newMaterialId := 8
    newRequestId := 2 }

/-- The result of course 10 of the first request, with one question. -/
def lateResult : Callback :=
  { report 10 "completed" with questionUsages := [⟨1, 100, 3, 4, 1, false⟩] }

/-- The state after the regeneration. -/
def regeneratedState : State :=
  (materials .typeOrm).endState (System.idle twoCourses)
    (.start (.generate regeneration) :: List.replicate 10 (.exec 0))

/-- The state before the commit of the late result. -/
def lateState : State :=
  (materials .typeOrm).endState regeneratedState
    (.start (.webhook lateResult) :: List.replicate 6 (.exec 1))

/-- A superseded request is not inert: its worker answers after the regeneration, and the
question that the regeneration has freed is in the ledger again. -/
theorem not_supersededInert : ¬SupersededInert .typeOrm (fun _ _ => True) := by
  intro h
  have hfirst : (materials .typeOrm).Reaches
      (fun s e => Machine.StartsOnly UseCase.IsWebhookOrGenerate s e ∧ True)
      (System.idle twoCourses) regeneratedState := by
    refine Machine.reaches_endState (by decide +kernel) fun s e he => ⟨?_, trivial⟩
    rintro call rfl
    simp only [List.mem_cons, List.mem_replicate, Event.start.injEq, reduceCtorEq, and_false,
      or_false] at he
    exact .inr ⟨_, he⟩
  have hsecond : (materials .typeOrm).Reaches
      (fun s e => Machine.StartsOnly UseCase.IsWebhookOrGenerate s e ∧ True)
      regeneratedState lateState := by
    refine Machine.reaches_endState (by decide +kernel) fun s e he => ⟨?_, trivial⟩
    rintro call rfl
    simp only [List.mem_cons, List.mem_replicate, Event.start.injEq, reduceCtorEq, and_false,
      or_false] at he
    exact .inl ⟨_, he⟩
  have hsuperseded : Superseded 1 7 regeneratedState.db :=
    ⟨requestRow 1 7 .processing, materialRow 7 .processing 2, 2, by decide +kernel, rfl,
      by decide +kernel, rfl, by decide⟩
  obtain ⟨t, ht⟩ := Option.isSome_iff_exists.mp
    (show (lateState.find 1).isSome = true by decide +kernel)
  obtain ⟨hactive, hid⟩ := System.of_find ht
  have hcall : (lateState.find 1).map (·.call) = some (.webhook lateResult) := by decide +kernel
  rw [ht, Option.map_some, Option.some.injEq] at hcall
  obtain ⟨s, hs⟩ := Option.isSome_iff_exists.mp
    (show ((materials .typeOrm).step lateState (.exec 1)).isSome = true by decide +kernel)
  have hledger : ((materials .typeOrm).step lateState (.exec 1)).map (fun s =>
      s.db.usages.rows.map (·.materialRequestId)) = some [1] := by decide +kernel
  rw [hs, Option.map_some, Option.some.injEq] at hledger
  have hinert := h twoCourses 1 7 regeneratedState lateState s lateResult t
    (courseRow 10 1 5 .processing) hfirst hsuperseded hsecond hactive hcall rfl (by decide +kernel)
    rfl trivial (by rw [hid]; exact hs)
  -- the ledger was empty before the commit
  have hempty : lateState.db.usages.rows = [] := by decide +kernel
  obtain ⟨u, hu, hr⟩ := List.mem_map.mp (hledger ▸ List.mem_singleton_self 1)
  have hold := hinert.usages u hu hr
  rw [hempty] at hold
  cases hold

end Odiseo.Materials
