import Odiseo.Database.Outline
import Odiseo.Materials.ReviewAgreement

/-!
# Opening a review

`GetMaterialReviewUseCase` loads a request, sets its status in memory and saves it,
without a lock in between. Nothing but the status can be lost that way, because nobody
else writes the other columns that `save` compares; but a status that another
transaction commits between the load and the update of the row is overwritten. Where no
review updates a row that has moved on, opening a review does nothing else.
-/

namespace Odiseo.Materials

open Database Database.Protocol

/-- The row `q'` is the row `q`, up to its version and a review that has been opened. -/
def Opened (q q' : MaterialRequest) : Prop :=
  q' = { q with status := q'.status, version := q'.version } ∧
    (q'.status = q.status ∨ q.status = .reviewRequired ∧ q'.status = .inReview)

/-- From `a` to `b` no request changes, except that a review has been opened. -/
def OnlyOpened (a b : Db) : Prop :=
  ∀ k, (a.requests.find k = none → b.requests.find k = none) ∧
    ∀ q, a.requests.find k = some q → ∃ q', b.requests.find k = some q' ∧ Opened q q'

/-- In the runs under a condition the commit of a review read does nothing to a request
but to open its review. -/
def OpensOnly (orm : Orm) (cond : State → Event UseCase → Prop) : Prop :=
  ∀ (db : Db) (s s' : State) (t : Transaction UseCase Db Row Job HttpError Outcome) (a : Outcome)
    (r : RequestId),
    (materials orm).Reaches (fun s e => Machine.StartsOnly UseCase.IsCuration s e ∧ cond s e)
      (System.idle db) s →
    t ∈ s.active → t.call = .review r → t.program = .done a → cond s (.exec t.id) →
    (materials orm).step s (.exec t.id) = some s' → OnlyOpened s.db s'.db

/-- A review read that has not found its own status when it read the row again updates a row
that still waits for its review, or is in review. -/
def OpensInTime (orm : Orm) (t : Ctx) (p : Tx Outcome) (db : Db) : Prop :=
  ∀ r entity reread row, t.call = .review r → UpdatesNext orm entity reread p →
    reread.status ≠ .inReview → db.requests.find r = some row →
    row.status = .reviewRequired ∨ row.status = .inReview

/-- No review read updates a request that has moved on. -/
def NoLateOpening (orm : Orm) (s : State) (e : Event UseCase) : Prop :=
  ∀ t ∈ s.active, e = .exec t.id → OpensInTime orm t.toContext t.program s.db

/-- The columns of a request, besides its status, that `save` compares. -/
def MaterialRequest.merged (q : MaterialRequest) : Option Url × Option Url × Option Url :=
  (q.mergedDownloadUrl, q.mergedKeyDownloadUrl, q.mergedSolutionDownloadUrl)

/-- Every request of `a` has the same merged PDFs in `b`. -/
def KeepsMerged (a b : Db) : Prop :=
  ∀ k, (b.requests.find k).map (·.merged) = (a.requests.find k).map (·.merged)

section Merged

variable {a b c db : Db} {k : RequestId}

/-- One change after another. -/
theorem KeepsMerged.trans (hab : KeepsMerged a b) (hbc : KeepsMerged b c) : KeepsMerged a c :=
  fun k => (hbc k).trans (hab k)

/-- The merged PDFs of a request that is found in both databases. -/
theorem KeepsMerged.eq (h : KeepsMerged a b) {q q' : MaterialRequest}
    (hq : a.requests.find k = some q) (hq' : b.requests.find k = some q') :
    q'.merged = q.merged := by
  have hmerged := h k
  rw [hq, hq'] at hmerged
  exact Option.some.inj hmerged

/-- A change of other tables keeps the merged PDFs. -/
theorem KeepsMerged.of_requests (h : b.requests = a.requests) : KeepsMerged a b := by
  intro k
  rw [h]

/-- An update of a request that keeps its merged PDFs. -/
theorem keepsMerged_updateRequest {change : MaterialRequest → MaterialRequest} {hchange}
    (h : ∀ q, db.requests.find k = some q → (change q).merged = q.merged) :
    KeepsMerged db (updateRequest k change hchange db) := by
  intro k'
  rw [find_updateRequest]
  split
  · rename_i heq
    subst heq
    cases hfind : db.requests.find k' with
    | none => rfl
    | some q => simp [h q hfind]
  · rfl

/-- `save` keeps the columns of a row that are in memory as they were read again. -/
theorem merged_saveRequestColumns {entity reread row : MaterialRequest}
    (h : entity.merged = reread.merged) :
    (saveRequestColumns entity reread row).merged = row.merged := by
  simp only [MaterialRequest.merged, Prod.mk.injEq] at h
  obtain ⟨hmerged, hkeys, hsolutions⟩ := h
  simp [saveRequestColumns, MaterialRequest.merged, saved, hmerged, hkeys, hsolutions]

/-- `save` keeps the merged PDFs, when they were read again as they are in memory. -/
theorem keepsMerged_saveIn {entity reread : MaterialRequest} {n : ℕ}
    {rows : List (MaterialRequestCourse × Option MaterialRequestCourse)}
    (h : entity.merged = reread.merged) : KeepsMerged db (saveIn entity reread n rows db) := by
  have hsave : KeepsMerged db (saveRequestIn entity reread n db) :=
    keepsMerged_updateRequest fun q _ => merged_saveRequestColumns h
  exact hsave.trans (.of_requests (saveIn_requests ..))

/-- A roll-up keeps the merged PDFs. -/
theorem keepsMerged_effect (cb : Callback) (incoming : CourseMaterialStatus)
    (course : MaterialRequestCourse) (seen : List MaterialQuestionUsage) :
    KeepsMerged db (cb.effect incoming course seen db) := by
  have hprepared : KeepsMerged db (cb.prepare incoming course seen db) :=
    .of_requests (prepare_requests ..)
  have hrolled : ∀ k db, KeepsMerged db (rollUp k db) := by
    intro k db
    have hset : ∀ status, KeepsMerged db (setRequestStatus k status db) :=
      fun status => keepsMerged_updateRequest fun q _ => rfl
    unfold rollUp
    split
    · split
      · exact hset _
      · exact (hset _).trans (.of_requests rfl)
    · exact .of_requests rfl
  exact hprepared.trans (hrolled _ _)

/-- A draft keeps the merged PDFs. -/
theorem keepsMerged_draft (dto : ApproveReview) :
    KeepsMerged db (editSlots k dto (bumpIn k db)) := by
  have hbump : KeepsMerged db (bumpIn k db) := keepsMerged_updateRequest fun q _ => rfl
  exact hbump.trans (.of_requests (editSlots_requests ..))

/-- An approval keeps the merged PDFs, when it had loaded them as they are. -/
theorem keepsMerged_approveIn {dto : ApproveReview} {a : Approval}
    (h : a.entity.merged = a.reread.merged) : KeepsMerged db (approveIn k dto a db) := by
  have hsave : KeepsMerged (editSlots k dto (bumpIn k db))
      (saveIn a.entity a.reread a.version a.rows (editSlots k dto (bumpIn k db))) :=
    keepsMerged_saveIn h
  exact (keepsMerged_draft dto).trans (hsave.trans (.of_requests (finishIn_requests ..)))

/-- The entity that an approval saves has the merged PDFs that it was loaded with. -/
theorem Decides.merged {dto : ApproveReview} {request entity : MaterialRequest}
    {courses : List MaterialRequestCourse} {empty : Bool} {result : ApprovalResult}
    {updates : List (List CourseRequestId × CourseMaterialStatus)}
    (h : Decides dto request courses empty result entity updates) :
    entity.merged = request.merged := by
  cases h <;> rfl

end Merged

/-- The protocol of the merged PDFs: nobody who curates a request writes them. -/
def mergedProtocol : Protocol UseCase Db Row Job Outcome where
  Inv := fun _ => True
  Guar := fun held a b => LockFrame held a.db b.db ∧ KeepsMerged a.db b.db
  Local := fun _ _ _ => True
  Pre := fun _ _ _ => True
  PreCommit := fun _ _ _ => True

/-- The commits of others keep the merged PDFs. -/
theorem keepsMerged_of_after {mine : List Row} {a b : Committed}
    (h : mergedProtocol.After mine a b) : KeepsMerged a.db b.db := by
  refine After.of_guar (R := fun a b => KeepsMerged a.db b.db) (fun _ _ => rfl) ?_ ?_ h
  · exact fun _ _ _ hab hbc => hab.trans hbc
  · exact fun _ _ _ _ hguar _ => hguar.2

/-- Reviews, drafts, approvals and callbacks follow the protocol. -/
theorem mergedProtocol_sound (orm : Orm) {cond : State → Event UseCase → Prop}
    (hcond : ∀ s e, cond s e → Machine.StartsOnly UseCase.IsCuration s e) :
    mergedProtocol.Sound (materials orm) cond where
  starts := by
    intro s call _ hstart
    have hguar : ∀ held a b, mergedProtocol.Guar held a b → LockFrame held a.db b.db :=
      fun _ _ _ h => h.1
    cases call with
    | generate inputs => exact absurd rfl (hcond _ _ hstart _ rfl inputs)
    | webhook cb =>
      refine wp_webhook hguar (fun _ _ _ _ _ _ => trivial) ?_
        (fun _ _ _ _ _ _ _ _ _ _ _ => trivial) (fun _ _ _ _ _ _ _ _ _ _ => trivial) ?_
      · intro t outcome v₀ v _ _ hlog _ _ _ _ _ _ _ _
        refine ⟨trivial, ?_⟩
        rw [Snapshot.commit, hlog]
        exact ⟨.refl _ v.db, .of_requests rfl⟩
      · intro t u event incoming course seen v₀ v _ _ _ _ _ hload _ _ hhandled _
        refine ⟨trivial, hhandled.lockFrame hguar hload, ?_⟩
        rw [Snapshot.commit_db, hhandled.effect]
        exact keepsMerged_effect cb incoming course seen
    | review k =>
      refine wp_review hguar (fun _ _ _ _ _ => trivial) ?_ ?_
      · intro t q v₀ v₁ v data _ _ hlog _ _ _ _ _ _ _ _
        refine ⟨trivial, ?_⟩
        rw [Snapshot.commit, hlog]
        exact ⟨.refl _ v.db, .of_requests rfl⟩
      · intro t u q n reread rows v₀ v₁ v data _ _ hfind _ _ _ _ hreviewed hreread _ _
        obtain ⟨w, hafter, _, hread⟩ := hreread
        have hsame : (inReview q).merged = reread.merged :=
          ((keepsMerged_of_after hafter).eq hfind hread).symm
        refine ⟨trivial, hreviewed.lockFrame, ?_⟩
        rw [Snapshot.commit_db, hreviewed.log]
        exact keepsMerged_saveIn hsame
    | saveDraft k dto =>
      refine wp_saveDraftCall hguar (fun _ _ _ _ _ => trivial) ?_
      intro t u v₁ v result _ _ _ _ hreviewed _ _
      refine ⟨trivial, hreviewed.lockFrame, ?_⟩
      rw [Snapshot.commit_db, hreviewed.log]
      exact keepsMerged_draft dto
    | approve k dto ctx =>
      refine wp_approveCall hguar (fun _ _ _ _ _ => trivial) ?_
      intro t u q result a v₀ v₁ v _ _ hfind hafter _ happroves hcurrent hreviewed _
      have hbump : KeepsMerged v.db (bumpIn k v.db) := keepsMerged_updateRequest fun q _ => rfl
      have hlate : KeepsMerged v₀.db v.db :=
        keepsMerged_of_after (hafter.trans (hreviewed.locked.mono (by simp)))
      have hsame : a.entity.merged = a.reread.merged :=
        happroves.decides.merged.trans ((hlate.trans hbump).eq hfind hcurrent.reread).symm
      refine ⟨trivial, hreviewed.lockFrame, ?_⟩
      rw [Snapshot.commit_db, hreviewed.log]
      exact keepsMerged_approveIn hsame
  pre := fun _ _ _ _ _ _ _ _ _ => trivial
  preCommit := fun _ _ _ _ _ _ _ => trivial
  stable := fun _ _ _ _ _ _ _ _ _ _ _ _ => trivial

/-- The outline of review reads: the status is written in time, and nothing else is. -/
def openingOutline (orm : Orm) : Outline UseCase Db Row Job HttpError Outcome where
  Pre := fun t p s => OpensInTime orm t p s.db
  Throws := fun _ => True
  Post := fun t _ s => ∀ r, t.call = .review r → OnlyOpened s.db (t.log s.db)

section Opening

variable {orm : Orm} {r : RequestId} {t : Ctx} {s : Committed}

/-- Nothing has changed. -/
theorem OnlyOpened.refl (a : Db) : OnlyOpened a a :=
  fun _ => ⟨fun h => h, fun q hq => ⟨q, hq, rfl, .inl rfl⟩⟩

/-- A change that writes no request. -/
def LeavesRequests (change : Db → Db) : Prop := ∀ db, (change db).requests = db.requests

/-- The cascade of `save` to the courses writes no request. -/
theorem writes_forEach_saveCourse
    (rows : List (MaterialRequestCourse × Option MaterialRequestCourse)) :
    (forEach rows saveCourse).Writes fun _ _ change => LeavesRequests change := by
  induction rows with
  | nil => trivial
  | cons row rows ih =>
    refine Program.Writes.bind ?_ fun _ => ih
    obtain ⟨entity, reread⟩ := row
    unfold saveCourse
    split
    · trivial
    · split
      · trivial
      · refine fun v => ⟨fun db => ?_, trivial⟩
        unfold saveCourseIn
        split
        · rfl
        · split <;> rfl

/-- The end of a review read writes nothing. -/
theorem writes_readQuestions (request : MaterialRequest) :
    (readQuestions request).Writes fun _ _ change => LeavesRequests change :=
  (Program.writes_select (fun _ _ => rfl) _).bind fun _ => trivial

/-- The end of a review read that has updated the request, when the update was in time: until
the commit nobody else writes the row. -/
theorem follows_afterUpdate {q reread : MaterialRequest} {n : ℕ} {rest : Tx Outcome}
    (hlog : ∀ db, (t.log db).requests = (saveRequestIn (inReview q) reread n db).requests)
    (hid : q.id = r) (hheld : .request r ∈ t.held) (hmerged : q.merged = reread.merged)
    (htime : ∀ row, s.db.requests.find r = some row →
      reread.status = .inReview ∨ row.status = .reviewRequired ∨ row.status = .inReview)
    (hrest : rest.Writes fun _ _ change => LeavesRequests change) :
    (openingOutline orm).Follows mergedProtocol rest t s := by
  refine Outline.follows_of_writes (W := LeavesRequests) (fun _ => rfl)
    (fun f g hf hg db => (hg (f db)).trans (hf db)) (fun _ => trivial) hrest ?_
  intro u a v F _ hafter _ hF hlog' r' _ k
  have hrequests : (u.log v.db).requests =
      (saveRequestIn (inReview q) reread n v.db).requests := by
    rw [hlog', hF, hlog]
  have hfind : (u.log v.db).requests.find k = if k = r then
      (v.db.requests.find k).map fun row =>
        { saveRequestColumns (inReview q) reread row with version := n }
      else v.db.requests.find k := by
    rw [hrequests, ← hid]
    exact find_updateRequest _ _ _ _ _
  refine ⟨fun hnone => by simp [hfind, hnone], fun row hrow => ?_⟩
  by_cases hk : k = r
  · subst hk
    refine ⟨_, by rw [hfind, if_pos rfl, hrow]; rfl, ?_⟩
    have hguar : ∀ held a b, mergedProtocol.Guar held a b → LockFrame held a.db b.db :=
      fun _ _ _ h => h.1
    have hlocked : v.db.requests.find k = s.db.requests.find k :=
      (protected_of_after hguar hafter).request k hheld
    have hsame : (inReview q).merged = reread.merged := hmerged
    have hkept : (saveRequestColumns (inReview q) reread row).merged = row.merged :=
      merged_saveRequestColumns hsame
    refine ⟨?_, ?_⟩
    · simp only [MaterialRequest.merged, Prod.mk.injEq, saveRequestColumns] at hkept
      simp only [saveRequestColumns, hkept]
    · by_cases hopened : reread.status = .inReview
      · exact .inl (by simp [saveRequestColumns, saved, inReview, hopened])
      · -- the update writes the status
        have hwritten : (saveRequestColumns (inReview q) reread row).status = .inReview := by
          have hdiffers : ¬MaterialRequestStatus.inReview = reread.status := fun h => hopened h.symm
          simp [saveRequestColumns, saved, inReview, hdiffers]
        rcases htime row (hlocked ▸ hrow) with h | h | h
        · exact absurd h hopened
        · exact .inr ⟨h, hwritten⟩
        · exact .inl (hwritten.trans h.symm)
  · exact ⟨row, by rw [hfind, if_neg hk, hrow], rfl, .inl rfl⟩

/-- The update of the request by a review read, and what follows it. -/
theorem follows_update {q reread : MaterialRequest} {rest : ℕ → Tx Outcome}
    (hcall : t.call = .review r) (hlog : ∀ db, t.log db = db) (hid : q.id = r)
    (hmerged : q.merged = reread.merged)
    (hrest : ∀ n, (rest n).Writes fun _ _ change => LeavesRequests change) :
    (openingOutline orm).Follows mergedProtocol
      ((saveRequestRow orm (inReview q) reread).bind rest) t s := by
  intro v hafter hinv hpre
  have htime : ∀ row, v.db.requests.find r = some row →
      reread.status = .inReview ∨ row.status = .reviewRequired ∨ row.status = .inReview := by
    intro row hrow
    by_cases hopened : reread.status = .inReview
    · exact .inl hopened
    · exact .inr (hpre r (inReview q) reread row hcall ⟨rest, rfl⟩ hopened hrow)
  cases hversion : savedVersion orm (inReview q) reread (t.view v) with
  | none =>
    simp only [hversion]
    trivial
  | some n =>
    simp only [hversion]
    have hheld : Row.request r ∈
        (t.wrote [.request q.id] (saveRequestIn (inReview q) reread n)).held := by
      simp [hid]
    refine follows_afterUpdate (n := n) (fun db => ?_) hid hheld hmerged htime (hrest n)
    rw [Context.wrote_log, hlog]

/-- The transaction of a review read follows the outline. -/
theorem follows_getMaterialReview (hcall : t.call = .review r) (hlog : ∀ db, t.log db = db)
    (hheld : t.held = []) :
    (openingOutline orm).Follows mergedProtocol
      ((getMaterialReview orm r).bind fun d => .done (.review d)) t s := by
  have hview : ∀ v : Committed, t.view v = v.db := fun v => hlog v.db
  have hunwritten : ∀ rest : Tx Outcome,
      rest.Writes (fun _ _ change => LeavesRequests change) → ∀ v,
        (openingOutline orm).Follows mergedProtocol rest t v := by
    intro rest hrest v
    refine Outline.follows_of_writes (W := LeavesRequests) (fun _ => rfl)
      (fun f g hf hg db => (hg (f db)).trans (hf db)) (fun _ => trivial) hrest ?_
    intro u a w F _ _ _ hF hlog' r' _ k
    have hrequests : (u.log w.db).requests = w.db.requests := by
      rw [hlog', hF, hlog]
    rw [hrequests]
    exact OnlyOpened.refl w.db k
  unfold getMaterialReview
  rw [Program.bind_eq, Program.bind_assoc]
  refine Outline.follows_select fun v₀ hafter₀ _ _ => ?_
  rw [hview]
  cases hfind : v₀.db.requests.find r with
  | none => trivial
  | some q =>
    have hid : q.id = r := Db.request_id_of_find hfind
    simp only [Option.map_some]
    by_cases hstatus : q.status = .reviewRequired
    · rw [if_pos hstatus]
      simp only [save, Program.bind_eq, Program.bind_assoc]
      -- the request and its courses are read again
      refine Outline.follows_select fun v₁ hafter₁ _ _ => ?_
      refine Outline.follows_select fun v₂ hafter₂ _ _ => ?_
      rw [hview, hview]
      cases hreread : v₁.db.requests.find q.id with
      | none => trivial
      | some reread =>
        rw [hheld] at hafter₁ hafter₂
        have hsame : q.merged = reread.merged := by
          rw [hid] at hreread
          exact ((keepsMerged_of_after hafter₁).eq hfind hreread).symm
        simp only [Program.bind_assoc]
        refine follows_update hcall hlog hid hsame fun n => ?_
        refine Program.Writes.bind (writes_forEach_saveCourse _) fun _ => ?_
        refine Program.Writes.bind (p := pure n) trivial fun n => ?_
        refine Program.Writes.bind (writes_readQuestions _) fun _ => ?_
        trivial
    · rw [if_neg hstatus]
      refine hunwritten _ (Program.Writes.bind (writes_readQuestions q) fun _ => ?_) v₀
      trivial

end Opening

/-- Review reads follow the outline when no opening is late. -/
theorem openingOutline_sound (orm : Orm) :
    (openingOutline orm).Sound mergedProtocol (materials orm)
      (fun s e => Machine.StartsOnly UseCase.IsCuration s e ∧ NoLateOpening orm s e) where
  starts := by
    intro s call _ _
    by_cases hreview : ∃ r, call = .review r
    · obtain ⟨r, rfl⟩ := hreview
      exact follows_getMaterialReview rfl (fun _ => rfl) rfl
    · refine Outline.follows_of_post (fun _ => trivial) ?_
      exact fun u a v hcall r hr => absurd ⟨r, hcall.symm.trans hr⟩ hreview
  pre := fun _ t _ ht hcond => hcond.2 t ht rfl

/-- **Opening a review does nothing else** in every run in which no review read updates a
request that has moved on. -/
theorem opensOnly_of_noLateOpening (orm : Orm) : OpensOnly orm (NoLateOpening orm) := by
  intro db s s' t a r hreach ht hcall hdone _ hstep
  have hsound : mergedProtocol.Sound (materials orm)
      (fun s e => Machine.StartsOnly UseCase.IsCuration s e ∧ NoLateOpening orm s e) :=
    mergedProtocol_sound orm fun _ _ h => h.1
  have hs := Outline.outlined_of_reaches hsound (openingOutline_sound orm)
    (Outline.outlined_idle trivial) hreach
  have hcommit : s'.db = t.log s.db := by
    simp only [Machine.step, hs.consistent.find_of_mem ht, hdone, Option.some.injEq] at hstep
    rw [← hstep]
    rfl
  rw [hcommit]
  exact hs.post ht hdone r hcall

/-- A review is opened: the request is loaded, and an approval commits before it is saved. -/
def overtakenOpening : List (Event UseCase) :=
  [.start (.review 1), .exec 0, .start (.approve 1 ⟨1, true, [], []⟩ ⟨1, 1⟩)] ++
    List.replicate 12 (.exec 1) ++ List.replicate 5 (.exec 0)

/-- The state before the commit of the review read. -/
def overtakenState : State := (materials .typeOrm).endState (System.idle reviewDb) overtakenOpening

/-- Opening a review can undo an approval: the request that is being processed goes back into
review. -/
theorem not_opensOnly : ¬OpensOnly .typeOrm (fun _ _ => True) := by
  intro h
  have hreach : (materials .typeOrm).Reaches
      (fun s e => Machine.StartsOnly UseCase.IsCuration s e ∧ True)
      (System.idle reviewDb) overtakenState := by
    refine Machine.reaches_endState (by decide +kernel) fun s e he => ⟨?_, trivial⟩
    rintro call rfl
    simp only [overtakenOpening, List.cons_append, List.nil_append, List.mem_cons,
      List.mem_append, List.mem_replicate, Event.start.injEq, reduceCtorEq, and_false, or_false,
      false_or] at he
    rcases he with rfl | rfl
    · exact fun _ h => by cases h
    · exact fun _ h => by cases h
  obtain ⟨t, hfind⟩ := Option.isSome_iff_exists.mp
    (show (overtakenState.find 0).isSome = true by decide +kernel)
  obtain ⟨ht, hid⟩ := System.of_find hfind
  have hcall : (overtakenState.find 0).map (·.call) = some (.review 1) := by decide +kernel
  have hended : (overtakenState.find 0).map (·.program.isDone) = some true := by decide +kernel
  rw [hfind, Option.map_some, Option.some.injEq] at hcall hended
  obtain ⟨a, hdone⟩ := Program.isDone_iff.mp hended
  obtain ⟨s', hs'⟩ := Option.isSome_iff_exists.mp
    (show ((materials .typeOrm).step overtakenState (.exec 0)).isSome = true by decide +kernel)
  have hopened := h reviewDb overtakenState s' t a 1 hreach ht hcall hdone trivial (by rw [hid, hs'])
  -- the approval has committed, and the review read puts the request back
  have hbefore : (overtakenState.db.requests.find 1).map (·.status) = some .processing := by
    decide +kernel
  have hafter : ((materials .typeOrm).step overtakenState (.exec 0)).map (fun s =>
      (s.db.requests.find 1).map (·.status)) = some (some .inReview) := by decide +kernel
  rw [hs', Option.map_some, Option.some.injEq] at hafter
  obtain ⟨q, hq, hstatus⟩ := Option.map_eq_some_iff.mp hbefore
  obtain ⟨q', hq', _, hchange⟩ := (hopened 1).2 q hq
  rw [hq', Option.map_some, Option.some.injEq] at hafter
  rw [hafter, hstatus] at hchange
  rcases hchange with heq | ⟨heq, _⟩
  · cases heq
  · cases heq

end Odiseo.Materials
