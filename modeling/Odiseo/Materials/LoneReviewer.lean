import Odiseo.Materials.ReviewAgreement

/-!
# A lone reviewer conflicts with themself

In a session of one tab every edit is sent as a draft, which counts the version of the
request up, while the tab keeps the version that it fetched. The first draft is
accepted; from then on the version of the tab is stale, and every later draft and the
approval are refused. A session without edits has no conflict.
-/

namespace Odiseo.Materials

open Database Database.Protocol

/-- An edit that the reviewer makes in the list. -/
inductive Edit
  /-- `handleQuestionSelected`. -/
  | replace (item : ReplacementItem)
  /-- `confirmRemove`. -/
  | remove (id : SlotId)

/-- The handler of an edit. -/
def Client.edit (c : Client) : Edit → Client × Option UseCase
  | .replace item => c.handleQuestionSelected item
  | .remove id => c.confirmRemove id

/-- A tab with nobody else on the server, and the answers to its drafts and approvals. -/
structure Session where
  client : Client
  db : Db
  answers : List (Except HttpError Outcome)

/-- The server runs one call alone. A call that throws is rolled back. -/
def serve (orm : Orm) (db : Db) (call : UseCase) : Except HttpError Outcome × Db :=
  match ((materials orm).program call).run db with
  | .ok (answer, db', _) => (.ok answer, db')
  | .error e => (.error e, db)

/-- The answer is the refusal of a version. -/
def isConflict : Except HttpError Outcome → Bool
  | .error (.conflict _) => true
  | _ => false

namespace Session

/-- A request of the tab is served. -/
def send (orm : Orm) (s : Session) : Option UseCase → Session
  | none => s
  | some call =>
    { s with db := (serve orm s.db call).2, answers := s.answers ++ [(serve orm s.db call).1] }

/-- The reviewer makes an edit, and the tab sends its draft. -/
def edit (orm : Orm) (s : Session) (e : Edit) : Session :=
  { s with client := (s.client.edit e).1 }.send orm (s.client.edit e).2

/-- The tab opens the review of a request. -/
def opened (orm : Orm) (client : Client) (r : RequestId) (saved : Option LocalEdits) (db : Db) :
    Session :=
  let client := client.fetchReviewData r saved
  match serve orm db (.review r) with
  | (.ok (.review data), db') => ⟨client.reviewFetched data, db', []⟩
  | (_, db') => ⟨client, db', []⟩

/-- The reviewer approves. -/
def approve (orm : Orm) (s : Session) (ctx : MaterialReviewContext) : Session :=
  s.send orm (s.client.handleApprove ctx)

/-- One session: the review is opened, edited and approved, each request being served
before the next one. -/
def run (orm : Orm) (client : Client) (r : RequestId) (saved : Option LocalEdits)
    (edits : List Edit) (ctx : MaterialReviewContext) (db : Db) : Session :=
  (edits.foldl (edit orm) (opened orm client r saved db)).approve orm ctx

/-- A draft or the approval was refused because of its version. -/
def conflicts (s : Session) : Bool := s.answers.any isConflict

end Session

/-- The request can be reviewed: its review read answers. -/
def Reviewable (orm : Orm) (r : RequestId) (db : Db) : Prop :=
  ∃ data, (serve orm db (.review r)).1 = .ok (.review data)

/-- No session of a lone reviewer ends in a conflict. -/
def NeverConflicts (orm : Orm) : Prop :=
  ∀ (client : Client) (r : RequestId) (saved : Option LocalEdits) (edits : List Edit)
    (ctx : MaterialReviewContext) (db : Db), Reviewable orm r db →
    (Session.run orm client r saved edits ctx db).conflicts = false

section Conflicts

/-- The error is no refusal of a version. -/
def NoConflict (e : HttpError) : Prop := ∀ message, e ≠ .conflict message

variable {orm : Orm}

/-- A loop throws what its body throws. -/
theorem throwsOnly_forEach {β : Type} {xs : List β} {f : β → Tx Unit}
    (hf : ∀ x, (f x).ThrowsOnly NoConflict) : (forEach xs f).ThrowsOnly NoConflict := by
  induction xs with
  | nil => trivial
  | cons x xs ih => exact (hf x).bind fun _ => ih

/-- `save` refuses no version. -/
theorem throwsOnly_save (entity : MaterialRequest) (courses : List MaterialRequestCourse) :
    (save orm entity courses).ThrowsOnly NoConflict := by
  refine Program.ThrowsOnly.bind (fun _ => trivial) fun reread => ?_
  refine Program.ThrowsOnly.bind (fun _ => trivial) fun rereadCourses => ?_
  cases reread with
  | none =>
    intro message h
    cases h
  | some reread =>
    refine Program.ThrowsOnly.bind ?_ fun n => ?_
    · refine Program.ThrowsOnly.bind (fun _ => trivial) fun version => ?_
      cases version with
      | none =>
        intro message h
        cases h
      | some n => trivial
    · refine Program.ThrowsOnly.bind (throwsOnly_forEach ?_) fun _ => trivial
      rintro ⟨entity, reread⟩
      cases reread with
      | none => trivial
      | some reread =>
        change Program.ThrowsOnly NoConflict (if entity = reread then _ else _)
        split
        · trivial
        · exact fun _ => trivial

/-- The status updates of an approval refuse no version. -/
theorem throwsOnly_updateMaterialStatus (request : MaterialRequest)
    (status : MaterialRequestStatus) :
    (updateMaterialStatus request status).ThrowsOnly NoConflict := by
  unfold updateMaterialStatus
  split
  · trivial
  · exact fun _ => trivial

/-- The status updates of an approval refuse no version. -/
theorem throwsOnly_updateCourseStatuses (ids : List CourseRequestId)
    (status : CourseMaterialStatus) :
    (updateCourseStatuses ids status).ThrowsOnly NoConflict := by
  unfold updateCourseStatuses
  split
  · trivial
  · exact fun _ => trivial

/-- Collecting the jobs throws nothing. -/
theorem throwsOnly_collectJobs {ctx : MaterialReviewContext} {request : MaterialRequest}
    {company : Option Company} {template : Option CycleMaterialTemplate}
    (courses : List MaterialRequestCourse) :
    (collectJobs ctx request company template courses).ThrowsOnly NoConflict := by
  induction courses with
  | nil => trivial
  | cons course courses ih =>
    refine Program.ThrowsOnly.bind (fun _ => trivial) fun syllabus => ?_
    cases template with
    | none => exact ih.bind fun _ => trivial
    | some template =>
      cases syllabus with
      | none => exact ih.bind fun _ => trivial
      | some syllabus => exact fun _ => ih.bind fun _ => trivial

/-- Once the version has been accepted, an approval is not refused for its version. -/
theorem throwsOnly_decideApproval (dto : ApproveReview) (ctx : MaterialReviewContext)
    (request : MaterialRequest) (courses : List MaterialRequestCourse) :
    (decideApproval orm dto ctx request courses).ThrowsOnly NoConflict := by
  refine Program.ThrowsOnly.bind (fun _ => trivial) fun updatedQuestions => ?_
  split
  · intro message h
    cases h
  · split
    · refine (throwsOnly_save _ courses).bind fun _ => ?_
      refine (throwsOnly_updateMaterialStatus _ _).bind fun _ => ?_
      refine (throwsOnly_updateCourseStatuses _ _).bind fun _ => ?_
      exact (throwsOnly_updateCourseStatuses _ _).bind fun _ => trivial
    · refine (throwsOnly_save _ courses).bind fun _ => ?_
      refine (throwsOnly_updateMaterialStatus _ _).bind fun _ v₁ v₂ => ?_
      refine (throwsOnly_updateCourseStatuses _ _).bind fun _ => ?_
      exact (throwsOnly_collectJobs courses).bind fun _ => trivial

end Conflicts

section Serve

variable {orm : Orm} {r : RequestId} {db : Db}

/-- The optimistic guard alone on the database. -/
theorem run_bumpVersion (version : ℕ) : (bumpVersion r version).run db =
    if versionMatches r version db then .ok ((), bumpIn r db, [])
    else .error (.conflict
      "El material ya está siendo revisado por otro administrador o su estado ha cambiado") := by
  by_cases h : versionMatches r version db = true
  · simp [bumpVersion, Program.write, Program.bind, Program.run, h]
  · simp [bumpVersion, Program.write, Program.bind, Program.run, Program.throw, h]

/-- A loop of updates alone on the database. -/
theorem run_forEach {β : Type} {f : β → Tx Unit} {F : Db → β → Db}
    (hf : ∀ x db, (f x).run db = .ok ((), F db x, [])) (xs : List β) (db : Db) :
    (forEach xs f).run db = .ok ((), xs.foldl F db, []) := by
  induction xs generalizing db with
  | nil => rfl
  | cons x xs ih =>
    change ((f x).bind fun _ => forEach xs f).run db = _
    rw [Program.run_bind, hf]
    simp [ih]

/-- The slot updates alone on the database. -/
theorem run_applyEdits (dto : ApproveReview) (db : Db) :
    (applyEdits r dto).run db = .ok ((), editSlots r dto db, []) := by
  have hreplace : ∀ db, (forEach dto.replacements (replaceSlot r)).run db =
      .ok ((), dto.replacements.foldl (replaceIn r) db, []) := run_forEach (fun _ _ => rfl) _
  have hremove : ∀ db, (forEach dto.removals (removeSlot r)).run db =
      .ok ((), dto.removals.foldl (removeIn r) db, []) := run_forEach (fun _ _ => rfl) _
  change ((forEach dto.replacements (replaceSlot r)).bind fun _ =>
    forEach dto.removals (removeSlot r)).run db = _
  rw [Program.run_bind, hreplace]
  simp only [hremove]
  rfl

/-- A draft alone on the database. -/
theorem run_saveDraft (dto : ApproveReview) {q : MaterialRequest}
    (hfind : db.requests.find r = some q) : (saveDraft r dto).run db =
      if versionMatches r dto.version db then
        .ok (⟨none, "Borrador guardado exitosamente", []⟩, editSlots r dto (bumpIn r db), [])
      else .error (.conflict
        "El material ya está siendo revisado por otro administrador o su estado ha cambiado") := by
  have hdraft : (saveDraft r dto).run db = ((bumpVersion r dto.version).bind fun _ =>
      (applyEdits r dto).bind fun _ =>
        .done ⟨none, "Borrador guardado exitosamente", []⟩).run db := by
    simp [saveDraft, hfind]
  rw [hdraft, Program.run_bind, run_bumpVersion]
  by_cases h : versionMatches r dto.version db = true
  · simp [h, Program.run_bind, run_applyEdits]
  · simp [h]

/-- An approval of a request that exists, alone on the database. -/
theorem run_approve_of_find (orm : Orm) (dto : ApproveReview) (ctx : MaterialReviewContext)
    {q : MaterialRequest} (hfind : db.requests.find r = some q) : (approve orm r dto ctx).run db =
      if versionMatches r dto.version db then
        (decideApproval orm dto ctx { q with version := dto.version + 1 } (db.coursesOf r)).run
          (editSlots r dto (bumpIn r db))
      else .error (.conflict
        "El material ya está siendo revisado por otro administrador o su estado ha cambiado") := by
  have happrove : (approve orm r dto ctx).run db = ((bumpVersion r dto.version).bind fun _ =>
      (applyEdits r dto).bind fun _ =>
        decideApproval orm dto ctx { q with version := dto.version + 1 } (db.coursesOf r)).run
          db := by
    simp [approve, findRequest, hfind]
  rw [happrove, Program.run_bind, run_bumpVersion]
  by_cases h : versionMatches r dto.version db = true
  · simp only [h, if_true, Program.run_bind, run_applyEdits, List.nil_append]
    cases (decideApproval orm dto ctx { q with version := dto.version + 1 } (db.coursesOf r)).run
        (editSlots r dto (bumpIn r db)) with
    | error e => rfl
    | ok out => rfl
  · simp [h]

/-- An approval with a stale version is refused. -/
theorem run_approve_of_stale (orm : Orm) (dto : ApproveReview) (ctx : MaterialReviewContext)
    {q : MaterialRequest} (hfind : db.requests.find r = some q)
    (hstale : versionMatches r dto.version db = false) :
    (approve orm r dto ctx).run db = .error (.conflict
      "El material ya está siendo revisado por otro administrador o su estado ha cambiado") := by
  rw [run_approve_of_find orm dto ctx hfind, hstale]
  rfl

/-- An approval with the version of the row is not refused for its version. -/
theorem run_approve_of_current {orm : Orm} (dto : ApproveReview) (ctx : MaterialReviewContext)
    {e : HttpError} (hcurrent : versionMatches r dto.version db = true)
    (hrun : (approve orm r dto ctx).run db = .error e) : NoConflict e := by
  cases hfind : db.requests.find r with
  | none => simp [versionMatches, hfind] at hcurrent
  | some q =>
    rw [run_approve_of_find orm dto ctx hfind, if_pos hcurrent] at hrun
    exact (throwsOnly_decideApproval dto ctx _ _).of_run hrun

end Serve

/-- Other transactions do not exist when one runs alone. -/
theorem lockFrame_of_alone (held : List Row) (a b : Committed)
    (h : (alone : Protocol UseCase Db Row Job Outcome).Guar held a b) :
    LockFrame held a.db b.db := h.elim

/-- A review read answers the version that the request has after it. -/
theorem version_of_run_review {orm : Orm} {r : RequestId} {db db' : Db} {data : ReviewData}
    {jobs : List Job} (hrun : (getMaterialReview orm r).run db = .ok (data, db', jobs)) :
    ∃ q, db'.requests.find r = some q ∧ q.version = data.version := by
  set t : Ctx := Context.opened 0 (.review r) 0 with ht
  set s : Committed := ⟨db, []⟩ with hs
  have hwp : (alone : Protocol UseCase Db Row Job Outcome).Wp
      (fun u data v => ∃ q, (u.log v.db).requests.find r = some q ∧ q.version = data.version)
      (getMaterialReview orm r) t s := by
    refine wp_getMaterialReview lockFrame_of_alone (fun _ => rfl) rfl rfl
      (fun _ _ _ _ _ => trivial) ?_ ?_
    · intro q v₀ v _ _ hfind _ hafter _
      rw [eq_of_after_alone hafter]
      exact ⟨q, hfind, rfl⟩
    · intro u q n reread rows v₀ v₁ v _ _ hfind _ hafter₁ hsaved _ hreviewed _
      have hq : q.id = r := Db.request_id_of_find hfind
      have hid : (inReview q).id = r := hq
      have hv : v = v₁ := eq_of_after_alone hreviewed.locked
      rw [hreviewed.log, hv]
      obtain ⟨row, hrow, _⟩ := Option.bind_eq_some_iff.mp hsaved
      rw [hid] at hrow
      refine ⟨{ saveRequestColumns (inReview q) reread row with version := n }, ?_, rfl⟩
      rw [find_requests_saveIn, if_pos hid.symm, hrow]
      rfl
  obtain ⟨u, ⟨q, hq, hversion⟩, hlog, _⟩ := run_of_wp hwp hrun
  exact ⟨q, hlog ▸ hq, hversion⟩

namespace Session

variable {orm : Orm} {r : RequestId}

/-- The tab shows `data`, fetched for request `r`, whose version the row has or not. -/
structure Shows (r : RequestId) (data : ReviewData) (current : Bool) (s : Session) : Prop where
  review : s.client.currentReview = some data
  material : s.client.materialId = r
  request : (s.db.requests.find r).isSome = true
  version : versionMatches r data.version s.db = current

/-- An opened session shows the version of the row. -/
theorem shows_opened (client : Client) (saved : Option LocalEdits) {db : Db}
    (h : Reviewable orm r db) : ∃ data, Shows r data true (opened orm client r saved db) ∧
      (opened orm client r saved db).answers = [] := by
  obtain ⟨data, hdata⟩ := h
  cases hserve : serve orm db (.review r) with
  | mk answer db' =>
    rw [hserve] at hdata
    have hopened : opened orm client r saved db =
        ⟨(client.fetchReviewData r saved).reviewFetched data, db', []⟩ := by
      simp only [opened, hserve]
      rw [show answer = .ok (.review data) from hdata]
    have hrun : ∃ jobs, (getMaterialReview orm r).run db = .ok (data, db', jobs) := by
      simp only [serve, materials, UseCase.transaction, Program.run_bind] at hserve
      cases hread : (getMaterialReview orm r).run db with
      | error e =>
        rw [hread] at hserve
        simp only [Prod.mk.injEq] at hserve
        rw [← hserve.1] at hdata
        cases hdata
      | ok out =>
        obtain ⟨data', db'', jobs⟩ := out
        rw [hread] at hserve
        simp only [Program.run_done, Prod.mk.injEq] at hserve
        obtain ⟨hanswer, hdb⟩ := hserve
        rw [← hanswer] at hdata
        cases hdata
        exact ⟨jobs, by rw [hdb]⟩
    obtain ⟨jobs, hrun⟩ := hrun
    obtain ⟨q, hq, hversion⟩ := version_of_run_review hrun
    refine ⟨data, ⟨?_, ?_, ?_, ?_⟩, by rw [hopened]⟩
    · rw [hopened]
      rfl
    · rw [hopened]
      simp only [Client.reviewFetched, Client.fetchReviewData]
      split <;> rfl
    · rw [hopened]
      simp [hq]
    · rw [hopened]
      simp [versionMatches, hq, hversion]

variable (orm) in
/-- The draft of an edit. -/
theorem edit_eq {data : ReviewData} {current : Bool} {s : Session} (h : Shows r data current s)
    (e : Edit) : ∃ dto, dto.version = data.version ∧ edit orm s e =
      ⟨(s.client.edit e).1, (serve orm s.db (.saveDraft r dto)).2,
        s.answers ++ [(serve orm s.db (.saveDraft r dto)).1]⟩ := by
  cases e with
  | replace item =>
    refine ⟨s.client.request data [item] [], rfl, ?_⟩
    simp [edit, Client.edit, Client.handleQuestionSelected, h.review, h.material, send]
  | remove id =>
    refine ⟨s.client.request data [] [id], rfl, ?_⟩
    simp [edit, Client.edit, Client.confirmRemove, h.review, h.material, send]

/-- An edit keeps what the tab shows. -/
theorem edit_shows (s : Session) (e : Edit) :
    (s.client.edit e).1.currentReview = s.client.currentReview ∧
      (s.client.edit e).1.materialId = s.client.materialId := by
  cases e <;> exact ⟨rfl, rfl⟩

/-- **Step lemma:** after an edit the version of the tab is stale, whatever it was before. -/
theorem shows_edit {data : ReviewData} {current : Bool} {s : Session} (h : Shows r data current s)
    (e : Edit) : Shows r data false (edit orm s e) := by
  obtain ⟨dto, hversion, hedit⟩ := edit_eq orm h e
  obtain ⟨hreview, hmaterial⟩ := edit_shows s e
  obtain ⟨q, hq⟩ := Option.isSome_iff_exists.mp h.request
  have hdb : (serve orm s.db (.saveDraft r dto)).2 =
      if versionMatches r dto.version s.db then editSlots r dto (bumpIn r s.db) else s.db := by
    simp only [serve, materials, UseCase.transaction, Program.run_bind, run_saveDraft dto hq]
    by_cases hmatch : versionMatches r dto.version s.db = true
    · simp [hmatch]
    · simp [hmatch]
  rw [hedit]
  refine ⟨hreview.trans h.review, hmaterial.trans h.material, ?_, ?_⟩
  · rw [hdb]
    split
    · simp [bumpIn, find_updateRequest, hq]
    · exact h.request
  · rw [hdb]
    split
    · rename_i hmatch
      have hold : q.version = dto.version := by simpa [versionMatches, hq] using hmatch
      simp [versionMatches, bumpIn, find_updateRequest, hq, hold, hversion]
    · rename_i hmatch
      rw [← hversion]
      simpa using hmatch

variable (orm) in
/-- **Run lemma:** a session with an edit is stale at its end. -/
theorem shows_edits {data : ReviewData} {current : Bool} {s : Session} {edits : List Edit}
    (h : Shows r data current s) (hedits : edits ≠ []) :
    Shows r data false (edits.foldl (edit orm) s) := by
  induction edits generalizing s current with
  | nil => exact absurd rfl hedits
  | cons e edits ih =>
    by_cases hnil : edits = []
    · rw [hnil]
      exact shows_edit h e
    · exact ih (shows_edit h e) hnil

variable (orm) in
/-- The approval of a tab that shows `data`. -/
theorem approve_eq {data : ReviewData} {current : Bool} {s : Session}
    (h : Shows r data current s) (ctx : MaterialReviewContext) :
    ∃ dto, dto.version = data.version ∧ (approve orm s ctx).answers =
      s.answers ++ [(serve orm s.db (.approve r dto ctx)).1] := by
  refine ⟨s.client.request data s.client.edits.replacements s.client.edits.removals, rfl, ?_⟩
  simp [approve, Client.handleApprove, h.review, h.material, send]

end Session

/-- **A lone reviewer conflicts with themself** in exactly the sessions in which they edit
anything: the draft of the first edit makes the version of the tab stale. -/
theorem conflicts_iff_edits (orm : Orm) (client : Client) (r : RequestId)
    (saved : Option LocalEdits) (edits : List Edit) (ctx : MaterialReviewContext) (db : Db)
    (hreview : Reviewable orm r db) :
    (Session.run orm client r saved edits ctx db).conflicts = false ↔ edits = [] := by
  obtain ⟨data, hshows, hanswers⟩ := Session.shows_opened client saved hreview
  constructor
  · intro hnone
    by_contra hedits
    have hstale := Session.shows_edits orm hshows hedits
    obtain ⟨dto, hversion, happrove⟩ := Session.approve_eq orm hstale ctx
    obtain ⟨q, hq⟩ := Option.isSome_iff_exists.mp hstale.request
    have hrefused := run_approve_of_stale orm dto ctx hq (hversion ▸ hstale.version)
    rw [Session.run, Session.conflicts, happrove] at hnone
    simp [serve, materials, UseCase.transaction, Program.run_bind, hrefused, isConflict] at hnone
  · rintro rfl
    obtain ⟨dto, hversion, happrove⟩ := Session.approve_eq orm hshows ctx
    rw [Session.run, List.foldl_nil, Session.conflicts, happrove, hanswers]
    cases hrun : (Materials.approve orm r dto ctx).run
        (Session.opened orm client r saved db).db with
    | ok out => simp [serve, materials, UseCase.transaction, Program.run_bind, hrun, isConflict]
    | error e =>
      have hother := run_approve_of_current dto ctx (hversion ▸ hshows.version) hrun
      cases e with
      | conflict message => exact absurd rfl (hother message)
      | badRequest message =>
        simp [serve, materials, UseCase.transaction, Program.run_bind, hrun, isConflict]
      | notFound message =>
        simp [serve, materials, UseCase.transaction, Program.run_bind, hrun, isConflict]
      | queryFailed =>
        simp [serve, materials, UseCase.transaction, Program.run_bind, hrun, isConflict]

/-- A tab that has not opened anything. -/
def newTab : Client := ⟨0, 0, none, .empty, false⟩

/-- Filling one slot of a review is a session that conflicts with itself. -/
theorem conflicts_iff_edits_reviewDb :
    (Session.run .typeOrm newTab 1 none [.replace ⟨21, 105⟩] ⟨1, 1⟩ reviewDb).conflicts = false ↔
      [Edit.replace ⟨21, 105⟩] = [] :=
  conflicts_iff_edits .typeOrm newTab 1 none [.replace ⟨21, 105⟩] ⟨1, 1⟩ reviewDb
    ⟨firstAnswer, by decide +kernel⟩

/-- Sessions do conflict: two slots are edited, and the second draft and the approval are
refused. -/
theorem not_neverConflicts : ¬NeverConflicts .typeOrm := by
  intro h
  have hnone := h newTab 1 none [.replace ⟨21, 105⟩, .remove 22] ⟨1, 1⟩ reviewDb
    ⟨firstAnswer, by decide +kernel⟩
  have hconflict : (Session.run .typeOrm newTab 1 none [.replace ⟨21, 105⟩, .remove 22] ⟨1, 1⟩
      reviewDb).conflicts = true := by decide +kernel
  rw [hconflict] at hnone
  cases hnone

end Odiseo.Materials
