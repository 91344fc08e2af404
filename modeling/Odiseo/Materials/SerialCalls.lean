import Odiseo.Materials.GenerateSpec
import Odiseo.Materials.LoneReviewer
import Odiseo.Materials.Serial

/-!
# Calls that run alone

With nobody else on the database an approval, a review read or a generation has its whole
effect at once. What it leaves of the courses is said for each request as a whole, so that the
order of the courses is known as well.
-/

namespace Odiseo.Materials

open Database Database.Protocol

section Rows

variable {a b : Db}

/-- The courses of `b` are those of `a`, each changed in place. -/
structure MapsCourses (f : MaterialRequestCourse → MaterialRequestCourse) (a b : Db) : Prop where
  coursesOf : ∀ r, b.coursesOf r = (a.coursesOf r).map f
  id : ∀ c, (f c).id = c.id
  place : ∀ c, (f c).place = c.place

/-- Looking a course up where the courses have been changed in place. -/
theorem MapsCourses.find {f : MaterialRequestCourse → MaterialRequestCourse}
    (h : MapsCourses f a b) (k : CourseRequestId) :
    b.courses.find k = (a.courses.find k).map f := by
  have hrequest : ∀ c, (f c).materialRequestId = c.materialRequestId :=
    fun c => congrArg Prod.fst (h.place c)
  cases hfind : a.courses.find k with
  | some c =>
    have hk : c.id = k := Db.course_id_of_find hfind
    have hmem : f c ∈ b.coursesOf c.materialRequestId := by
      rw [h.coursesOf]
      exact List.mem_map_of_mem (Db.mem_coursesOf.mpr ⟨hk ▸ hfind, rfl⟩)
    have hfound := (Db.mem_coursesOf.mp hmem).1
    rw [h.id, hk] at hfound
    exact hfound
  | none =>
    cases hfound : b.courses.find k with
    | none => rfl
    | some c' =>
      have hk : c'.id = k := Db.course_id_of_find hfound
      have hmem : c' ∈ b.coursesOf c'.materialRequestId :=
        Db.mem_coursesOf.mpr ⟨hk ▸ hfound, rfl⟩
      rw [h.coursesOf] at hmem
      obtain ⟨c, hc, rfl⟩ := List.mem_map.mp hmem
      have hold := (Db.mem_coursesOf.mp hc).1
      rw [← h.id, hk, hfind] at hold
      cases hold

/-- Nothing has changed. -/
theorem MapsCourses.of_eq (h : b.courses = a.courses) : MapsCourses (fun c => c) a b where
  coursesOf r := by
    rw [List.map_id']
    unfold Db.coursesOf
    rw [h]
  id _ := rfl
  place _ := rfl

/-- The courses of a request after a status update of several courses. -/
theorem coursesOf_setCourseStatuses (ids : List CourseRequestId) (status : CourseMaterialStatus)
    (r : RequestId) (db : Db) : (setCourseStatuses ids status db).coursesOf r =
      (db.coursesOf r).map fun c => if c.id ∈ ids then { c with status := status } else c := by
  unfold setCourseStatuses
  induction ids generalizing db with
  | nil => simp
  | cons id ids ih =>
    have hfirst : (updateCourse id (fun c => { c with status := status }) (by intro; rfl)
        db).coursesOf r = (db.coursesOf r).map fun c =>
          if c.id = id then { c with status := status } else c :=
      coursesOf_updateCourse id r _ _ db fun _ => rfl
    rw [List.foldl_cons, ih, hfirst, List.map_map]
    apply List.map_congr_left
    intro c _
    by_cases hid : c.id = id
    · simp [hid]
    · by_cases hids : c.id ∈ ids
      · simp [hid, hids]
      · simp [hid, hids]

end Rows

section Approval

variable {orm : Orm} {id : RequestId} {dto : ApproveReview} {ctx : MaterialReviewContext}
  {db db' : Db} {result : ApprovalResult} {jobs : List Job}

/-- The `UPDATE` of `save`, run alone. -/
theorem run_saveRequestRow (entity reread : MaterialRequest) (db : Db) :
    (saveRequestRow orm entity reread).run db =
      match savedVersion orm entity reread db with
      | none => .error .queryFailed
      | some n => .ok (n, saveRequestIn entity reread n db, []) := by
  unfold saveRequestRow
  simp only [Program.bind_eq, Program.run_write_bind]
  cases savedVersion orm entity reread db with
  | none => rfl
  | some n => rfl

/-- `save` of a request and its courses, run alone: the courses do not differ from what is read
again. -/
theorem run_save {entity : MaterialRequest} {courses : List MaterialRequestCourse}
    (hcourses : ∀ c ∈ courses, db.courses.find c.id = some c) :
    (save orm entity courses).run db =
      match db.requests.find entity.id with
      | none => .error .queryFailed
      | some reread =>
        match savedVersion orm entity reread db with
        | none => .error .queryFailed
        | some n => .ok (n, saveRequestIn entity reread n db, []) := by
  have hrows : ∀ (cs : List MaterialRequestCourse) (v : Db),
      (∀ c ∈ cs, db.courses.find c.id = some c) →
      (forEach (cs.map fun c => (c, db.courses.find c.id)) saveCourse).run v = .ok ((), v, []) := by
    intro cs v hcs
    induction cs with
    | nil => rfl
    | cons c cs ih =>
      have hfirst : saveCourse (c, db.courses.find c.id) = .done () := by
        rw [hcs c (List.mem_cons_self ..)]
        exact if_pos rfl
      change ((saveCourse (c, db.courses.find c.id)).bind fun _ => forEach _ saveCourse).run v = _
      rw [hfirst, Program.done_bind]
      exact ih fun x hx => hcs x (List.mem_cons_of_mem _ hx)
  unfold save
  simp only [Program.bind_eq, Program.run_select_bind]
  cases hreread : db.requests.find entity.id with
  | none => rfl
  | some reread =>
    simp only [Program.run_bind, run_saveRequestRow]
    cases savedVersion orm entity reread db with
    | none => rfl
    | some n => simp [hrows courses _ hcourses]

/-- What a `save` that runs to its end has written. -/
theorem of_run_save {entity : MaterialRequest} {courses : List MaterialRequestCourse} {n : ℕ}
    (hcourses : ∀ c ∈ courses, db.courses.find c.id = some c)
    (h : (save orm entity courses).run db = .ok (n, db', jobs)) :
    ∃ reread, db.requests.find entity.id = some reread ∧
      savedVersion orm entity reread db = some n ∧ db' = saveRequestIn entity reread n db ∧
      jobs = [] := by
  rw [run_save hcourses] at h
  split at h
  · cases h
  · rename_i reread hreread
    split at h
    · cases h
    · rename_i n' hversion
      cases h
      exact ⟨reread, hreread, hversion, rfl, rfl⟩

/-- A status update of several courses, run alone. -/
theorem run_updateCourseStatuses (ids : List CourseRequestId) (status : CourseMaterialStatus)
    (db : Db) : (updateCourseStatuses ids status).run db =
      .ok ((), setCourseStatuses ids status db, []) := by
  unfold updateCourseStatuses
  cases ids with
  | nil => rfl
  | cons id ids => rfl

/-- The material update of an approval, run alone. -/
theorem run_updateMaterialStatus (request : MaterialRequest) (status : MaterialRequestStatus)
    (db : Db) : (updateMaterialStatus request status).run db =
      .ok ((), materialStatusIn request status db, []) := by
  unfold updateMaterialStatus materialStatusIn
  cases request.materialId with
  | none => rfl
  | some m => rfl

/-- A job of an approval: that of one of its courses. -/
def IsJobOf (ctx : MaterialReviewContext) (request : MaterialRequest) (c : MaterialRequestCourse)
    (job : Job) : Prop :=
  ∃ company template distributions,
    job = generateJob ctx request company template c distributions

/-- The jobs of an approval, run alone: one for each course. -/
theorem run_collectJobs (ctx : MaterialReviewContext) (request : MaterialRequest)
    (company : Option Company)
    (template : Option CycleMaterialTemplate) (courses : List MaterialRequestCourse) (db : Db) :
    ∃ jobs, (collectJobs ctx request company template courses).run db = .ok (jobs, db, []) ∧
      List.Forall₂ (IsJobOf ctx request) courses jobs := by
  induction courses with
  | nil => exact ⟨[], rfl, .nil⟩
  | cons c courses ih =>
    obtain ⟨jobs, hrun, hjobs⟩ := ih
    have hrest : ∀ distributions, ((collectJobs ctx request company template courses).bind
        fun jobs => .done (generateJob ctx request company template c distributions :: jobs)).run
          db = .ok (generateJob ctx request company template c distributions :: jobs, db, []) := by
      intro distributions
      rw [Program.run_bind, hrun]
      rfl
    unfold collectJobs
    simp only [Program.bind_eq, Program.run_select_bind]
    split
    · exact ⟨_, hrest _, .cons ⟨_, _, _, rfl⟩ hjobs⟩
    · exact ⟨_, hrest _, .cons ⟨_, _, _, rfl⟩ hjobs⟩

/-- What the collection of the jobs has answered. -/
theorem of_run_collectJobs {request : MaterialRequest} {company : Option Company}
    {template : Option CycleMaterialTemplate} {courses : List MaterialRequestCourse}
    {dispatched : List Job}
    (h : (collectJobs ctx request company template courses).run db = .ok (dispatched, db', jobs)) :
    db' = db ∧ jobs = [] ∧ List.Forall₂ (IsJobOf ctx request) courses dispatched := by
  obtain ⟨dispatched', hrun, hjobs⟩ := run_collectJobs ctx request company template courses db
  rw [hrun] at h
  cases h
  exact ⟨rfl, rfl, hjobs⟩

/-- An approval generates nothing again. -/
def bypasses (dto : ApproveReview) (courses : List MaterialRequestCourse) : Bool :=
  alreadyGenerated courses && dto.noChanges

/-- The status that an approval gives to the request. -/
def approvedStatus (dto : ApproveReview) (courses : List MaterialRequestCourse)
    (slots : List MaterialReviewQuestion) : MaterialRequestStatus :=
  if bypasses dto courses then if hasEmpty slots then .completedWithWarnings else .completed
  else .processing

/-- The statuses that the courses of an approval take. -/
def approvedUpdates (dto : ApproveReview) (courses : List MaterialRequestCourse) :
    List (List CourseRequestId × CourseMaterialStatus) :=
  if bypasses dto courses then
    [((courses.filter fun c => c.warnings.isSome).map (·.id), .completedWithWarnings),
      ((courses.filter fun c => c.warnings.isNone).map (·.id), .completed)]
  else [(courses.map (·.id), .processing)]

/-- What an approval that runs alone decides and writes, once its edits are in. -/
structure Decided (orm : Orm) (dto : ApproveReview) (ctx : MaterialReviewContext)
    (request : MaterialRequest) (courses : List MaterialRequestCourse) (db db' : Db)
    (result : ApprovalResult) : Prop where
  consent : hasEmpty (db.slotsOf request.id) = true → dto.continueWithWarnings = true
  status : result.status = some (approvedStatus dto courses (db.slotsOf request.id))
  jobs : if bypasses dto courses then result.jobsToDispatch = [] else
    List.Forall₂ (IsJobOf ctx request) courses result.jobsToDispatch
  effect : ∃ reread n, db.requests.find request.id = some reread ∧
    savedVersion orm { request with
      status := approvedStatus dto courses (db.slotsOf request.id) } reread db = some n ∧
    db' = finishIn { request with
      status := approvedStatus dto courses (db.slotsOf request.id) } reread n []
        (approvedUpdates dto courses) db

/-- What an approval decides, run alone. -/
theorem run_decideApproval {request : MaterialRequest} {courses : List MaterialRequestCourse}
    (hcourses : ∀ c ∈ courses, db.courses.find c.id = some c)
    (h : (decideApproval orm dto ctx request courses).run db = .ok (result, db', jobs)) :
    Decided orm dto ctx request courses db db' result ∧ jobs = [] := by
  unfold decideApproval at h
  simp only [Program.bind_eq, Program.run_select_bind] at h
  split at h
  · cases h
  rename_i hconsent
  have hconsent : hasEmpty (db.slotsOf request.id) = true → dto.continueWithWarnings = true := by
    simpa using hconsent
  split at h
  · rename_i hbypass
    have hbypass : bypasses dto courses = true := hbypass
    have hstatus : (if hasEmpty (db.slotsOf request.id) then MaterialRequestStatus.completedWithWarnings
        else .completed) = approvedStatus dto courses (db.slotsOf request.id) := by
      rw [approvedStatus, if_pos hbypass]
    unfold approveWithoutChanges at h
    simp only [Program.bind_eq, hstatus] at h
    obtain ⟨n, db₁, first, more, hsave, hrest, rfl⟩ := Program.of_run_bind h
    obtain ⟨reread, hreread, hversion, rfl, rfl⟩ := of_run_save hcourses hsave
    simp only [Program.run_bind, run_updateMaterialStatus, run_updateCourseStatuses,
      Program.pure_eq_done, Program.run_done, List.append_nil] at hrest
    cases hrest
    refine ⟨⟨hconsent, rfl, ?_, reread, n, hreread, hversion, ?_⟩, rfl⟩
    · rw [if_pos hbypass]
    · rw [approvedUpdates, if_pos hbypass]
      rfl
  · rename_i hbypass
    have hbypass : bypasses dto courses = false := by
      simpa [bypasses] using hbypass
    have hstatus : approvedStatus dto courses (db.slotsOf request.id) = .processing := by
      rw [approvedStatus, if_neg (by rw [hbypass]; exact Bool.false_ne_true)]
    unfold regenerate at h
    simp only [Program.bind_eq] at h
    obtain ⟨n, db₁, first, more, hsave, hrest, rfl⟩ := Program.of_run_bind h
    obtain ⟨reread, hreread, hversion, rfl, rfl⟩ := of_run_save hcourses hsave
    obtain ⟨_, _, _, _, hmaterial, hread, rfl⟩ := Program.of_run_bind hrest
    rw [run_updateMaterialStatus] at hmaterial
    cases hmaterial
    simp only [Program.run_select_bind] at hread
    obtain ⟨_, _, _, _, hset, hcollect, rfl⟩ := Program.of_run_bind hread
    rw [run_updateCourseStatuses] at hset
    cases hset
    obtain ⟨_, _, _, _, hcollected, hdone, rfl⟩ := Program.of_run_bind hcollect
    obtain ⟨rfl, rfl, hjobs⟩ := of_run_collectJobs hcollected
    cases hdone
    refine ⟨⟨hconsent, by rw [hstatus], ?_, reread, n, hreread, ?_, ?_⟩, rfl⟩
    · rw [hbypass]
      exact hjobs
    · rw [hstatus]
      exact hversion
    · rw [hstatus, approvedUpdates, hbypass]
      rfl

/-- The course row after an approval of request `id` with the given courses. -/
def approvedCourse (id : RequestId) (dto : ApproveReview) (courses : List MaterialRequestCourse)
    (c : MaterialRequestCourse) : MaterialRequestCourse :=
  if c.materialRequestId = id then
    { c with status :=
        if bypasses dto courses then
          if c.warnings.isSome then .completedWithWarnings else .completed
        else .processing }
  else c

/-- What an approval leaves that runs alone. -/
structure Approved (orm : Orm) (id : RequestId) (dto : ApproveReview)
    (ctx : MaterialReviewContext) (db db' : Db) (result : ApprovalResult) : Prop where
  current : versionMatches id dto.version db = true
  consent : hasEmpty ((editSlots id dto db).slotsOf id) = true → dto.continueWithWarnings = true
  status : result.status =
    some (approvedStatus dto (db.coursesOf id) ((editSlots id dto db).slotsOf id))
  jobs : if bypasses dto (db.coursesOf id) then result.jobsToDispatch = [] else
    ∃ request, request.id = id ∧
      List.Forall₂ (IsJobOf ctx request) (db.coursesOf id) result.jobsToDispatch
  request : ∃ q n, db.requests.find id = some q ∧ db'.requests.find id = some { q with
    status := approvedStatus dto (db.coursesOf id) ((editSlots id dto db).slotsOf id),
    version := n }
  others : ∀ k, k ≠ id → db'.requests.find k = db.requests.find k
  courses : MapsCourses (approvedCourse id dto (db.coursesOf id)) db db'
  slots : db'.slots = (editSlots id dto db).slots
  catalog : db'.catalog = db.catalog

/-- Which courses are named by the courses of a request with a property. -/
theorem mem_ids_filter (id : RequestId) (p : MaterialRequestCourse → Bool)
    {c : MaterialRequestCourse} {r : RequestId} (hc : c ∈ db.coursesOf r) :
    c.id ∈ ((db.coursesOf id).filter p).map (·.id) ↔ c.materialRequestId = id ∧ p c = true := by
  constructor
  · intro hmem
    obtain ⟨x, hx, hid⟩ := List.mem_map.mp hmem
    obtain ⟨hx, hp⟩ := List.mem_filter.mp hx
    have hfound := (Db.mem_coursesOf.mp hx).1
    rw [hid, (Db.mem_coursesOf.mp hc).1] at hfound
    cases hfound
    exact ⟨(Db.mem_coursesOf.mp hx).2, hp⟩
  · rintro ⟨hr, hp⟩
    exact List.mem_map_of_mem (List.mem_filter.mpr
      ⟨Db.mem_coursesOf.mpr ⟨(Db.mem_coursesOf.mp hc).1, hr⟩, hp⟩)

/-- The courses after the status updates of an approval. -/
theorem coursesOf_approvedUpdates {v : Db} (hv : v.courses = db.courses) (r : RequestId) :
    ((approvedUpdates dto (db.coursesOf id)).foldl
      (fun db p => setCourseStatuses p.1 p.2 db) v).coursesOf r =
      (db.coursesOf r).map (approvedCourse id dto (db.coursesOf id)) := by
  have hsame : v.coursesOf r = db.coursesOf r := by
    unfold Db.coursesOf
    rw [hv]
  unfold approvedUpdates
  split
  · rename_i hbypass
    simp only [List.foldl_cons, List.foldl_nil, coursesOf_setCourseStatuses, hsame, List.map_map]
    apply List.map_congr_left
    intro c hc
    have hsome := mem_ids_filter id (fun c => c.warnings.isSome) hc
    have hnone := mem_ids_filter id (fun c => c.warnings.isNone) hc
    by_cases hr : c.materialRequestId = id
    · cases hw : c.warnings with
      | none => simp [approvedCourse, hbypass, hsome, hnone, hr, hw]
      | some w => simp [approvedCourse, hbypass, hsome, hnone, hr, hw]
    · simp [approvedCourse, hsome, hnone, hr]
  · rename_i hbypass
    simp only [List.foldl_cons, List.foldl_nil, coursesOf_setCourseStatuses, hsame]
    apply List.map_congr_left
    intro c hc
    have hall := mem_ids_filter id (fun _ => true) hc
    rw [List.filter_true] at hall
    by_cases hr : c.materialRequestId = id
    · simp [approvedCourse, hbypass, hall, hr]
    · simp [approvedCourse, hall, hr]

/-- The row that an approval saves. -/
theorem find_requests_finishIn {q : MaterialRequest} {status : MaterialRequestStatus} {n : ℕ}
    {updates : List (List CourseRequestId × CourseMaterialStatus)}
    (hfind : db.requests.find q.id = some q) (k : RequestId) :
    (finishIn { q with status := status } q n [] updates db).requests.find k =
      if k = q.id then some { q with status := status, version := n }
      else db.requests.find k := by
  rw [finishIn_requests, find_requests_saveIn]
  by_cases hk : k = q.id
  · rw [if_pos hk, if_pos hk, hk, hfind, Option.map_some]
    simp only [saveRequestColumns, saved_current]
  · rw [if_neg hk, if_neg hk]

/-- The last part of an approval leaves the catalog alone. -/
theorem finishIn_catalog (entity reread : MaterialRequest) (n : ℕ)
    (rows : List (MaterialRequestCourse × Option MaterialRequestCourse))
    (updates : List (List CourseRequestId × CourseMaterialStatus)) (db : Db) :
    (finishIn entity reread n rows updates db).catalog = db.catalog := by
  obtain ⟨courses, materials, h⟩ := finishIn_eq entity reread n rows updates db
  rw [h]
  rfl

/-- The slot updates leave the catalog alone. -/
theorem editSlots_catalog (id : RequestId) (dto : ApproveReview) (db : Db) :
    (editSlots id dto db).catalog = db.catalog := by
  obtain ⟨slots, h⟩ := editSlots_eq id dto db
  rw [h]

/-- The slot updates only read slots. -/
theorem editSlots_slots_congr {v : Db} (hslots : v.slots = db.slots) :
    (editSlots id dto v).slots = (editSlots id dto db).slots := by
  have hreplace : ∀ (items : List ReplacementItem) (a b : Db), a.slots = b.slots →
      (items.foldl (replaceIn id) a).slots = (items.foldl (replaceIn id) b).slots := by
    intro items
    induction items with
    | nil => exact fun _ _ h => h
    | cons item items ih => exact fun a b h => ih _ _ (by simp [replaceIn, updateSlot, h])
  have hremove : ∀ (ids : List SlotId) (a b : Db), a.slots = b.slots →
      (ids.foldl (removeIn id) a).slots = (ids.foldl (removeIn id) b).slots := by
    intro ids
    induction ids with
    | nil => exact fun _ _ h => h
    | cons x ids ih => exact fun a b h => ih _ _ (by simp [removeIn, updateSlot, h])
  exact hremove _ _ _ (hreplace _ _ _ hslots)

/-- The courses when the edits of an approval are in. -/
theorem find_courses_edited {r : RequestId} {c : MaterialRequestCourse} (hc : c ∈ db.coursesOf r) :
    (editSlots id dto (bumpIn id db)).courses.find c.id = some c := by
  rw [editSlots_courses, bumpIn_courses]
  exact (Db.mem_coursesOf.mp hc).1

/-- The request when the edits of an approval are in. -/
theorem find_request_edited {q : MaterialRequest} (hfind : db.requests.find id = some q)
    (hcurrent : versionMatches id dto.version db = true) :
    (editSlots id dto (bumpIn id db)).requests.find id =
      some { q with version := dto.version + 1 } := by
  have hversion : q.version = dto.version := by
    simpa [versionMatches, hfind] using hcurrent
  rw [editSlots_requests, bumpIn, find_updateRequest, if_pos rfl, hfind, ← hversion]
  rfl

/-- **An approval that runs alone** to its end. -/
theorem run_approve (h : (approve orm id dto ctx).run db = .ok (result, db', jobs)) :
    Approved orm id dto ctx db db' result ∧ jobs = [] := by
  cases hfind : db.requests.find id with
  | none =>
    simp [approve, findRequest, hfind, Program.throw] at h
  | some q =>
    obtain rfl : q.id = id := Db.request_id_of_find hfind
    rw [run_approve_of_find orm dto ctx hfind] at h
    split at h
    · rename_i hcurrent
      obtain ⟨hdecided, rfl⟩ := run_decideApproval (fun c hc => find_courses_edited hc) h
      have hslots : (editSlots q.id dto (bumpIn q.id db)).slots = (editSlots q.id dto db).slots :=
        editSlots_slots_congr rfl
      have hslotsOf : (editSlots q.id dto (bumpIn q.id db)).slotsOf q.id =
          (editSlots q.id dto db).slotsOf q.id := by
        unfold Db.slotsOf
        rw [hslots]
      have hread := find_request_edited hfind hcurrent
      obtain ⟨hconsent, hstatus, hjobs, reread, n, hreread, -, heffect⟩ := hdecided
      simp only [hslotsOf] at hconsent hstatus heffect
      rw [hread] at hreread
      cases hreread
      have hrow : ∀ k, db'.requests.find k = if k = q.id then some { q with
          status := approvedStatus dto (db.coursesOf q.id) ((editSlots q.id dto db).slotsOf q.id),
          version := n } else db.requests.find k := by
        intro k
        rw [heffect]
        refine (find_requests_finishIn (q := { q with version := dto.version + 1 }) hread k).trans ?_
        by_cases hk : k = q.id
        · rw [if_pos hk, if_pos hk]
        · rw [if_neg hk, if_neg hk, editSlots_requests, bumpIn, find_updateRequest, if_neg hk]
      refine ⟨⟨hcurrent, hconsent, hstatus, ?_, ⟨q, n, hfind, ?_⟩, ?_, ?_, ?_, ?_⟩, rfl⟩
      · split
        · rename_i hbypass
          rw [if_pos hbypass] at hjobs
          exact hjobs
        · rename_i hbypass
          rw [if_neg hbypass] at hjobs
          exact ⟨_, rfl, hjobs⟩
      · rw [hrow, if_pos rfl]
      · intro k hk
        rw [hrow, if_neg hk]
      · constructor
        · intro r
          rw [heffect]
          refine coursesOf_approvedUpdates ?_ r
          rw [materialStatusIn_courses, saveIn, List.foldl_nil, saveRequestIn_courses,
            editSlots_courses, bumpIn_courses]
        · intro c
          unfold approvedCourse
          split <;> rfl
        · intro c
          unfold approvedCourse
          split <;> rfl
      · rw [heffect, finishIn_slots, hslots]
      · rw [heffect, finishIn_catalog, editSlots_catalog]
        rfl
    · cases h

end Approval

/-- The requests of `a` are still there in `b`, with the same combined PDF. -/
def KeepsRequests (a b : Db) : Prop :=
  ∀ k q, a.requests.find k = some q → ∃ q', b.requests.find k = some q' ∧
    q'.mergedDownloadUrl = q.mergedDownloadUrl ∧ q'.requiresReview = q.requiresReview

section Others

variable {orm : Orm} {id : RequestId} {db db' : Db} {jobs : List Job}

/-- Nothing has changed. -/
theorem KeepsRequests.of_eq {a b : Db} (h : b.requests = a.requests) : KeepsRequests a b := by
  intro k q hq
  exact ⟨q, by rw [h]; exact hq, rfl, rfl⟩

/-- One change after another. -/
theorem KeepsRequests.trans {a b c : Db} (hab : KeepsRequests a b) (hbc : KeepsRequests b c) :
    KeepsRequests a c := by
  intro k q hq
  obtain ⟨q', hq', hmerged, hreview⟩ := hab k q hq
  obtain ⟨q'', hq'', hmerged', hreview'⟩ := hbc k q' hq'
  exact ⟨q'', hq'', hmerged'.trans hmerged, hreview'.trans hreview⟩

/-- An update of a request that leaves its combined PDF alone. -/
theorem keepsRequests_updateRequest {change : MaterialRequest → MaterialRequest}
    (hchange : ∀ q, (change q).id = q.id)
    (hsame : ∀ q, db.requests.find id = some q →
      (change q).mergedDownloadUrl = q.mergedDownloadUrl ∧
        (change q).requiresReview = q.requiresReview) :
    KeepsRequests db (updateRequest id change hchange db) := by
  intro k q hq
  rw [find_updateRequest, hq]
  split
  · rename_i hk
    subst hk
    exact ⟨change q, rfl, hsame q hq⟩
  · exact ⟨q, rfl, rfl, rfl⟩

/-- An approval keeps the requests. -/
theorem Approved.keepsRequests {dto : ApproveReview} {ctx : MaterialReviewContext}
    {result : ApprovalResult} (h : Approved orm id dto ctx db db' result) :
    KeepsRequests db db' := by
  intro k q hq
  by_cases hk : k = id
  · obtain ⟨q₀, n, hq₀, hq'⟩ := h.request
    rw [hk] at hq ⊢
    rw [hq₀] at hq
    cases hq
    exact ⟨_, hq', rfl, rfl⟩
  · exact ⟨q, (h.others k hk).trans hq, rfl, rfl⟩

/-- A call that leaves the courses alone, and of the requests at most their statuses. -/
structure Untouched (db db' : Db) : Prop where
  courses : db'.courses = db.courses
  requests : KeepsRequests db db'
  catalog : db'.catalog = db.catalog

/-- **A draft that runs alone** to its end. -/
theorem run_saveDraft_ok {dto : ApproveReview} {result : ApprovalResult}
    (h : (saveDraft id dto).run db = .ok (result, db', jobs)) :
    Untouched db db' ∧ result.jobsToDispatch = [] ∧ jobs = [] := by
  cases hfind : db.requests.find id with
  | none => simp [saveDraft, hfind, Program.throw] at h
  | some q =>
    rw [run_saveDraft dto hfind] at h
    split at h
    · cases h
      refine ⟨⟨?_, ?_, ?_⟩, rfl, rfl⟩
      · rw [editSlots_courses, bumpIn_courses]
      · have hbump : KeepsRequests db (bumpIn id db) := by
          unfold bumpIn
          exact keepsRequests_updateRequest _ fun _ _ => ⟨rfl, rfl⟩
        exact hbump.trans (.of_eq (editSlots_requests ..))
      · rw [editSlots_catalog]
        rfl
    · cases h

/-- **A review read that runs alone** to its end. -/
theorem run_getMaterialReview_ok {data : ReviewData}
    (h : (getMaterialReview orm id).run db = .ok (data, db', jobs)) :
    Untouched db db' ∧ db'.slots = db.slots ∧ jobs = [] := by
  cases hfind : db.requests.find id with
  | none => simp [getMaterialReview, findRequest, hfind, Program.throw] at h
  | some q =>
    obtain rfl : q.id = id := Db.request_id_of_find hfind
    by_cases hstatus : q.status = .reviewRequired
    · have hreview : (getMaterialReview orm q.id).run db =
          ((save orm { q with status := .inReview } (db.coursesOf q.id)).bind fun version =>
            readQuestions { q with status := .inReview, version := version }).run db := by
        simp [getMaterialReview, findRequest, hfind, hstatus]
      rw [hreview] at h
      obtain ⟨n, _, _, _, hsave, hread, rfl⟩ := Program.of_run_bind h
      obtain ⟨reread, hreread, -, rfl, rfl⟩ :=
        of_run_save (fun c hc => (Db.mem_coursesOf.mp hc).1) hsave
      cases hread
      have hreread : db.requests.find q.id = some reread := hreread
      rw [hfind] at hreread
      cases hreread
      refine ⟨⟨rfl, ?_, rfl⟩, rfl, rfl⟩
      refine keepsRequests_updateRequest _ fun row hrow => ?_
      have hrow : db.requests.find q.id = some row := hrow
      rw [hfind] at hrow
      cases hrow
      exact ⟨saved_current .., rfl⟩
    · have hreview : (getMaterialReview orm q.id).run db = (readQuestions q).run db := by
        simp [getMaterialReview, findRequest, hfind, hstatus]
      rw [hreview] at h
      cases h
      exact ⟨⟨rfl, .of_eq rfl, rfl⟩, rfl, rfl⟩

/-- A roll-up keeps the requests. -/
theorem keepsRequests_rollUp (r : RequestId) (db : Db) : KeepsRequests db (rollUp r db) := by
  have hstatus : KeepsRequests db (setRequestStatus r (finalStatus (db.coursesOf r)) db) := by
    unfold setRequestStatus
    exact keepsRequests_updateRequest _ fun _ _ => ⟨rfl, rfl⟩
  unfold rollUp
  split
  · split
    · exact hstatus
    · exact hstatus
  · exact .of_eq rfl

/-- A callback that runs alone keeps the requests, the slots and the catalog. -/
theorem keeps_after (cb : Callback) (jobId : CourseRequestId) (incoming : CourseMaterialStatus)
    (db : Db) : KeepsRequests db (cb.after jobId incoming db) ∧
      (cb.after jobId incoming db).slots = db.slots ∧
      (cb.after jobId incoming db).catalog = db.catalog := by
  unfold Callback.after
  split
  · exact ⟨.of_eq rfl, rfl, rfl⟩
  · rename_i course _
    split
    · exact ⟨.of_eq rfl, rfl, rfl⟩
    · refine ⟨?_, ?_, effect_catalog ..⟩
      · have hprepared : KeepsRequests db (cb.prepare incoming course
            (db.usagesOf course.materialRequestId course.courseId) db) :=
          .of_eq (prepare_requests ..)
        exact hprepared.trans (keepsRequests_rollUp _ _)
      · rw [Callback.effect, rollUp_slots, prepare_slots]

end Others

section Generation

variable {g : GenerateInputs} {db db' : Db} {result : GenerateResult} {jobs : List Job}

/-- `INSERT` of a row, run alone. -/
theorem run_insertRow (row : Row) (taken : Db → Bool) (insert : Db → Db) (db : Db) :
    (insertRow row taken insert).run db =
      if taken db then .error .queryFailed else .ok ((), insert db, []) := by
  unfold insertRow
  simp only [Program.bind_eq, Program.run_write_bind]
  cases taken db with
  | true => rfl
  | false => rfl

/-- The inserts of the courses go through when their identifiers are new and distinct. -/
theorem nodup_of_run_insertCourses {courses : List MaterialRequestCourse}
    (h : (forEach courses insertCourse).run db = .ok ((), db', jobs)) :
    (courses.map (·.id)).Nodup ∧ ∀ c ∈ courses, db.courses.find c.id = none := by
  induction courses generalizing db jobs with
  | nil => exact ⟨List.nodup_nil, by simp⟩
  | cons c cs ih =>
    obtain ⟨_, db₁, _, _, hfirst, hrest, -⟩ := Program.of_run_bind h
    unfold insertCourse at hfirst
    rw [run_insertRow] at hfirst
    split at hfirst
    · cases hfirst
    · rename_i htaken
      have hfree : db.courses.find c.id = none := by simpa using htaken
      cases hfirst
      obtain ⟨hnodup, hfresh⟩ := ih hrest
      have hfind : ∀ k, (db.courses.insert c).find k =
          if k = c.id then some c else db.courses.find k :=
        fun k => Table.find_insert _ _ k hfree
      have hother : ∀ x ∈ cs, x.id ≠ c.id ∧ db.courses.find x.id = none := by
        intro x hx
        have hnone : (db.courses.insert c).find x.id = none := hfresh x hx
        rw [hfind] at hnone
        split at hnone
        · cases hnone
        · rename_i hne
          exact ⟨hne, hnone⟩
      constructor
      · rw [List.map_cons, List.nodup_cons]
        refine ⟨?_, hnodup⟩
        intro hmem
        obtain ⟨x, hx, hid⟩ := List.mem_map.mp hmem
        exact (hother x hx).1 hid
      · intro x hx
        rcases List.mem_cons.mp hx with rfl | hx
        · exact hfree
        · exact (hother x hx).2

/-- What a generation leaves that runs alone. -/
structure Created (g : GenerateInputs) (db db' : Db) : Prop where
  fresh : db.requests.find g.newRequestId = none
  freshCourses : ∀ x ∈ g.createdCourses, db.courses.find x.id = none
  distinct : (g.createdCourses.map (·.id)).Nodup
  request : ∃ m, db'.requests.find g.newRequestId = some (g.newRequest m)
  others : ∀ k, k ≠ g.newRequestId → db'.requests.find k = db.requests.find k
  coursesOf : ∀ r, r ≠ g.newRequestId → db'.coursesOf r = db.coursesOf r
  kept : ∀ k c, db.courses.find k = some c → db'.courses.find k = some c
  courses : ∀ k c, db'.courses.find k = some c → db.courses.find k = some c ∨
    ∃ x ∈ g.createdCourses, ∃ status, c = { x with status := status } ∧
      status.successTerminal = false
  new : ∀ x ∈ g.createdCourses, ∃ y, db'.courses.find x.id = some y ∧
    y.materialRequestId = x.materialRequestId ∧ y.courseId = x.courseId
  catalog : db'.catalog = db.catalog

/-- The new courses are inserted among distinct keys. -/
theorem nodup_of_run_generateMaterial
    (h : (generateMaterial g).run db = .ok (result, db', jobs)) :
    (g.createdCourses.map (·.id)).Nodup := by
  obtain ⟨material, _, _, _, -, hcreate, -⟩ := Program.of_run_bind h
  cases material with
  | none => cases hcreate
  | some material =>
    have hread : ∃ v prev, ((clearUsages prev).bind fun _ =>
        (saveMaterial { material with status := g.initialStatus }).bind fun _ =>
        (insertRequest (g.newRequest material.id)).bind fun _ =>
        (saveMaterial { material with
          status := g.initialStatus, latestRequestId := some g.newRequestId }).bind fun _ =>
        (forEach g.createdCourses insertCourse).bind fun _ =>
        (forEach g.reviewQuestions insertSlot).bind fun _ =>
          (if g.requiresReview then (.done ⟨g.newRequestId, g.initialStatus, []⟩ : Tx _)
          else (updateCourseStatuses (g.createdCourses.map (·.id)) .processing).bind fun _ =>
            .done ⟨g.newRequestId, g.initialStatus, [.generatePdf g.jobPayload]⟩)).run v =
        .ok (result, db', _) := ⟨_, _, hcreate⟩
    obtain ⟨_, _, hrun⟩ := hread
    obtain ⟨_, _, _, _, -, hopen, -⟩ := Program.of_run_bind hrun
    obtain ⟨_, _, _, _, -, hrequest, -⟩ := Program.of_run_bind hopen
    obtain ⟨_, _, _, _, -, hlink, -⟩ := Program.of_run_bind hrequest
    obtain ⟨_, _, _, _, -, hcourses, -⟩ := Program.of_run_bind hlink
    obtain ⟨_, _, _, _, hinserted, -, -⟩ := Program.of_run_bind hcourses
    exact (nodup_of_run_insertCourses hinserted).1

/-- The course row with the status that it has after the generation. -/
def GenerateInputs.startCourse (g : GenerateInputs) (c : MaterialRequestCourse) :
    MaterialRequestCourse :=
  if g.requiresReview = false ∧ c.id ∈ g.createdCourses.map (·.id) then
    { c with status := .processing }
  else c

/-- The courses take their statuses. -/
theorem mapsCourses_startIn (db : Db) : MapsCourses g.startCourse db (g.startIn db) := by
  constructor
  · intro r
    unfold GenerateInputs.startIn
    cases hreview : g.requiresReview with
    | true =>
      have hsame : g.startCourse = fun c => c := by
        funext c
        simp [GenerateInputs.startCourse, hreview]
      rw [if_pos rfl, hsame, List.map_id']
    | false =>
      have hprocessing : g.startCourse = fun c =>
          if c.id ∈ g.createdCourses.map (·.id) then { c with status := .processing } else c := by
        funext c
        simp [GenerateInputs.startCourse, hreview]
      rw [if_neg Bool.false_ne_true, coursesOf_setCourseStatuses, hprocessing]
  · intro c
    unfold GenerateInputs.startCourse
    split <;> rfl
  · intro c
    unfold GenerateInputs.startCourse
    split <;> rfl

/-- The effect of a generation whose keys are new. -/
theorem created_createIn {c : Creation} (hrequest : db.requests.find g.newRequestId = none)
    (hcourses : ∀ x ∈ g.createdCourses, db.courses.find x.id = none)
    (hdistinct : (g.createdCourses.map (·.id)).Nodup) : Created g db (g.createIn c db) := by
  set v := g.reviewQuestions.foldl insertSlotIn
    (g.createdCourses.foldl insertCourseIn (g.linkIn c db)) with hv
  have hinserted : v.courses = g.createdCourses.foldl Table.insert db.courses := by
    rw [hv, foldl_insertSlotIn, foldl_insertCourseIn, linkIn_courses]
  have hmaps : MapsCourses g.startCourse v (g.createIn c db) := mapsCourses_startIn v
  have hold : ∀ k x, db.courses.find k = some x → g.startCourse x = x := by
    intro k x hx
    unfold GenerateInputs.startCourse
    rw [if_neg]
    rintro ⟨-, hmem⟩
    obtain ⟨y, hy, hid⟩ := List.mem_map.mp hmem
    have hfree := hcourses y hy
    rw [hid, Db.course_id_of_find hx, hx] at hfree
    cases hfree
  refine
    { fresh := hrequest
      freshCourses := hcourses
      distinct := hdistinct
      request := ⟨c.material.id, ?_⟩
      others := ?_
      coursesOf := ?_
      kept := ?_
      courses := ?_
      new := fun x hx => find_courses_createIn hdistinct hcourses hx
      catalog := createIn_catalog g c db }
  · rw [createIn_requests]
    exact (Table.find_insert _ _ _ hrequest).trans (if_pos rfl)
  · intro k hk
    rw [createIn_requests, Table.find_insert_of_ne _ _ _ hk]
  · intro r hr
    have hsame : v.coursesOf r = db.coursesOf r := by
      unfold Db.coursesOf
      rw [hinserted]
      refine Table.filter_insertAll_of_not _ _ _ fun x hx => ?_
      rw [request_of_mem_createdCourses hx]
      exact decide_eq_false (Ne.symm hr)
    rw [hmaps.coursesOf, hsame]
    calc (db.coursesOf r).map g.startCourse
        = (db.coursesOf r).map fun x => x :=
          List.map_congr_left fun x hx => hold x.id x (Db.mem_coursesOf.mp hx).1
      _ = db.coursesOf r := List.map_id' _
  · intro k x hx
    rw [hmaps.find, hinserted, Table.find_insertAll_of_some _ _ _ _ hx, Option.map_some, hold k x hx]
  · intro k y hy
    rw [hmaps.find, hinserted] at hy
    obtain ⟨x, hx, rfl⟩ := Option.map_eq_some_iff.mp hy
    rcases Table.mem_insertAll (Table.mem_of_find hx) with hmem | hmem
    · have hfind : db.courses.find x.id = some x := Table.find_of_mem hmem
      obtain rfl : x.id = k := Table.key_of_find hx
      rw [hold x.id x hfind]
      exact .inl hfind
    · obtain ⟨dist, _, rfl⟩ := List.mem_map.mp hmem
      refine .inr ⟨_, hmem, ?_⟩
      unfold GenerateInputs.startCourse
      split
      · exact ⟨.processing, rfl, rfl⟩
      · exact ⟨.pending, rfl, rfl⟩

/-- A generation that runs alone to its end has found its keys free and has its whole effect. -/
theorem createIn_of_run (h : (generateMaterial g).run db = .ok (result, db', jobs)) :
    ∃ c, db' = g.createIn c db ∧ result = g.result ∧ jobs = [] ∧
      db.requests.find g.newRequestId = none ∧
        ∀ x ∈ g.createdCourses, db.courses.find x.id = none := by
  set t : Ctx := Context.opened 0 (.generate g) 0
  set s : Committed := ⟨db, []⟩
  have hwp : (alone : Protocol UseCase Db Row Job Outcome).Wp
      (fun u result v => result = g.result ∧ ∃ c, Generated g c t u v)
      (generateMaterial g) t s := by
    refine wp_generateMaterial lockFrame_of_alone (fun _ => rfl) rfl (fun _ _ _ _ _ => trivial) ?_
    intro u c v _ hgenerated
    exact ⟨rfl, c, hgenerated⟩
  obtain ⟨u, ⟨rfl, c, hgenerated⟩, hlog, hout⟩ := run_of_wp hwp h
  have hdb : db' = g.createIn c db := by
    rw [← hlog]
    exact hgenerated.log db
  have hjobs : jobs = [] := by
    rw [hgenerated.out] at hout
    exact (List.append_eq_nil_iff.mp hout.symm).2
  exact ⟨c, hdb, rfl, hjobs, hgenerated.request.2, fun x hx => (hgenerated.courses x hx).2⟩

/-- **A generation that runs alone** to its end. -/
theorem run_generateMaterial (h : (generateMaterial g).run db = .ok (result, db', jobs)) :
    Created g db db' ∧ result = g.result ∧ jobs = [] := by
  obtain ⟨c, rfl, hresult, hjobs, hrequest, hcourses⟩ := createIn_of_run h
  exact ⟨created_createIn hrequest hcourses (nodup_of_run_generateMaterial h), hresult, hjobs⟩

/-- The courses of a generation without review are `PROCESSING` after it. -/
theorem processing_of_run (hreview : g.requiresReview = false)
    (h : (generateMaterial g).run db = .ok (result, db', jobs)) {x : MaterialRequestCourse}
    (hx : x ∈ g.createdCourses) :
    db'.courses.find x.id = some { x with status := .processing } := by
  obtain ⟨c, rfl, -, -, -, hcourses⟩ := createIn_of_run h
  have hinserted : (g.createdCourses.foldl Table.insert db.courses).find x.id = some x :=
    Table.find_insertAll_of_mem _ _ hcourses (nodup_of_run_generateMaterial h) hx
  unfold GenerateInputs.createIn
  rw [(mapsCourses_startIn _).find, foldl_insertSlotIn, foldl_insertCourseIn, linkIn_courses,
    hinserted, Option.map_some]
  unfold GenerateInputs.startCourse
  rw [if_pos ⟨hreview, List.mem_map_of_mem hx⟩]

end Generation

end Odiseo.Materials
