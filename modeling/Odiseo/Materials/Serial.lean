import Odiseo.Materials.Processor
import Odiseo.Materials.WebhookSpec

/-!
# Callbacks that run alone

With nobody else on the database a callback finds no course, is ignored, or has its whole
effect at once. The worker's report of one course is the callback on the review slots that
the course has when it is printed.
-/

namespace Odiseo.Materials

open Database

/-- What a callback leaves when it runs alone. -/
def Callback.after (cb : Callback) (jobId : CourseRequestId) (incoming : CourseMaterialStatus)
    (db : Db) : Db :=
  match db.courses.find jobId with
  | none => db
  | some course =>
    if ignores course.status incoming then db
    else cb.effect incoming course (db.usagesOf course.materialRequestId course.courseId) db

/-- The jobs of a callback that runs alone. -/
def Callback.jobsAfter (cb : Callback) (jobId : CourseRequestId)
    (incoming : CourseMaterialStatus) (db : Db) : List Job :=
  match db.courses.find jobId with
  | none => []
  | some course =>
    if ignores course.status incoming then []
    else cb.mergeJobs course.materialRequestId
      (cb.prepare incoming course (db.usagesOf course.materialRequestId course.courseId) db)

section Alone

variable (cb : Callback) (incoming : CourseMaterialStatus) (course : MaterialRequestCourse)
  (db : Db)

/-- The ledger statements, run alone. -/
theorem run_saveUsages : (saveUsages cb incoming course).run db =
    .ok ((), cb.ledger incoming course (db.usagesOf course.materialRequestId course.courseId) db,
      []) := by
  unfold saveUsages Callback.ledger
  split
  · rfl
  · rfl

/-- The update of the material, run alone. -/
theorem run_updateParentMaterial (request : Option MaterialRequest)
    (status : MaterialRequestStatus) : (updateParentMaterial request status).run db =
      .ok ((), match request.bind MaterialRequest.materialId with
        | none => db
        | some m => setMaterialStatus m status db, []) := by
  unfold updateParentMaterial
  cases request.bind MaterialRequest.materialId with
  | none => rfl
  | some m => rfl

/-- The dispatch of the merge, run alone. -/
theorem run_dispatchMerge (r : RequestId) (previous : Option MaterialRequest)
    (siblings : List MaterialRequestCourse) : (dispatchMerge cb r previous siblings).run db =
      .ok ((), db, if mergesParent previous siblings && (db.requests.find r).isSome then
        (cb.companyId.map (Job.mergePdf r)).toList else []) := by
  unfold dispatchMerge
  cases mergesParent previous siblings with
  | false => rfl
  | true =>
    cases hrequest : db.requests.find r with
    | none => simp [hrequest]
    | some q =>
      cases hcompany : cb.companyId with
      | none => simp
      | some tenantId => simp [hrequest, Program.add, Program.run]

/-- The event of a callback, with the request that it has locked. -/
def generatedEvent (incoming : CourseMaterialStatus) (course : MaterialRequestCourse)
    (request : Option MaterialRequest) : Option MaterialGeneratedEvent :=
  request.bind fun q =>
    if incoming.successTerminal then
      some { cycleId := q.cycleId, courseId := course.courseId, weekNumber := q.weekNumber }
    else none

/-- The roll-up, run alone. -/
theorem run_rollUpParent : (rollUpParent cb incoming course).run db =
    .ok (.applied (generatedEvent incoming course (db.requests.find course.materialRequestId)),
      rollUp course.materialRequestId db, cb.mergeJobs course.materialRequestId db) := by
  set r := course.materialRequestId with hr
  set event := generatedEvent incoming course (db.requests.find r) with hevent
  set siblings := db.coursesOf r with hsiblings
  have hstart : (rollUpParent cb incoming course).run db =
      (if allFinished siblings then
        (Program.write (fun _ => [.request r]) (fun _ => setRequestStatus r (finalStatus siblings))
          fun _ => ()).bind fun _ => (Program.select fun v => v.requests.find r).bind fun request =>
            (updateParentMaterial request (finalStatus siblings)).bind fun _ =>
              (dispatchMerge cb r (db.requests.find r) siblings).bind fun _ =>
                .done (.applied event)
        else .done (.applied event)).run db := rfl
  rw [hstart, rollUp, Callback.mergeJobs, ← hsiblings]
  cases hall : allFinished siblings with
  | false => rfl
  | true =>
    have hmaterial : ((setRequestStatus r (finalStatus siblings) db).requests.find r).bind
        MaterialRequest.materialId = (db.requests.find r).bind MaterialRequest.materialId :=
      materialId_setRequestStatus ..
    have hfound : ((setRequestStatus r (finalStatus siblings) db).requests.find r).isSome =
        (db.requests.find r).isSome := by
      rw [setRequestStatus, find_updateRequest, if_pos rfl, Option.isSome_map]
    rw [if_pos rfl, Program.run_write_bind, Program.run_select_bind, Program.run_bind,
      run_updateParentMaterial, hmaterial]
    simp only [Program.run_bind, run_dispatchMerge, Program.run_done, List.nil_append,
      List.append_nil, Bool.true_and, if_true]
    cases (db.requests.find r).bind MaterialRequest.materialId with
    | none => simp only [hfound]
    | some m =>
      simp only [setMaterialStatus, updateMaterial_requests, hfound]

/-- **A callback that runs alone** ends, and has its effect. -/
theorem run_handleStatus (jobId : CourseRequestId) : ∃ outcome,
    (handleStatus cb jobId incoming).run db =
      .ok (outcome, cb.after jobId incoming db, cb.jobsAfter jobId incoming db) := by
  unfold handleStatus Callback.after Callback.jobsAfter
  simp only [Program.bind_eq, Program.run_select_bind]
  cases hfind : db.courses.find jobId with
  | none => exact ⟨_, rfl⟩
  | some course =>
    cases hignores : ignores course.status incoming with
    | true =>
      simp only [hignores, if_true]
      exact ⟨_, rfl⟩
    | false =>
      simp only [hignores, Bool.false_eq_true, if_false]
      set prepared := cb.prepare incoming course
        (db.usagesOf course.materialRequestId course.courseId) db with hprepared
      refine ⟨.applied (generatedEvent incoming course
        (prepared.requests.find course.materialRequestId)), ?_⟩
      unfold applyCallback
      simp only [Program.bind_eq, Program.run_bind, run_saveUsages, run_rollUpParent,
        List.nil_append]
      rfl

/-- A callback of the worker that runs alone. -/
theorem run_execute {jobId : CourseRequestId} (hreports : cb.Reports jobId incoming) :
    ∃ outcome, cb.execute.run db =
      .ok (outcome, cb.after jobId incoming db, cb.jobsAfter jobId incoming db) := by
  rw [Callback.execute_of_reports hreports]
  exact run_handleStatus cb incoming db jobId

end Alone

/-- The status that the worker reports for a course. -/
def CourseJob.reported (job : CourseJob) (run : CourseRun) (slots : List MaterialReviewQuestion) :
    CourseMaterialStatus :=
  if run.error.isSome then .failed
  else if (run.loadCourseQuestions job.dist slots).allQuestions.isEmpty then .emptyBank
  else if (run.loadCourseQuestions job.dist slots).missingDesglose.isEmpty then .completed
  else .completedWithWarnings

/-- The worker reports that status for the course of the job. -/
theorem reports_reported {job : CourseJob} {id : CourseRequestId}
    (hid : job.dist.courseRequestId = some id) (run : CourseRun)
    (slots : List MaterialReviewQuestion) :
    (job.report run slots).Reports id (job.reported run slots) := by
  refine ⟨report_jobId.trans hid, ?_⟩
  unfold CourseJob.report CourseJob.reported
  cases run.error with
  | some message => exact ⟨"failed", rfl, rfl⟩
  | none =>
    rw [if_neg (by simp)]
    unfold CourseJob.reportLoaded
    set loaded := run.loadCourseQuestions job.dist slots
    by_cases hempty : loaded.allQuestions.isEmpty = true
    · rw [if_pos hempty, if_pos hempty]
      exact ⟨"empty_bank", rfl, rfl⟩
    · rw [if_neg hempty, if_neg hempty]
      refine ⟨loaded.status, rfl, ?_⟩
      unfold LoadedQuestions.status
      by_cases hmissing : loaded.missingDesglose.isEmpty = true
      · rw [if_pos hmissing, if_pos hmissing]
        rfl
      · rw [if_neg hmissing, if_neg hmissing]
        rfl

/-- What the worker leaves when it prints one course with nobody else on the database. -/
def CourseJob.printed (job : CourseJob) (run : CourseRun) (db : Db) : Db :=
  match job.dist.courseRequestId with
  | none => db
  | some id =>
    (job.report run (db.courseSlots job.materialRequestId job.dist.courseId)).after id
      (job.reported run (db.courseSlots job.materialRequestId job.dist.courseId)) db

/-- The jobs that are dispatched meanwhile. -/
def CourseJob.jobsPrinted (job : CourseJob) (run : CourseRun) (db : Db) : List Job :=
  match job.dist.courseRequestId with
  | none => []
  | some id =>
    (job.report run (db.courseSlots job.materialRequestId job.dist.courseId)).jobsAfter id
      (job.reported run (db.courseSlots job.materialRequestId job.dist.courseId)) db

/-- **Printing one course alone** ends, whatever the worker reports. -/
theorem run_printCourse (job : CourseJob) (run : CourseRun) (db : Db) : ∃ outcome,
    (printCourse job run).run db = .ok (outcome, job.printed run db, job.jobsPrinted run db) := by
  unfold printCourse CourseJob.printed CourseJob.jobsPrinted
  simp only [Program.bind_eq, Program.run_select_bind]
  cases hid : job.dist.courseRequestId with
  | none => exact ⟨none, rfl⟩
  | some id =>
    set slots := db.courseSlots job.materialRequestId job.dist.courseId
    obtain ⟨outcome, hrun⟩ := run_execute (job.report run slots) (job.reported run slots) db
      (reports_reported hid run slots)
    refine ⟨some outcome, ?_⟩
    simp only [Program.run_bind, hrun, Program.run_done, List.append_nil]

section Courses

variable {cb : Callback} {incoming : CourseMaterialStatus} {id : CourseRequestId} {db : Db}

/-- The course row after a callback about it. -/
def Callback.courseAfter (cb : Callback) (incoming : CourseMaterialStatus)
    (c : MaterialRequestCourse) : MaterialRequestCourse :=
  if ignores c.status incoming then c else cb.change incoming c

@[simp] theorem courseAfter_id (c : MaterialRequestCourse) :
    (cb.courseAfter incoming c).id = c.id := by
  unfold Callback.courseAfter
  split <;> rfl

@[simp] theorem courseAfter_materialRequestId (c : MaterialRequestCourse) :
    (cb.courseAfter incoming c).materialRequestId = c.materialRequestId := by
  unfold Callback.courseAfter
  split <;> rfl

/-- Looking a course up after a callback that ran alone. -/
theorem find_courses_after (k : CourseRequestId) :
    (cb.after id incoming db).courses.find k =
      if k = id then (db.courses.find k).map (cb.courseAfter incoming)
      else db.courses.find k := by
  unfold Callback.after
  cases hfind : db.courses.find id with
  | none =>
    by_cases hk : k = id
    · rw [if_pos hk, hk, hfind]
      rfl
    · rw [if_neg hk]
  | some course =>
    have hid : course.id = id := Db.course_id_of_find hfind
    cases hignores : ignores course.status incoming with
    | true =>
      simp only [hignores, if_true]
      by_cases hk : k = id
      · rw [if_pos hk, hk, hfind, Option.map_some, Callback.courseAfter, if_pos hignores]
      · rw [if_neg hk]
    | false =>
      simp only [hignores, Bool.false_eq_true, if_false]
      rw [find_courses_effect, hid]
      by_cases hk : k = id
      · rw [if_pos hk, if_pos hk, hk, hfind, Option.map_some, Option.map_some,
          Callback.courseAfter, if_neg (by rw [hignores]; exact Bool.false_ne_true)]
      · rw [if_neg hk, if_neg hk]

/-- The courses of a request after a callback that ran alone. -/
theorem coursesOf_after (r : RequestId) : (cb.after id incoming db).coursesOf r =
    (db.coursesOf r).map fun c => if c.id = id then cb.courseAfter incoming c else c := by
  unfold Callback.after
  cases hfind : db.courses.find id with
  | none =>
    have hsame : ∀ c ∈ db.coursesOf r, (if c.id = id then cb.courseAfter incoming c else c) = c := by
      intro c hc
      rw [if_neg]
      rintro rfl
      rw [(Db.mem_coursesOf.mp hc).1] at hfind
      cases hfind
    exact (List.map_congr_left hsame).symm ▸ (List.map_id _).symm
  | some course =>
    have hid : course.id = id := Db.course_id_of_find hfind
    have hcourse : ∀ c ∈ db.coursesOf r, c.id = id → c = course := by
      rintro c hc rfl
      exact Option.some.inj ((Db.mem_coursesOf.mp hc).1.symm.trans hfind)
    cases hignores : ignores course.status incoming with
    | true =>
      simp only [hignores, if_true]
      have hsame : ∀ c ∈ db.coursesOf r,
          (if c.id = id then cb.courseAfter incoming c else c) = c := by
        intro c hc
        split
        · rename_i heq
          rw [hcourse c hc heq, Callback.courseAfter, if_pos hignores]
        · rfl
      exact (List.map_congr_left hsame).symm ▸ (List.map_id _).symm
    | false =>
      simp only [hignores, Bool.false_eq_true, if_false]
      have hcourses : (cb.effect incoming course
          (db.usagesOf course.materialRequestId course.courseId) db).coursesOf r =
          (cb.prepare incoming course
            (db.usagesOf course.materialRequestId course.courseId) db).coursesOf r := by
        simp only [Db.coursesOf, Callback.effect, rollUp_courses]
      rw [hcourses, coursesOf_prepare, hid]
      apply List.map_congr_left
      intro c hc
      split
      · rename_i heq
        rw [Callback.courseAfter, hcourse c hc heq,
          if_neg (by rw [hignores]; exact Bool.false_ne_true)]
      · rfl

end Courses

end Odiseo.Materials
