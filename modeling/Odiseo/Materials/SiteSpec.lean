import Odiseo.Materials.Site

/-!
# What a step of the site does

Each step of the site, as the later proofs use it: a call commits what it does when it runs
alone, or throws and leaves the site as it is, and the worker reads, uploads and reports one
course at a time.
-/

namespace Odiseo.Materials

open Database Database.Transition

section Printing

variable (p : Printing)

/-- The address that a success of the course brings for one of its PDFs. -/
def Printing.url (variant : Variant) : Option Url :=
  if p.prints then p.job.url variant else none

/-- Which addresses a success brings. -/
theorem Printing.url_eq_some {variant : Variant} {url : Url} (h : p.url variant = some url) :
    p.prints = true ∧ variant ∈ p.job.variants ∧ url = .object (p.job.artifactKey variant) ∧
      url ∈ p.urls := by
  unfold Printing.url CourseJob.url at h
  split at h
  · rename_i hprints
    split at h
    · rename_i hvariant
      cases h
      exact ⟨hprints, hvariant, rfl, List.mem_map_of_mem hvariant⟩
    · cases h
  · cases h

/-- The course row after the callback of the worker: its PDFs are those that were printed, else
the ones that it had. -/
theorem url_change (incoming : CourseMaterialStatus) (c : MaterialRequestCourse)
    (variant : Variant) :
    (p.callback.change incoming c).url variant = (p.url variant).or (c.url variant) := by
  have hobject : ∀ variant, Url.orUndefined (p.job.url variant) = p.job.url variant := by
    intro variant
    unfold CourseJob.url
    split <;> rfl
  unfold Printing.callback CourseJob.report Printing.url Printing.prints
  cases herror : p.run.error with
  | some message => cases variant <;> rfl
  | none =>
    unfold CourseJob.reportLoaded Printing.loaded
    cases hempty : (p.run.loadCourseQuestions p.job.dist p.slots).allQuestions.isEmpty with
    | true => cases variant <;> rfl
    | false =>
      cases variant with
      | student => simp [CourseJob.reportPdf, Callback.change, MaterialRequestCourse.url, hobject]
      | keys => simp [CourseJob.reportPdf, Callback.change, MaterialRequestCourse.url, hobject]
      | solutions =>
        simp [CourseJob.reportPdf, Callback.change, MaterialRequestCourse.url, hobject]

/-- A course is reported as a success when it was printed. -/
theorem Printing.prints_of_success (h : p.reported.successTerminal = true) : p.prints = true := by
  unfold Printing.reported CourseJob.reported at h
  unfold Printing.prints Printing.loaded
  cases herror : p.run.error with
  | some message => simp [herror, CourseMaterialStatus.successTerminal] at h
  | none =>
    cases hempty : (p.run.loadCourseQuestions p.job.dist p.slots).allQuestions.isEmpty with
    | true => simp [herror, hempty, CourseMaterialStatus.successTerminal] at h
    | false => rfl

end Printing

/-- The database when the addresses of the combined PDFs have been written. -/
def Merging.stored (m : Merging) : Db → Db :=
  updateRequest m.materialRequestId fun q =>
    q.withMerged (m.url .student) ((m.combined .keys).map fun _ => m.url .keys)
      ((m.combined .solutions).map fun _ => m.url .solutions)

/-- The site when the report of a course has been handled. -/
def Site.reported (w : Site) (k : ℕ) (p : Printing) (id : CourseRequestId) : Site :=
  { ({ w with prints := w.prints.eraseIdx k } : Site).commit
      (p.callback.after id p.reported w.db) (p.callback.jobsAfter id p.reported w.db) with
    completedFrom := if w.completes p id then
      Function.update w.completedFrom id
        (some (w.db.courseSlots p.job.materialRequestId p.job.dist.courseId))
      else w.completedFrom }

/-- What one step does, and when it can happen. -/
inductive Site.Effect (orm : Orm) (w : Site) : SiteAction → Site → Prop
  /-- A call throws. -/
  | refused (a : SiteAction) : Effect orm w a w
  | created (g : GenerateInputs) (db' : Db) (h : Created g w.db db') :
      Effect orm w (.generate g) (w.commit db' g.result.jobsToDispatch)
  | reviewed (id : RequestId) (db' : Db) (h : Untouched w.db db') :
      Effect orm w (.review id) (w.commit db' [])
  | drafted (id : RequestId) (dto : ApproveReview) (db' : Db) (h : Untouched w.db db') :
      Effect orm w (.saveDraft id dto) (w.commit db' [])
  | approved (id : RequestId) (dto : ApproveReview) (ctx : MaterialReviewContext)
      (result : ApprovalResult) (db' : Db) (h : Approved orm id dto ctx w.db db' result) :
      Effect orm w (.approve id dto ctx) (w.commit db' result.jobsToDispatch)
  | read (k i : ℕ) (run : CourseRun) (job : Job) (course : CourseJob)
      (hjob : w.jobs[k]? = some job) (hcourse : job.courseJobs[i]? = some course) :
      Effect orm w (.read k i run) (w.read course run)
  | uploaded (k : ℕ) (p : Printing) (hp : w.prints[k]? = some p) (hprints : p.prints = true) :
      Effect orm w (.upload k) (w.upload k p)
  /-- The course of the job has no row. -/
  | unreported (k : ℕ) (p : Printing) (hp : w.prints[k]? = some p)
      (hid : p.job.dist.courseRequestId = none) :
      Effect orm w (.report k) { w with prints := w.prints.eraseIdx k }
  | reported (k : ℕ) (p : Printing) (id : CourseRequestId) (hp : w.prints[k]? = some p)
      (hid : p.job.dist.courseRequestId = some id)
      (hready : p.prints = true → p.uploaded = true) :
      Effect orm w (.report k) (w.reported k p id)
  | stopped (k : ℕ) : Effect orm w (.stop k) { w with prints := w.prints.eraseIdx k }
  | finished (k : ℕ) (job : Job) (hjob : w.jobs[k]? = some job)
      (hmerge : ∀ r tenantId, job ≠ .mergePdf r tenantId) :
      Effect orm w (.finish k) { w with jobs := w.jobs.eraseIdx k }
  | mergeStarted (k : ℕ) (stalls : Bool) (r : RequestId) (tenantId : Uuid)
      (hjob : w.jobs[k]? = some (.mergePdf r tenantId)) :
      Effect orm w (.startMerge k stalls) { w with
        jobs := if stalls then w.jobs else w.jobs.eraseIdx k
        merges := w.merges ++ [.begin r tenantId (w.db.coursesOf r)] }
  | partFetched (k : ℕ) (m : Merging) (variant : Variant) (url : Url)
      (hm : w.merges[k]? = some m) (htodo : m.todo.head? = some variant)
      (hnext : m.nextSource variant = some url) :
      Effect orm w (.fetchPart k) (w.fetchPart k m variant url)
  /-- A combined PDF is uploaded. -/
  | mergeUploaded (k : ℕ) (m : Merging) (variant : Variant) (rest : List Variant) (file : PdfFile)
      (hm : w.merges[k]? = some m) (htodo : m.todo = variant :: rest)
      (hall : m.nextSource variant = none) (hfile : m.combined variant = some file) :
      Effect orm w (.uploadMerged k) { w with
        files := Function.update w.files (m.url variant) (some file)
        merges := w.merges.set k { m with todo := rest } }
  /-- No answer key or no solutions can be read. -/
  | mergePassed (k : ℕ) (m : Merging) (variant : Variant) (rest : List Variant)
      (hm : w.merges[k]? = some m) (htodo : m.todo = variant :: rest)
      (hall : m.nextSource variant = none) :
      Effect orm w (.uploadMerged k) { w with merges := w.merges.set k { m with todo := rest } }
  /-- No student PDF can be read. -/
  | mergeFailed (k : ℕ) (m : Merging) (hm : w.merges[k]? = some m) :
      Effect orm w (.uploadMerged k) { w with
        merges := w.merges.eraseIdx k
        jobs := w.jobs ++ [m.job] }
  /-- Fewer than two courses take part. -/
  | mergeSkipped (k : ℕ) (m : Merging) (hm : w.merges[k]? = some m)
      (hfew : (completedCourses m.courses).length < 2) :
      Effect orm w (.finishMerge k) { w with merges := w.merges.eraseIdx k }
  | merged (k : ℕ) (m : Merging) (hm : w.merges[k]? = some m) (htodo : m.todo = []) :
      Effect orm w (.finishMerge k)
        (({ w with merges := w.merges.eraseIdx k } : Site).commit (m.stored w.db) [])
  | swept (i : SweepInputs) (updatedAt : RequestId → ℕ) :
      Effect orm w (.sweep i updatedAt) (w.sweep i updatedAt)
  | redispatched (k : ℕ) (s : Sweeping) (r : RequestId) (rest : List RequestId)
      (hs : w.sweeps[k]? = some s) (hrequests : s.requests = r :: rest) :
      Effect orm w (.redispatch k) { w with
        jobs := w.jobs ++ (s.inputs.redispatch w.db s.rows r).toList.map .generatePdf
        sweeps := w.sweeps.set k { s with requests := rest } }
  | sweepEnded (k : ℕ) : Effect orm w (.redispatch k) { w with sweeps := w.sweeps.eraseIdx k }

/-- What a call does that runs alone: it throws, or it commits. -/
theorem serve_cases {α : Type} (w : Site) (call : Tx α) (dispatched : α → List Job) :
    (∃ e, call.run w.db = .error e ∧ w.serve call dispatched = w) ∨
      ∃ answer db jobs, call.run w.db = .ok (answer, db, jobs) ∧
        w.serve call dispatched = w.commit db (jobs ++ dispatched answer) := by
  unfold Site.serve
  cases hrun : call.run w.db with
  | error e => exact .inl ⟨e, rfl, rfl⟩
  | ok out => exact .inr ⟨out.1, out.2.1, out.2.2, rfl, rfl⟩

/-- What the report of a course does. -/
theorem effect_report {orm : Orm} {w : Site} {k : ℕ} {p : Printing}
    (hp : w.prints[k]? = some p) (hready : p.prints = true → p.uploaded = true) :
    w.Effect orm (.report k) (w.report k p) := by
  unfold Site.report
  dsimp only
  cases hid : p.job.dist.courseRequestId with
  | none => exact .unreported k p hp hid
  | some id =>
    obtain ⟨outcome, hrun⟩ := run_execute p.callback p.reported w.db
      (reports_reported hid p.run p.slots)
    have hserve : ({ w with prints := w.prints.eraseIdx k } : Site).serve p.callback.execute
        (fun _ => []) = ({ w with prints := w.prints.eraseIdx k } : Site).commit
          (p.callback.after id p.reported w.db) (p.callback.jobsAfter id p.reported w.db) := by
      unfold Site.serve
      rw [show ({ w with prints := w.prints.eraseIdx k } : Site).db = w.db from rfl, hrun]
      simp
    rw [hserve]
    exact .reported k p id hp hid hready

/-- What the upload of a combined PDF does. -/
theorem effect_uploadMerged {orm : Orm} {w : Site} {k : ℕ} {m : Merging}
    (hm : w.merges[k]? = some m) {variant : Variant} {rest : List Variant}
    (htodo : m.todo = variant :: rest) (hall : m.nextSource variant = none) :
    w.Effect orm (.uploadMerged k) (w.uploadMerged k m variant rest) := by
  unfold Site.uploadMerged
  split
  · rename_i file hfile
    exact .mergeUploaded k m variant rest file hm htodo hall hfile
  · split
    · exact .mergeFailed k m hm
    · exact .mergePassed k m variant rest hm htodo hall

/-- What the end of a merge does. -/
theorem effect_finishMerge {orm : Orm} {w : Site} {k : ℕ} {m : Merging}
    (hm : w.merges[k]? = some m) (htodo : m.todo = []) :
    w.Effect orm (.finishMerge k) (w.finishMerge k m) := by
  unfold Site.finishMerge
  dsimp only
  split
  · rename_i hfew
    exact .mergeSkipped k m hm hfew
  · exact .merged k m hm htodo

/-- What one round of a sweep does. -/
theorem effect_redispatch {orm : Orm} {w : Site} {k : ℕ} {s : Sweeping}
    (hs : w.sweeps[k]? = some s) : w.Effect orm (.redispatch k) (w.redispatch k s) := by
  unfold Site.redispatch
  split
  · exact .sweepEnded k
  · rename_i r rest hrequests
    exact .redispatched k s r rest hs hrequests

/-- **What a step does.** -/
theorem effect_of_step {orm : Orm} {w w' : Site} {a : SiteAction} (h : w.step orm a = some w') :
    w.Effect orm a w' := by
  cases a with
  | generate g =>
    cases h
    rcases serve_cases w (generateMaterial g) (·.jobsToDispatch) with
      ⟨e, -, heq⟩ | ⟨result, db', jobs, hrun, heq⟩
    · rw [heq]
      exact .refused _
    · obtain ⟨hcreated, rfl, rfl⟩ := run_generateMaterial hrun
      rw [heq]
      exact .created g db' hcreated
  | review id =>
    cases h
    rcases serve_cases w (getMaterialReview orm id) (fun _ => []) with
      ⟨e, -, heq⟩ | ⟨data, db', jobs, hrun, heq⟩
    · rw [heq]
      exact .refused _
    · obtain ⟨huntouched, -, rfl⟩ := run_getMaterialReview_ok hrun
      rw [heq]
      exact .reviewed id db' huntouched
  | saveDraft id dto =>
    cases h
    rcases serve_cases w (saveDraft id dto) (·.jobsToDispatch) with
      ⟨e, -, heq⟩ | ⟨result, db', jobs, hrun, heq⟩
    · rw [heq]
      exact .refused _
    · obtain ⟨huntouched, hjobs, rfl⟩ := run_saveDraft_ok hrun
      rw [heq, hjobs]
      exact .drafted id dto db' huntouched
  | approve id dto ctx =>
    cases h
    rcases serve_cases w (approve orm id dto ctx) (·.jobsToDispatch) with
      ⟨e, -, heq⟩ | ⟨result, db', jobs, hrun, heq⟩
    · rw [heq]
      exact .refused _
    · obtain ⟨happroved, rfl⟩ := run_approve hrun
      rw [heq]
      exact .approved id dto ctx result db' happroved
  | read k i run =>
    obtain ⟨job, hjob, h⟩ := Option.bind_eq_some_iff.mp h
    obtain ⟨course, hcourse, rfl⟩ := Option.map_eq_some_iff.mp h
    exact .read k i run job course hjob hcourse
  | upload k =>
    obtain ⟨p, hp, h⟩ := Option.bind_eq_some_iff.mp h
    split at h
    · rename_i hcond
      cases h
      exact .uploaded k p hp (by simp only [Bool.and_eq_true] at hcond; exact hcond.1)
    · cases h
  | report k =>
    obtain ⟨p, hp, h⟩ := Option.bind_eq_some_iff.mp h
    split at h
    · cases h
    · rename_i hcond
      cases h
      refine effect_report hp fun hprints => ?_
      simpa [hprints] using hcond
  | stop k =>
    obtain ⟨p, -, rfl⟩ := Option.map_eq_some_iff.mp h
    exact .stopped k
  | finish k =>
    obtain ⟨job, hjob, h⟩ := Option.bind_eq_some_iff.mp h
    split at h
    · cases h
    · rename_i hmerge
      cases h
      exact .finished k job hjob fun r tenantId heq => hmerge r tenantId heq
  | startMerge k stalls =>
    obtain ⟨job, hjob, h⟩ := Option.bind_eq_some_iff.mp h
    split at h
    · rename_i r tenantId
      cases h
      exact .mergeStarted k stalls r tenantId hjob
    · cases h
  | fetchPart k =>
    obtain ⟨m, hm, h⟩ := Option.bind_eq_some_iff.mp h
    obtain ⟨variant, htodo, h⟩ := Option.bind_eq_some_iff.mp h
    obtain ⟨url, hnext, rfl⟩ := Option.map_eq_some_iff.mp h
    exact .partFetched k m variant url hm htodo hnext
  | uploadMerged k =>
    obtain ⟨m, hm, h⟩ := Option.bind_eq_some_iff.mp h
    split at h
    · cases h
    · rename_i variant rest htodo
      split at h
      · cases h
      · rename_i hall
        cases h
        exact effect_uploadMerged hm htodo (by simpa using hall)
  | finishMerge k =>
    obtain ⟨m, hm, h⟩ := Option.bind_eq_some_iff.mp h
    split at h
    · rename_i htodo
      cases h
      exact effect_finishMerge hm (List.isEmpty_iff.mp htodo)
    · cases h
  | sweep i updatedAt =>
    cases h
    exact .swept i updatedAt
  | redispatch k =>
    obtain ⟨s, hs, rfl⟩ := Option.map_eq_some_iff.mp h
    exact effect_redispatch hs

/-- **A sweep that nothing interrupts** adds the jobs of `sweepStuckMaterialCourses`, and leaves
everything else as it was. -/
theorem reaches_sweepStuckMaterialCourses (orm : Orm) (w : Site) (i : SweepInputs)
    (updatedAt : RequestId → ℕ) : Reaches (Site.step orm) (fun _ _ => True) w { w with
      jobs := w.jobs ++ (sweepStuckMaterialCourses w.db updatedAt i).jobs.map .generatePdf } := by
  set rows := i.staleCourses w.db fun r => stale (updatedAt r) i.now with hrows
  have hrounds : ∀ (rs : List RequestId) (jobs : List Job),
      Reaches (Site.step orm) (fun _ _ => True)
        { w with jobs := jobs, sweeps := w.sweeps ++ [⟨i, rows, rs⟩] }
        { w with jobs := jobs ++ (rs.filterMap (i.redispatch w.db rows)).map .generatePdf } := by
    intro rs
    induction rs with
    | nil =>
      intro jobs
      refine .single ⟨.redispatch w.sweeps.length, trivial, ?_⟩
      simp [Site.step, Site.redispatch, List.eraseIdx_append_of_length_le]
    | cons r rs ih =>
      intro jobs
      have hrest := ih (jobs ++ (i.redispatch w.db rows r).toList.map .generatePdf)
      have hjobs : (i.redispatch w.db rows r).toList.map Job.generatePdf ++
          (rs.filterMap (i.redispatch w.db rows)).map .generatePdf =
            ((r :: rs).filterMap (i.redispatch w.db rows)).map .generatePdf := by
        rw [← List.map_append]
        cases hjob : i.redispatch w.db rows r <;> simp [hjob]
      rw [List.append_assoc, hjobs] at hrest
      refine .head ⟨.redispatch w.sweeps.length, trivial, ?_⟩ hrest
      simp [Site.step, Site.redispatch]
  exact .head ⟨.sweep i updatedAt, trivial, rfl⟩ (hrounds _ w.jobs)

end Odiseo.Materials
