import Odiseo.Database.Transition
import Odiseo.Materials.Merge
import Odiseo.Materials.SerialCalls
import Odiseo.Materials.Sweep

/-!
# The site of a tenant

The database of a tenant together with the storage of its PDFs, the queue of the worker and
what the worker has begun. The calls of the users and the callbacks commit as a whole. The
worker reads the review slots of a course, uploads its PDFs and reports it in steps of their
own, and so it reads the courses of a merge, fetches their PDFs one by one and uploads what it
has put together. The courses of a queued job are printed in any order and any number of times:
jobs that are retried or handed out twice are among the runs. A sweep reads the courses that are
stuck and adds the job of one request after the other.
-/

namespace Odiseo.Materials

open Database

/-- What a PDF of a course shows: the review slots that were read for it and the questions that
were printed. -/
structure Print where
  slots : List MaterialReviewQuestion
  questions : List ExtractedQuestion
  deriving DecidableEq, Repr

/-- A file of the storage: the PDFs of courses, one behind the other. -/
abbrev PdfFile := List Print

/-- A course whose slots the worker has read. -/
structure Printing where
  job : CourseJob
  run : CourseRun
  slots : List MaterialReviewQuestion
  /-- How often the slots had been changed when they were read. -/
  curation : ℕ
  uploaded : Bool
  deriving DecidableEq, Repr

/-- A merge whose courses the worker has read. -/
structure Merging where
  materialRequestId : RequestId
  tenantId : Uuid
  /-- The rows that `getCoursesForMerge` answered. -/
  courses : List MaterialRequestCourse
  /-- The combined PDFs that are still to be uploaded, the one at hand first. -/
  todo : List Variant
  /-- What `getObject` has answered for the sources of each combined PDF. -/
  fetched : Variant → List (Url × Option PdfFile)

/-- A sweep that has read the courses that are stuck. -/
structure Sweeping where
  inputs : SweepInputs
  /-- `staleCourses`. -/
  rows : List StuckMaterialCourse
  /-- The requests of `byRequest` that are still to be dispatched. -/
  requests : List RequestId

/-- The database, the storage, the queue, the worker and the cron. -/
structure Site where
  db : Db
  files : Url → Option PdfFile
  jobs : List Job
  prints : List Printing
  merges : List Merging
  sweeps : List Sweeping
  /-- The slots that each course had when a success of it was last applied. -/
  completedFrom : CourseRequestId → Option (List MaterialReviewQuestion)
  /-- How often the slots of each course have been changed. -/
  curations : RequestId → CatalogId → ℕ
  /-- How often they had been changed when they were read for a PDF. -/
  readAt : Url → ℕ

/-- The site of a tenant without any material. -/
def Site.start (catalog : Catalog) : Site where
  db := emptyTenant catalog
  files := fun _ => none
  jobs := []
  prints := []
  merges := []
  sweeps := []
  completedFrom := fun _ => none
  curations := fun _ _ => 0
  readAt := fun _ => 0

/-- What happens next. -/
inductive SiteAction
  /-- `GenerateMaterialUseCase.execute`. -/
  | generate (g : GenerateInputs)
  /-- `GetMaterialReviewUseCase.execute`. -/
  | review (id : RequestId)
  /-- `ApproveMaterialReviewUseCase.saveDraft`. -/
  | saveDraft (id : RequestId) (dto : ApproveReview)
  /-- `ApproveMaterialReviewUseCase.execute`. -/
  | approve (id : RequestId) (dto : ApproveReview) (ctx : MaterialReviewContext)
  /-- The worker reads the slots of course `i` of job `k`. -/
  | read (k i : ℕ) (run : CourseRun)
  /-- The worker uploads the PDFs of a course. -/
  | upload (k : ℕ)
  /-- The worker reports a course. -/
  | report (k : ℕ)
  /-- The worker stops between two steps of a course, or one of them fails. -/
  | stop (k : ℕ)
  /-- A job that is no merge leaves the queue. -/
  | finish (k : ℕ)
  /-- The worker reads the courses of a merge; a job that stalls stays in the queue. -/
  | startMerge (k : ℕ) (stalls : Bool)
  /-- The worker fetches the next source of the combined PDF at hand. -/
  | fetchPart (k : ℕ)
  /-- The worker uploads the combined PDF at hand, when it has fetched all of its sources. -/
  | uploadMerged (k : ℕ)
  /-- The worker stores the addresses of the combined PDFs, when it has uploaded them. -/
  | finishMerge (k : ℕ)
  /-- `sweepStuckMaterialCourses` reads the courses that are stuck. -/
  | sweep (i : SweepInputs) (updatedAt : RequestId → ℕ)
  /-- A sweep adds the job of its next request, or ends. -/
  | redispatch (k : ℕ)

namespace Printing

variable (p : Printing)

/-- What `loadCourseQuestions` answers. -/
def loaded : LoadedQuestions := p.run.loadCourseQuestions p.job.dist p.slots

/-- The course is printed: nothing fails, and there is a question. -/
def prints : Bool := p.run.error.isNone && !p.loaded.allQuestions.isEmpty

/-- What the PDFs of the course show. -/
def print : Print := ⟨p.slots, p.loaded.allQuestions⟩

/-- The addresses that the worker uploads to. -/
def urls : List Url := p.job.variants.map fun variant => .object (p.job.artifactKey variant)

/-- The status that the worker reports. -/
def reported : CourseMaterialStatus := p.job.reported p.run p.slots

/-- The callback of the worker. -/
def callback : Callback := p.job.report p.run p.slots

end Printing

namespace Merging

variable (m : Merging)

/-- The worker begins a merge of the courses that it has read. Without two courses that take part
it has nothing to do. -/
def begin (r : RequestId) (tenantId : Uuid) (courses : List MaterialRequestCourse) : Merging where
  materialRequestId := r
  tenantId := tenantId
  courses := courses
  todo := if (completedCourses courses).length < 2 then [] else [.student, .keys, .solutions]
  fetched := fun _ => []

/-- `sources` of `mergeAndUpload`. -/
def sources (variant : Variant) : List Url := mergeSources (completedCourses m.courses) variant

/-- The source that is fetched next for a combined PDF. -/
def nextSource (variant : Variant) : Option Url :=
  (m.sources variant)[(m.fetched variant).length]?

/-- What `mergeAndUpload` uploads: the PDFs that could be read, one behind the other; `none`: there
is none. -/
def combined (variant : Variant) : Option PdfFile :=
  let parts := (m.fetched variant).filterMap Prod.snd
  if parts.isEmpty then none else some parts.flatten

/-- The address of a combined PDF. -/
def url (variant : Variant) : Url := mergedUrl m.tenantId m.materialRequestId variant

/-- The job of the merge. -/
def job : Job := .mergePdf m.materialRequestId m.tenantId

end Merging

namespace Site

/-- The database of the site becomes another one, and jobs are dispatched. -/
def commit (w : Site) (db : Db) (jobs : List Job) : Site :=
  { w with
    db := db
    jobs := w.jobs ++ jobs
    curations := fun r courseId =>
      if db.courseSlots r courseId = w.db.courseSlots r courseId then w.curations r courseId
      else w.curations r courseId + 1 }

/-- A call runs alone and commits, or throws and leaves the site as it is. -/
def serve {α : Type} (w : Site) (call : Tx α) (dispatched : α → List Job) : Site :=
  match call.run w.db with
  | .error _ => w
  | .ok (answer, db, jobs) => w.commit db (jobs ++ dispatched answer)

/-- The worker reads the slots of a course. -/
def read (w : Site) (job : CourseJob) (run : CourseRun) : Site :=
  { w with prints := w.prints ++
    [{ job := job
       run := run
       slots := w.db.courseSlots job.materialRequestId job.dist.courseId
       curation := w.curations job.materialRequestId job.dist.courseId
       uploaded := false }] }

/-- The worker uploads the PDFs of a course. -/
def upload (w : Site) (k : ℕ) (p : Printing) : Site :=
  { w with
    files := fun url => if url ∈ p.urls then some [p.print] else w.files url
    readAt := fun url => if url ∈ p.urls then p.curation else w.readAt url
    prints := w.prints.set k { p with uploaded := true } }

/-- A success of the course passes the guard of the callback. -/
def completes (w : Site) (p : Printing) (id : CourseRequestId) : Bool :=
  p.reported.successTerminal && (w.db.courses.find id).any fun c => !ignores c.status p.reported

/-- The worker reports a course, when it has a row. -/
def report (w : Site) (k : ℕ) (p : Printing) : Site :=
  let w := { w with prints := w.prints.eraseIdx k }
  match p.job.dist.courseRequestId with
  | none => w
  | some id =>
    { w.serve p.callback.execute fun _ => [] with
      completedFrom := if w.completes p id then
        Function.update w.completedFrom id
          (some (w.db.courseSlots p.job.materialRequestId p.job.dist.courseId))
        else w.completedFrom }

/-- The worker fetches one source of the combined PDF at hand. -/
def fetchPart (w : Site) (k : ℕ) (m : Merging) (variant : Variant) (url : Url) : Site :=
  { w with merges := w.merges.set k { m with
      fetched := Function.update m.fetched variant (m.fetched variant ++ [(url, w.files url)]) } }

/-- The end of `mergeAndUpload`. Without a student PDF the handler throws, and the queue retries
the job. -/
def uploadMerged (w : Site) (k : ℕ) (m : Merging) (variant : Variant) (rest : List Variant) :
    Site :=
  match m.combined variant with
  | some file => { w with
      files := Function.update w.files (m.url variant) (some file)
      merges := w.merges.set k { m with todo := rest } }
  | none =>
    if variant = .student then
      { w with merges := w.merges.eraseIdx k, jobs := w.jobs ++ [m.job] }
    else { w with merges := w.merges.set k { m with todo := rest } }

/-- The end of `handleMergePdf`. -/
def finishMerge (w : Site) (k : ℕ) (m : Merging) : Site :=
  let w := { w with merges := w.merges.eraseIdx k }
  if (completedCourses m.courses).length < 2 then w
  else w.serve (updateMergedDownloadUrl m.materialRequestId (m.url .student)
    ((m.combined .keys).map fun _ => m.url .keys)
    ((m.combined .solutions).map fun _ => m.url .solutions)) fun _ => []

/-- `sweepStuckMaterialCourses` reads the courses that are stuck. -/
def sweep (w : Site) (i : SweepInputs) (updatedAt : RequestId → ℕ) : Site :=
  let rows := i.staleCourses w.db fun r => stale (updatedAt r) i.now
  { w with sweeps := w.sweeps ++ [⟨i, rows, requestsToSweep rows⟩] }

/-- One round of the loop of `sweepStuckMaterialCourses`. The write of `updated_at` changes
nothing else of the request. -/
def redispatch (w : Site) (k : ℕ) (s : Sweeping) : Site :=
  match s.requests with
  | [] => { w with sweeps := w.sweeps.eraseIdx k }
  | r :: rest => { w with
      jobs := w.jobs ++ (s.inputs.redispatch w.db s.rows r).toList.map .generatePdf
      sweeps := w.sweeps.set k { s with requests := rest } }

/-- The next state; `none` when the action cannot happen. -/
def step (orm : Orm) (w : Site) : SiteAction → Option Site
  | .generate g => some (w.serve (generateMaterial g) (·.jobsToDispatch))
  | .review id => some (w.serve (getMaterialReview orm id) fun _ => [])
  | .saveDraft id dto => some (w.serve (saveDraft id dto) (·.jobsToDispatch))
  | .approve id dto ctx => some (w.serve (approve orm id dto ctx) (·.jobsToDispatch))
  | .read k i run => (w.jobs[k]?).bind fun job => (job.courseJobs[i]?).map fun course =>
      w.read course run
  | .upload k => (w.prints[k]?).bind fun p =>
      if p.prints && !p.uploaded then some (w.upload k p) else none
  | .report k => (w.prints[k]?).bind fun p =>
      if p.prints && !p.uploaded then none else some (w.report k p)
  | .stop k => (w.prints[k]?).map fun _ => { w with prints := w.prints.eraseIdx k }
  | .finish k => (w.jobs[k]?).bind fun job =>
    match job with
    | .mergePdf _ _ => none
    | _ => some { w with jobs := w.jobs.eraseIdx k }
  | .startMerge k stalls => (w.jobs[k]?).bind fun job =>
    match job with
    | .mergePdf r tenantId => some { w with
        jobs := if stalls then w.jobs else w.jobs.eraseIdx k
        merges := w.merges ++ [.begin r tenantId (w.db.coursesOf r)] }
    | _ => none
  | .fetchPart k => (w.merges[k]?).bind fun m => m.todo.head?.bind fun variant =>
      (m.nextSource variant).map fun url => w.fetchPart k m variant url
  | .uploadMerged k => (w.merges[k]?).bind fun m =>
    match m.todo with
    | [] => none
    | variant :: rest =>
      if (m.nextSource variant).isSome then none else some (w.uploadMerged k m variant rest)
  | .finishMerge k => (w.merges[k]?).bind fun m =>
      if m.todo.isEmpty then some (w.finishMerge k m) else none
  | .sweep i updatedAt => some (w.sweep i updatedAt)
  | .redispatch k => (w.sweeps[k]?).map fun s => w.redispatch k s

end Site

end Odiseo.Materials
