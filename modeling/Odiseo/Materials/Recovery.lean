import Odiseo.Batch.Progress
import Odiseo.Materials.RollUp
import Odiseo.Materials.Serial
import Odiseo.Materials.Sweep

/-!
# Recovery from courses that cannot be printed

An attempt of a `generate-pdf` job ends with the first course that cannot be printed, and a
retry ends with the same course, whose second failure is ignored as a duplicate. What the job
has not reached stays `PROCESSING` until the sweep puts it into a new job. The query of the
sweep has a cap, so a sweep either gets past one more failing course or finishes as many
courses as there is room for.
-/

namespace Odiseo.Materials

open Batch Database

/-- `attempts` of `MATERIALS_JOB_OPTIONS`. -/
def materialsJobAttempts : ℕ := 3

/-- How an attempt of a job ends. -/
structure Attempted where
  /-- The handler has returned. -/
  finished : Bool
  db : Db

/-- One attempt of a job: its courses one after the other, until the handler throws. -/
def runAttempt (runs : Distribution → CourseRun) : List CourseJob → Db → Attempted
  | [], db => ⟨true, db⟩
  | job :: jobs, db =>
    match (printCourse job (runs job.dist)).run db with
    | .error _ => ⟨false, db⟩
    | .ok (_, db', _) =>
      if (runs job.dist).error.isSome then ⟨false, db'⟩ else runAttempt runs jobs db'

/-- A job with its attempts, until one of them finishes. -/
def runJob (jobs : List CourseJob) : List (Distribution → CourseRun) → Db → Db
  | [], db => db
  | runs :: attempts, db =>
    if (runAttempt runs jobs db).finished then (runAttempt runs jobs db).db
    else runJob jobs attempts (runAttempt runs jobs db).db

/-- The courses that a job names. -/
def courseRequestIds (jobs : List CourseJob) : List CourseRequestId :=
  jobs.filterMap (·.dist.courseRequestId)

/-- The attempts of a job, at each of which exactly the courses in `fails` cannot be printed. -/
structure PersistentFailures (fails : CourseRequestId → Bool)
    (attempts : List (Distribution → CourseRun)) : Prop where
  all : attempts.length = materialsJobAttempts
  error : ∀ runs ∈ attempts, ∀ dist id, dist.courseRequestId = some id →
    (runs dist).error.isSome = fails id

/-- The job that a sweep dispatches for a request, with all its attempts. -/
def SweepInputs.recover (i : SweepInputs) (isStale : RequestId → Bool) (r : RequestId)
    (attempts : List (Distribution → CourseRun)) (db : Db) : Db :=
  match i.redispatch db (i.staleCourses db isStale) r with
  | none => db
  | some job => runJob (Job.generatePdf job).courseJobs attempts db

/-- The sweep reaches the stale request `r`: nothing fails, and the rows of other requests leave
room for `room` rows in its query. -/
structure SweepInputs.Reaches (i : SweepInputs) (isStale : RequestId → Bool) (r : RequestId)
    (room : ℕ) (db : Db) : Prop where
  query : i.queryFails = false
  lookup : i.lookupFails r = false
  add : i.addFails r = false
  stale : isStale r = true
  room : ((db.stuckCourses isStale).filter fun row => row.materialRequestId ≠ r).length + room ≤
    sweepBatchLimit

/-- What happens elsewhere leaves the courses, the request and its material alone. -/
structure LeavesRequest (r : RequestId) (a b : Db) : Prop where
  courses : b.coursesOf r = a.coursesOf r
  request : b.requests.find r = a.requests.find r
  material : ∀ q m, a.requests.find r = some q → q.materialId = some m →
    b.materials.find m = a.materials.find m

/-- A number of sweeps that reach request `r`, each followed by the job that it dispatches. -/
inductive Sweeps (fails : CourseRequestId → Bool) (r : RequestId) (room : ℕ) :
    ℕ → Db → Db → Prop
  | none (db : Db) : Sweeps fails r room 0 db db
  | sweep {k : ℕ} {a b c : Db} {i : SweepInputs} {isStale : RequestId → Bool}
      {attempts : List (Distribution → CourseRun)} :
      Sweeps fails r room k a b → LeavesRequest r b c → i.Reaches isStale r room c →
      PersistentFailures fails attempts →
      Sweeps fails r room (k + 1) a (i.recover isStale r attempts c)

/-- The status that a course ends with: `FAILED` when it cannot be printed. -/
def EndsAs (failing : Bool) (status : CourseMaterialStatus) : Prop :=
  if failing then status = .failed else status.successTerminal = true ∨ status = .emptyBank

/-- The request has recovered: its courses are settled, and it has been rolled up. -/
structure Recovered (fails : CourseRequestId → Bool) (r : RequestId) (a b : Db) : Prop where
  same : (b.coursesOf r).map (·.id) = (a.coursesOf r).map (·.id)
  settled : ∀ c ∈ b.coursesOf r, EndsAs (fails c.id) c.status
  rolledUp : ∃ q, b.requests.find r = some q ∧ OwedStatus (b.coursesOf r) q.status ∧
    ∀ m, q.materialId = some m → ∃ mat, b.materials.find m = some mat ∧ mat.status = q.status

/-- A job is about all courses of a request, which are `PROCESSING`. -/
structure SentWhole (r : RequestId) (job : GeneratePdfJob) (db : Db) : Prop where
  linked : Linked r db
  nonempty : db.coursesOf r ≠ []
  processing : ∀ c ∈ db.coursesOf r, c.status = .processing
  request : job.materialRequestId = r
  named : ∀ dist ∈ job.distributions, ∃ c ∈ db.coursesOf r, dist.courseRequestId = some c.id
  all : ∀ c ∈ db.coursesOf r, ∃ dist ∈ job.distributions, dist.courseRequestId = some c.id

/-- The courses of a request that cannot be printed. -/
def failing (fails : CourseRequestId → Bool) (r : RequestId) (db : Db) : ℕ :=
  ((db.coursesOf r).filter fun c => fails c.id).length

/-- The courses of a request that can be printed. -/
def others (fails : CourseRequestId → Bool) (r : RequestId) (db : Db) : ℕ :=
  ((db.coursesOf r).filter fun c => !fails c.id).length

/-- As many sweeps as there are failing courses are enough, when nothing else is stuck. -/
def ConvergesWithFailures : Prop :=
  ∀ fails r (job : GeneratePdfJob) (db db' : Db) attempts, SentWhole r job db →
    PersistentFailures fails attempts →
    Sweeps fails r sweepBatchLimit (failing fails r db)
      (runJob (Job.generatePdf job).courseJobs attempts db) db' →
    Recovered fails r db db'

/-- The sweeps that a request may need: after its first job, one for each further failing course
and one for each query that the others fill. -/
def sweepsNeeded (failing others room : ℕ) : ℕ :=
  if failing = 0 then 0 else failing - 1 + (others + room - 1) / room

/-- The courses of a request that are still `PROCESSING`. -/
def Db.unsettled (db : Db) (r : RequestId) : List CourseRequestId :=
  ((db.coursesOf r).filter fun c => c.status = .processing).map (·.id)

section Courses

variable {fails : CourseRequestId → Bool} {r : RequestId} {ids : List CourseRequestId} {db : Db}

/-- What holds of a request that is being recovered. -/
structure Recovering (fails : CourseRequestId → Bool) (r : RequestId)
    (ids : List CourseRequestId) (db : Db) : Prop where
  linked : Linked r db
  agrees : Agrees r db
  same : (db.coursesOf r).map (·.id) = ids
  settled : ∀ c ∈ db.coursesOf r, c.status = .processing ∨ EndsAs (fails c.id) c.status

/-- A roll-up keeps a request and its material. -/
theorem linked_rollUp {k : RequestId} (h : Linked r db) : Linked r (rollUp k db) := by
  obtain ⟨q, hq, hmaterial⟩ := h
  obtain ⟨q', hq', hsame⟩ := materialId_rollUp db (r := k) hq
  refine ⟨q', hq', ?_⟩
  intro m hm
  rw [isSome_materials_rollUp]
  exact hmaterial m (hsame.symm.trans hm)

/-- A callback about a course of the request keeps the request and its material. -/
theorem linked_after {cb : Callback} {id : CourseRequestId} {incoming : CourseMaterialStatus}
    (h : Linked r db) : Linked r (cb.after id incoming db) := by
  unfold Callback.after
  split
  · exact h
  · split
    · exact h
    · rename_i course _ _
      refine linked_rollUp ?_
      unfold Linked
      rw [prepare_requests, prepare_materials]
      exact h

/-- A callback about a course of the request leaves the request in agreement. -/
theorem agrees_after {cb : Callback} {id : CourseRequestId} {incoming : CourseMaterialStatus}
    {c : MaterialRequestCourse} (hc : c ∈ db.coursesOf r) (hid : c.id = id) (hlinked : Linked r db)
    (h : Agrees r db) : Agrees r (cb.after id incoming db) := by
  obtain ⟨hfind, hrequest⟩ := Db.mem_coursesOf.mp hc
  rw [hid] at hfind
  unfold Callback.after
  rw [hfind]
  by_cases hignores : ignores c.status incoming = true
  · simp only [hignores, if_true]
    exact h
  · simp only [if_neg hignores]
    unfold Callback.effect
    rw [hrequest]
    apply agrees_rollUp
    unfold Linked
    rw [prepare_requests, prepare_materials]
    exact hlinked

/-- A callback with a settled status settles a course. -/
theorem settled_courseAfter {cb : Callback} {incoming : CourseMaterialStatus}
    {c : MaterialRequestCourse} {failing : Bool} (hincoming : EndsAs failing incoming)
    (hc : c.status = .processing ∨ EndsAs failing c.status) :
    EndsAs failing (cb.courseAfter incoming c).status := by
  unfold Callback.courseAfter
  split
  · rename_i hignores
    rcases hc with hprocessing | hsettled
    · -- a course that is being printed ignores nothing that is settled
      rw [hprocessing] at hignores
      cases incoming <;> cases failing <;> simp_all [EndsAs, ignores,
        CourseMaterialStatus.successTerminal]
    · exact hsettled
  · exact hincoming

/-- A settled course is not being printed. -/
theorem ne_processing_of_settled {failing : Bool} {status : CourseMaterialStatus}
    (h : EndsAs failing status) : status ≠ .processing := by
  rintro rfl
  cases failing <;> simp [EndsAs, CourseMaterialStatus.successTerminal] at h

/-- The status that the worker reports for a course settles it. -/
theorem settled_reported {job : CourseJob} {run : CourseRun} {failing : Bool}
    (h : run.error.isSome = failing) (slots : List MaterialReviewQuestion) :
    EndsAs failing (job.reported run slots) := by
  unfold CourseJob.reported
  cases failing with
  | true =>
    rw [if_pos h]
    rfl
  | false =>
    rw [if_neg (by rw [h]; exact Bool.false_ne_true)]
    split
    · exact .inr rfl
    · split <;> exact .inl rfl

/-- A callback about a course of a request that settles it. -/
theorem recovering_after {cb : Callback} {id : CourseRequestId} {incoming : CourseMaterialStatus}
    (h : Recovering fails r ids db) (hid : id ∈ ids) (hincoming : EndsAs (fails id) incoming) :
    Recovering fails r ids (cb.after id incoming db) ∧
      (cb.after id incoming db).unsettled r =
        (db.unsettled r).filter fun k => decide (k ≠ id) := by
  obtain ⟨c, hc, hcid⟩ := List.mem_map.mp (h.same ▸ hid)
  have hrow : ∀ c : MaterialRequestCourse,
      (if c.id = id then cb.courseAfter incoming c else c).id = c.id := by
    intro c
    split
    · exact courseAfter_id c
    · rfl
  refine ⟨⟨linked_after h.linked, agrees_after hc hcid h.linked h.agrees, ?_, ?_⟩, ?_⟩
  · rw [coursesOf_after, List.map_map, ← h.same]
    exact List.map_congr_left fun c _ => hrow c
  · intro c' hc'
    rw [coursesOf_after] at hc'
    obtain ⟨c, hc, rfl⟩ := List.mem_map.mp hc'
    rw [hrow]
    split
    · rename_i heq
      subst heq
      exact .inr (settled_courseAfter hincoming (h.settled c hc))
    · exact h.settled c hc
  · unfold Db.unsettled
    rw [coursesOf_after, List.filter_map, List.map_map, List.filter_map, List.filter_filter]
    have hfilter : (db.coursesOf r).filter ((fun c => decide (c.status = .processing)) ∘
          fun c => if c.id = id then cb.courseAfter incoming c else c) =
        (db.coursesOf r).filter fun c =>
          ((fun k => decide (k ≠ id)) ∘ (·.id)) c && decide (c.status = .processing) := by
      apply List.filter_congr
      intro c hc
      rw [Function.comp_apply, Function.comp_apply]
      by_cases heq : c.id = id
      · subst heq
        have hsettled : EndsAs (fails c.id) (cb.courseAfter incoming c).status :=
          settled_courseAfter hincoming (h.settled c hc)
        simp [ne_processing_of_settled hsettled]
      · simp [heq]
    rw [hfilter]
    exact List.map_congr_left fun c _ => hrow c

/-- Printing a course of a request that is being recovered settles it. -/
theorem recovering_printed {job : CourseJob} {run : CourseRun} {id : CourseRequestId}
    (h : Recovering fails r ids db) (hjob : job.dist.courseRequestId = some id) (hid : id ∈ ids)
    (hrun : run.error.isSome = fails id) :
    Recovering fails r ids (job.printed run db) ∧
      (job.printed run db).unsettled r = (db.unsettled r).filter fun k => decide (k ≠ id) := by
  unfold CourseJob.printed
  rw [hjob]
  exact recovering_after h hid (settled_reported hrun _)

/-- The jobs name courses among `ids`. -/
def NamesAmong (ids : List CourseRequestId) (jobs : List CourseJob) : Prop :=
  ∀ job ∈ jobs, ∃ id ∈ ids, job.dist.courseRequestId = some id

/-- **One attempt** settles the courses that it reaches. -/
theorem recovering_runAttempt {runs : Distribution → CourseRun} {jobs : List CourseJob}
    (hruns : ∀ dist id, dist.courseRequestId = some id → (runs dist).error.isSome = fails id)
    (hjobs : NamesAmong ids jobs) (h : Recovering fails r ids db) :
    Recovering fails r ids (runAttempt runs jobs db).db ∧
      (runAttempt runs jobs db).db.unsettled r =
        remaining fails (courseRequestIds jobs) (db.unsettled r) := by
  induction jobs generalizing db with
  | nil =>
    refine ⟨h, ?_⟩
    simp [runAttempt, courseRequestIds, remaining, reached]
  | cons job jobs ih =>
    obtain ⟨id, hid, hjob⟩ := hjobs job List.mem_cons_self
    have hrest : NamesAmong ids jobs := fun job' hjob' => hjobs job' (List.mem_cons_of_mem job hjob')
    have herror := hruns job.dist id hjob
    obtain ⟨outcome, hprint⟩ := run_printCourse job (runs job.dist) db
    obtain ⟨hprinted, hunsettled⟩ := recovering_printed h hjob hid herror
    have hids : courseRequestIds (job :: jobs) = id :: courseRequestIds jobs := by
      simp [courseRequestIds, hjob]
    rw [hids, runAttempt, hprint]
    cases hfails : fails id with
    | true =>
      simp only [herror, hfails, if_true]
      exact ⟨hprinted, by rw [hunsettled, remaining_cons_fails hfails]⟩
    | false =>
      simp only [herror, hfails, Bool.false_eq_true, if_false]
      obtain ⟨hend, hleft⟩ := ih hrest hprinted
      exact ⟨hend, by rw [hleft, hunsettled, remaining_cons hfails]⟩

/-- **A job with its attempts** settles the courses that its first attempt reaches. -/
theorem recovering_runJob {jobs : List CourseJob} {attempts : List (Distribution → CourseRun)}
    (hattempts : PersistentFailures fails attempts) (hjobs : NamesAmong ids jobs)
    (h : Recovering fails r ids db) :
    Recovering fails r ids (runJob jobs attempts db) ∧
      (runJob jobs attempts db).unsettled r =
        remaining fails (courseRequestIds jobs) (db.unsettled r) := by
  have hagain : ∀ (attempts : List (Distribution → CourseRun)) (db : Db),
      (∀ runs ∈ attempts, ∀ dist id, dist.courseRequestId = some id →
        (runs dist).error.isSome = fails id) → Recovering fails r ids db →
      Recovering fails r ids (runJob jobs attempts db) ∧
        remaining fails (courseRequestIds jobs) ((runJob jobs attempts db).unsettled r) =
          remaining fails (courseRequestIds jobs) (db.unsettled r) ∧
        (attempts ≠ [] → (runJob jobs attempts db).unsettled r =
          remaining fails (courseRequestIds jobs) (db.unsettled r)) := by
    intro attempts
    induction attempts with
    | nil => exact fun db _ h => ⟨h, rfl, fun hne => absurd rfl hne⟩
    | cons runs attempts ih =>
      intro db hruns h
      obtain ⟨hfirst, hleft⟩ := recovering_runAttempt (hruns runs List.mem_cons_self) hjobs h
      obtain ⟨hrest, hsame, hagain⟩ := ih (runAttempt runs jobs db).db
        (fun runs' hmem => hruns runs' (List.mem_cons_of_mem runs hmem)) hfirst
      rw [hleft, remaining_remaining] at hsame hagain
      rw [runJob]
      split
      · refine ⟨hfirst, ?_, fun _ => hleft⟩
        rw [hleft, remaining_remaining]
      · refine ⟨hrest, hsame, fun _ => ?_⟩
        cases attempts with
        | nil => exact hleft
        | cons runs' attempts => exact hagain (List.cons_ne_nil _ _)
  obtain ⟨hend, _, hleft⟩ := hagain attempts db hattempts.error h
  refine ⟨hend, hleft ?_⟩
  rintro rfl
  exact absurd hattempts.all (by decide)

end Courses

section Rounds

variable {fails : CourseRequestId → Bool} {r : RequestId} {ids : List CourseRequestId} {db : Db}
  {i : SweepInputs} {isStale : RequestId → Bool} {room : ℕ}

/-- The courses of the rows of a query. -/
def rowIds (rows : List StuckMaterialCourse) : List CourseRequestId := rows.map (·.courseRequestId)

/-- The rows of one stale request are its courses that are `PROCESSING`. -/
theorem bucket_stuckCourses (hstale : isStale r = true) (hlinked : Linked r db) :
    rowIds (bucket (db.stuckCourses isStale) r) = db.unsettled r := by
  obtain ⟨q, hq, _⟩ := hlinked
  unfold rowIds bucket Db.stuckCourses Db.unsettled Db.coursesOf Table.filter
  set row : MaterialRequestCourse → Option StuckMaterialCourse := fun c =>
    if c.status = .processing ∧ isStale c.materialRequestId then
      (db.requests.find c.materialRequestId).map (stuckCourse c)
    else none with hrow
  have hstuck : ∀ c : MaterialRequestCourse, c.materialRequestId = r → c.status = .processing →
      row c = some (stuckCourse c q) := by
    rintro c rfl hprocessing
    rw [hrow]
    simp only [hprocessing, hstale, and_self, if_true, hq, Option.map_some]
  have hnone : ∀ c : MaterialRequestCourse, c.status ≠ .processing → row c = none :=
    fun c hstatus => if_neg fun h => hstatus h.1
  have hrequest : ∀ c found, row c = some found → found.materialRequestId = c.materialRequestId := by
    intro c found hfound
    rw [hrow] at hfound
    simp only at hfound
    split at hfound
    · obtain ⟨q', hfind, rfl⟩ := Option.map_eq_some_iff.mp hfound
      exact Db.request_id_of_find hfind
    · cases hfound
  induction db.courses.rows with
  | nil => rfl
  | cons c rows ih =>
    by_cases hcourse : c.materialRequestId = r
    · by_cases hprocessing : c.status = .processing
      · have hfound := hstuck c hcourse hprocessing
        have hsame := (hrequest c _ hfound).trans hcourse
        rw [List.filterMap_cons_some hfound, List.filter_cons_of_pos (by exact decide_eq_true hsame),
          List.map_cons, ih, List.filter_cons_of_pos (by exact decide_eq_true hcourse),
          List.filter_cons_of_pos (by exact decide_eq_true hprocessing), List.map_cons]
        rfl
      · rw [List.filterMap_cons_none (hnone c hprocessing), ih,
          List.filter_cons_of_pos (by exact decide_eq_true hcourse),
          List.filter_cons_of_neg (by simpa using hprocessing)]
    · rw [List.filter_cons_of_neg (by simpa using hcourse), ← ih]
      cases hfound : row c with
      | none => rw [List.filterMap_cons_none hfound]
      | some found =>
        have hother : found.materialRequestId ≠ r := by
          rw [hrequest c found hfound]
          exact hcourse
        rw [List.filterMap_cons_some hfound, List.filter_cons_of_neg (by simpa using hother)]

/-- The courses of a request that are still `PROCESSING` are different rows. -/
theorem nodup_unsettled (db : Db) (r : RequestId) : (db.unsettled r).Nodup := by
  unfold Db.unsettled Db.coursesOf Table.filter
  rw [List.filter_filter]
  exact db.courses.nodup.sublist (List.filter_sublist.map _)

/-- The rows of the request among those that a sweep finds. -/
theorem bucket_staleCourses (hreaches : i.Reaches isStale r room db) (hlinked : Linked r db) :
    (rowIds (bucket (i.staleCourses db isStale) r)).Nodup ∧
      rowIds (bucket (i.staleCourses db isStale) r) ⊆ db.unsettled r ∧
      min (db.unsettled r).length room ≤ (bucket (i.staleCourses db isStale) r).length := by
  set found := i.scan.order (db.stuckCourses isStale) with hfound
  have hperm : found.Perm (db.stuckCourses isStale) := i.scan.perm _
  have hrows : i.staleCourses db isStale = found.take sweepBatchLimit := by
    rw [SweepInputs.staleCourses, hreaches.query, if_neg Bool.false_ne_true]
  have hsublist : (rowIds (bucket (found.take sweepBatchLimit) r)).Sublist
      (rowIds (bucket found r)) :=
    ((List.take_sublist sweepBatchLimit found).filter _).map _
  have hall : (rowIds (bucket found r)).Perm (db.unsettled r) := by
    rw [← bucket_stuckCourses hreaches.stale hlinked]
    exact (hperm.filter _).map _
  rw [hrows]
  refine ⟨(hall.nodup_iff.mpr (nodup_unsettled db r)).sublist hsublist, ?_, ?_⟩
  · exact fun id hid => hall.subset (hsublist.subset hid)
  · have hcount : (db.unsettled r).length = (bucket found r).length := by
      rw [← hall.length_eq, rowIds, List.length_map]
    by_cases hshort : found.length ≤ sweepBatchLimit
    · rw [List.take_of_length_le hshort, hcount]
      exact Nat.min_le_left _ _
    · -- the query is full, and the rows of other requests take at most their share
      have hfull : (found.take sweepBatchLimit).length = sweepBatchLimit := by
        rw [List.length_take]
        omega
      have hsplit := @List.length_eq_length_filter_add _ (found.take sweepBatchLimit)
        fun row => decide (row.materialRequestId = r)
      have hothers : ((found.take sweepBatchLimit).filter fun row =>
          !decide (row.materialRequestId = r)).length ≤
          ((db.stuckCourses isStale).filter fun row => row.materialRequestId ≠ r).length := by
        have hsame : (fun row : StuckMaterialCourse => !decide (row.materialRequestId = r)) =
            fun row => decide (row.materialRequestId ≠ r) := by
          funext row
          simp
        rw [hsame, ← (hperm.filter _).length_eq]
        exact ((List.take_sublist sweepBatchLimit found).filter _).length_le
      have hroom := hreaches.room
      unfold bucket
      omega

/-- The courses that a `generate-pdf` job names. -/
theorem courseRequestIds_generatePdf (job : GeneratePdfJob) :
    courseRequestIds (Job.generatePdf job).courseJobs =
      job.distributions.filterMap (·.courseRequestId) := by
  rw [courseRequestIds, Job.courseJobs, List.filterMap_map]
  rfl

/-- The job of a sweep is about the rows of the request. -/
theorem courseRequestIds_jobPayload (i : SweepInputs) (db : Db) (first : StuckMaterialCourse)
    (courses : List StuckMaterialCourse) :
    courseRequestIds (Job.generatePdf (i.jobPayload db first courses)).courseJobs =
      rowIds courses := by
  rw [courseRequestIds_generatePdf, SweepInputs.jobPayload, List.filterMap_map]
  exact congrFun List.filterMap_eq_map' courses

/-- What the job of a sweep leaves open: it is a batch of open courses that leaves no room of the
query unused. -/
theorem recover_batch {attempts : List (Distribution → CourseRun)}
    (hreaches : i.Reaches isStale r room db) (hattempts : PersistentFailures fails attempts)
    (h : Recovering fails r ids db) :
    Recovering fails r ids (i.recover isStale r attempts db) ∧ ∃ batch : List CourseRequestId,
      batch.Nodup ∧ batch ⊆ db.unsettled r ∧ min (db.unsettled r).length room ≤ batch.length ∧
        batch.length ≤ sweepBatchLimit ∧
        (i.recover isStale r attempts db).unsettled r =
          remaining fails batch (db.unsettled r) := by
  set rows := bucket (i.staleCourses db isStale) r with hrows
  obtain ⟨hnodup, hsubset, hfull⟩ := bucket_staleCourses hreaches h.linked
  rw [← hrows] at hnodup hsubset hfull
  have hlength : (rowIds rows).length = rows.length := List.length_map _
  have hcap : rows.length ≤ sweepBatchLimit := by
    have hanswer : (i.staleCourses db isStale).length ≤ sweepBatchLimit := by
      unfold SweepInputs.staleCourses
      split
      · exact Nat.zero_le _
      · exact List.length_take_le _ _
    exact Nat.le_trans (List.length_filter_le _ _) hanswer
  have hjob : i.redispatch db (i.staleCourses db isStale) r =
      rows.head?.map fun first => i.jobPayload db first rows := by
    rw [SweepInputs.redispatch, hreaches.lookup, hreaches.add]
    rfl
  unfold SweepInputs.recover
  rw [hjob]
  cases hhead : rows.head? with
  | none =>
    -- no row has been found, so no job is dispatched
    refine ⟨h, [], List.nodup_nil, List.nil_subset _, ?_, Nat.zero_le _, ?_⟩
    · rw [List.head?_eq_none_iff.mp hhead] at hfull
      exact hfull
    · simp [remaining, reached]
  | some first =>
    have hnames : NamesAmong ids (Job.generatePdf (i.jobPayload db first rows)).courseJobs := by
      intro job hjob
      obtain ⟨dist, hdist, rfl⟩ := List.mem_map.mp hjob
      obtain ⟨row, hrow, rfl⟩ := List.mem_map.mp hdist
      refine ⟨row.courseRequestId, ?_, rfl⟩
      have hopen := hsubset (List.mem_map.mpr ⟨row, hrow, rfl⟩)
      obtain ⟨c, hc, hid⟩ := List.mem_map.mp hopen
      rw [← h.same]
      exact List.mem_map.mpr ⟨c, List.mem_of_mem_filter hc, hid⟩
    obtain ⟨hend, hleft⟩ := recovering_runJob hattempts hnames h
    rw [courseRequestIds_jobPayload i db first rows] at hleft
    exact ⟨hend, rowIds rows, hnodup, hsubset, hlength ▸ hfull, hlength ▸ hcap, hleft⟩

/-- **One sweep** with its job leaves nothing open, or brings the request closer to that. -/
theorem recovering_recover {attempts : List (Distribution → CourseRun)}
    (hroom : 0 < room) (hreaches : i.Reaches isStale r room db)
    (hattempts : PersistentFailures fails attempts) (h : Recovering fails r ids db) :
    Recovering fails r ids (i.recover isStale r attempts db) ∧
      roundsLeft fails room ((i.recover isStale r attempts db).unsettled r) ≤
        roundsLeft fails room (db.unsettled r) - 1 := by
  obtain ⟨hend, batch, hnodup, hsubset, hfull, _, hleft⟩ := recover_batch hreaches hattempts h
  refine ⟨hend, ?_⟩
  rw [hleft]
  by_cases hopen : db.unsettled r = []
  · simp only [hopen, remaining, List.filter_nil, roundsLeft_nil, Nat.zero_le]
  · have hprogress : roundsLeft fails room (remaining fails batch (db.unsettled r)) + 1 ≤
        roundsLeft fails room (db.unsettled r) :=
      roundsLeft_remaining hroom hnodup hsubset hfull hopen
    omega

/-- What happens elsewhere does not matter to the recovery of a request. -/
theorem recovering_of_leavesRequest {a b : Db} (h : LeavesRequest r a b)
    (ha : Recovering fails r ids a) :
    Recovering fails r ids b ∧ b.unsettled r = a.unsettled r := by
  obtain ⟨q, hq, hmaterial⟩ := ha.linked
  have hlinked : Linked r b := by
    refine ⟨q, h.request.trans hq, ?_⟩
    intro m hm
    rw [h.material q m hq hm]
    exact hmaterial m hm
  have hagrees : Agrees r b := by
    intro hfinished
    unfold AllFinished at hfinished
    rw [h.courses] at hfinished ⊢
    obtain ⟨q', hq', howed, hmat⟩ := ha.agrees hfinished
    refine ⟨q', h.request.trans hq', howed, ?_⟩
    intro m hm
    rw [h.material q' m hq' hm]
    exact hmat m hm
  refine ⟨⟨hlinked, hagrees, ?_, ?_⟩, ?_⟩
  · rw [h.courses]
    exact ha.same
  · rw [h.courses]
    exact ha.settled
  · unfold Db.unsettled
    rw [h.courses]

/-- **A number of sweeps** brings the request as many rounds closer to its recovery. -/
theorem recovering_of_sweeps {k : ℕ} {a b : Db} (hroom : 0 < room)
    (hsweeps : Sweeps fails r room k a b) (ha : Recovering fails r ids a) :
    Recovering fails r ids b ∧
      roundsLeft fails room (b.unsettled r) ≤ roundsLeft fails room (a.unsettled r) - k := by
  induction hsweeps with
  | none db => exact ⟨ha, Nat.le_refl _⟩
  | sweep hbefore hleaves hreaches hattempts ih =>
    obtain ⟨hb, hleft⟩ := ih ha
    obtain ⟨hc, hsame⟩ := recovering_of_leavesRequest hleaves hb
    obtain ⟨hend, hnext⟩ := recovering_recover hroom hreaches hattempts hc
    refine ⟨hend, ?_⟩
    rw [hsame] at hnext
    omega

/-- A request none of whose courses is open has recovered. -/
theorem recovered_of_recovering {a : Db} (hsame : (a.coursesOf r).map (·.id) = ids)
    (h : Recovering fails r ids db) (hopen : db.unsettled r = []) : Recovered fails r a db := by
  have hsettled : ∀ c ∈ db.coursesOf r, EndsAs (fails c.id) c.status := by
    intro c hc
    rcases h.settled c hc with hprocessing | hsettled
    · have hmem : c.id ∈ db.unsettled r :=
        List.mem_map_of_mem (List.mem_filter.mpr ⟨hc, decide_eq_true hprocessing⟩)
      rw [hopen] at hmem
      cases hmem
    · exact hsettled
  refine ⟨h.same.trans hsame.symm, hsettled, h.agrees ?_⟩
  intro c hc
  have hstatus := hsettled c hc
  cases hfails : fails c.id <;> rw [hfails] at hstatus
  · rcases hstatus with hsuccess | hempty
    · cases hc' : c.status <;> rw [hc'] at hsuccess <;> simp_all [CourseMaterialStatus.successTerminal]
    · exact .inr (.inr (.inl hempty))
  · exact .inr (.inr (.inr hstatus))

end Rounds

section Whole

variable {fails : CourseRequestId → Bool} {r : RequestId} {db : Db} {job : GeneratePdfJob}
  {attempts : List (Distribution → CourseRun)}

/-- A request whose courses are with the worker is being recovered. -/
theorem recovering_of_sentWhole (h : SentWhole r job db) :
    Recovering fails r ((db.coursesOf r).map (·.id)) db where
  linked := h.linked
  agrees := by
    intro hfinished
    obtain ⟨c, hc⟩ := List.exists_mem_of_ne_nil _ h.nonempty
    rcases hfinished c hc with hstatus | hstatus | hstatus | hstatus <;>
      rw [h.processing c hc] at hstatus <;> cases hstatus
  same := rfl
  settled := fun c hc => .inl (h.processing c hc)

/-- All courses of the request are open at first. -/
theorem unsettled_of_sentWhole (h : SentWhole r job db) :
    db.unsettled r = (db.coursesOf r).map (·.id) := by
  unfold Db.unsettled
  rw [List.filter_eq_self.mpr]
  intro c hc
  exact decide_eq_true (h.processing c hc)

/-- The job names the courses of the request. -/
theorem mem_courseRequestIds_of_sentWhole (h : SentWhole r job db) {id : CourseRequestId} :
    id ∈ courseRequestIds (Job.generatePdf job).courseJobs ↔ id ∈ db.unsettled r := by
  rw [courseRequestIds_generatePdf, unsettled_of_sentWhole h, List.mem_filterMap, List.mem_map]
  constructor
  · rintro ⟨dist, hdist, hid⟩
    obtain ⟨c, hc, hcid⟩ := h.named dist hdist
    exact ⟨c, hc, Option.some.inj (hcid.symm.trans hid)⟩
  · rintro ⟨c, hc, rfl⟩
    exact h.all c hc

/-- The job names no other course. -/
theorem namesAmong_of_sentWhole (h : SentWhole r job db) :
    NamesAmong ((db.coursesOf r).map (·.id)) (Job.generatePdf job).courseJobs := by
  intro course hcourse
  obtain ⟨dist, hdist, rfl⟩ := List.mem_map.mp hcourse
  obtain ⟨c, hc, hid⟩ := h.named dist hdist
  exact ⟨c.id, List.mem_map_of_mem hc, hid⟩

/-- What the first job leaves to the sweeps. -/
theorem roundsLeft_runJob (room : ℕ) (hattempts : PersistentFailures fails attempts)
    (h : SentWhole r job db) :
    Recovering fails r ((db.coursesOf r).map (·.id))
        (runJob (Job.generatePdf job).courseJobs attempts db) ∧
      roundsLeft fails room
          ((runJob (Job.generatePdf job).courseJobs attempts db).unsettled r) ≤
        sweepsNeeded (failing fails r db) (others fails r db) room := by
  obtain ⟨hend, hleft⟩ :=
    recovering_runJob hattempts (namesAmong_of_sentWhole h) (recovering_of_sentWhole h)
  refine ⟨hend, ?_⟩
  rw [hleft]
  set batch := courseRequestIds (Job.generatePdf job).courseJobs
  have hall : db.unsettled r ⊆ batch := fun id hid => (mem_courseRequestIds_of_sentWhole h).mpr hid
  have hbatch : batch ⊆ db.unsettled r := fun id hid => (mem_courseRequestIds_of_sentWhole h).mp hid
  have hcount : ∀ p : CourseRequestId → Bool, ((db.unsettled r).filter p).length =
      ((db.coursesOf r).filter fun c => p c.id).length := by
    intro p
    rw [unsettled_of_sentWhole h, List.filter_map, List.length_map]
    rfl
  have hfirst : roundsLeft fails room (db.unsettled r) =
      failing fails r db + (others fails r db + room - 1) / room := by
    rw [roundsLeft, hcount, hcount]
    rfl
  have hfailing : ((db.unsettled r).filter fails).length = failing fails r db := hcount fails
  unfold sweepsNeeded
  by_cases hnone : failing fails r db = 0
  · -- the first attempt prints every course
    have hprinted : ∀ id ∈ batch, fails id = false := by
      intro id hid
      have hempty := List.length_eq_zero_iff.mp (hfailing.trans hnone)
      have hopen := (List.filter_eq_nil_iff.mp hempty) id (hbatch hid)
      simpa using hopen
    simp only [if_pos hnone, remaining_eq_nil hall hprinted, roundsLeft_nil, Nat.le_refl]
  · rw [if_neg hnone]
    have hfails : ∃ id ∈ db.unsettled r, fails id = true := by
      have hpos : 0 < ((db.unsettled r).filter fails).length := by omega
      obtain ⟨id, hid⟩ := List.length_pos_iff_exists_mem.mp hpos
      exact ⟨id, (List.mem_filter.mp hid).1, (List.mem_filter.mp hid).2⟩
    have hprogress := roundsLeft_remaining_all room hall hbatch hfails
    omega

/-- **Persistent failures do not keep a request from converging.** Once its job has used up its
attempts, the sweeps that reach it settle every course: one sweep for each failing course but
the first, and one for each query that the other courses fill. Every course that cannot be
printed is then `FAILED`, every other course has its PDFs or an empty bank, and the request
has been rolled up. -/
theorem recovered_of_sweepsNeeded {k room : ℕ} {db' : Db} (hroom : 0 < room)
    (hsent : SentWhole r job db) (hattempts : PersistentFailures fails attempts)
    (hsweeps : Sweeps fails r room k (runJob (Job.generatePdf job).courseJobs attempts db) db')
    (hk : sweepsNeeded (failing fails r db) (others fails r db) room ≤ k) :
    Recovered fails r db db' := by
  obtain ⟨hstart, hfirst⟩ := roundsLeft_runJob room hattempts hsent
  obtain ⟨hend, hleft⟩ := recovering_of_sweeps hroom hsweeps hstart
  have hdone : roundsLeft fails room (db'.unsettled r) = 0 := by omega
  exact recovered_of_recovering rfl hend (eq_nil_of_roundsLeft hroom hdone)

end Whole

/-- The rows of `n` courses have different keys. -/
theorem nodup_courseRows (n : ℕ) :
    (((List.range n).map fun k => courseRow k 1 k .processing).map key).Nodup := by
  rw [List.map_map]
  exact List.nodup_range.map fun _ _ h => h

/-- There is one request. -/
theorem nodup_requestRow : ([requestRow 1 7 .processing].map key).Nodup := by decide

/-- There is one material. -/
theorem nodup_materialRow : ([materialRow 7 .processing 1].map key).Nodup := by decide

/-- A tenant with one request, whose `n` courses are with the worker. -/
def manyCourses (n : ℕ) : Db where
  courses := ⟨(List.range n).map fun k => courseRow k 1 k .processing, nodup_courseRows n⟩
  requests := ⟨[requestRow 1 7 .processing], nodup_requestRow⟩
  materials := ⟨[materialRow 7 .processing 1], nodup_materialRow⟩
  slots := .empty
  usages := .empty
  catalog := ⟨[], [], [], [], []⟩

/-- The job of that request. -/
def manyCoursesJob (n : ℕ) : GeneratePdfJob where
  materialRequestId := 1
  tenantId := 1
  cycleId := 1
  weekNumber := 1
  templateName := "Material"
  designTemplateId := none
  requiresReview := false
  materialType := "BALOTARIO"
  distributions := (List.range n).map fun k => ⟨k, [], [], some k⟩
  tenant := ⟨1, "Colegio Odiseo Innova", "https://s3.aws.com/tenant-assets/odiseo-innova.png"⟩

/-- The first course cannot be printed. -/
def firstFails (id : CourseRequestId) : Bool := id == 0

/-- An attempt at which the first course cannot be printed. -/
def brokenFirst (dist : Distribution) : CourseRun where
  bank := []
  random := []
  error := if dist.courseRequestId.any firstFails then some "Failed to render PDF" else none
  pageCount := none
  fileSizeBytes := 0
  now := 0
  ledgerFails := false

/-- A sweep at which nothing fails. -/
def quietSweep : SweepInputs where
  tenantId := 1
  company := none
  now := 0
  scan := .sequential
  queryFails := false
  lookupFails := fun _ => false
  addFails := fun _ => false
  bumpFails := fun _ => false
  bumpedAt := fun _ => 0

/-- The courses of the request. -/
theorem coursesOf_manyCourses (n : ℕ) :
    (manyCourses n).coursesOf 1 = (List.range n).map fun k => courseRow k 1 k .processing := by
  apply List.filter_eq_self.mpr
  intro c hc
  obtain ⟨k, _, rfl⟩ := List.mem_map.mp hc
  rfl

/-- The job is about all of them. -/
theorem sentWhole_manyCourses {n : ℕ} (hn : 0 < n) :
    SentWhole 1 (manyCoursesJob n) (manyCourses n) where
  linked := by
    refine ⟨requestRow 1 7 .processing, rfl, ?_⟩
    intro m hm
    cases hm
    rfl
  nonempty := by
    rw [coursesOf_manyCourses]
    intro hempty
    have hlength := congrArg List.length hempty
    rw [List.length_map, List.length_range] at hlength
    change n = 0 at hlength
    omega
  processing := by
    intro c hc
    rw [coursesOf_manyCourses] at hc
    obtain ⟨k, _, rfl⟩ := List.mem_map.mp hc
    rfl
  request := rfl
  named := by
    intro dist hdist
    obtain ⟨k, hk, rfl⟩ := List.mem_map.mp hdist
    refine ⟨courseRow k 1 k .processing, ?_, rfl⟩
    rw [coursesOf_manyCourses]
    exact List.mem_map_of_mem hk
  all := by
    intro c hc
    rw [coursesOf_manyCourses] at hc
    obtain ⟨k, hk, rfl⟩ := List.mem_map.mp hc
    exact ⟨⟨k, [], [], some k⟩, List.mem_map_of_mem hk, rfl⟩

/-- At all attempts the first course cannot be printed, and every other course can. -/
theorem persistentFailures_brokenFirst :
    PersistentFailures firstFails [brokenFirst, brokenFirst, brokenFirst] := by
  refine ⟨rfl, ?_⟩
  intro runs hruns dist id hid
  have hsame : runs = brokenFirst := by simpa using hruns
  rw [hsame, brokenFirst, hid]
  cases hfails : firstFails id <;> simp [hfails]

/-- A sweep reaches the request when it is the only stale one. -/
theorem reaches_quietSweep (db : Db) :
    quietSweep.Reaches (fun k => k == 1) 1 sweepBatchLimit db where
  query := rfl
  lookup := rfl
  add := rfl
  stale := rfl
  room := by
    have hnone : (db.stuckCourses fun k => k == 1).filter
        (fun row => row.materialRequestId ≠ 1) = [] := by
      apply List.filter_eq_nil_iff.mpr
      intro row hrow
      obtain ⟨c, _, q, _, hstale, hq, rfl⟩ := mem_stuckCourses.mp hrow
      have hid := Db.request_id_of_find hq
      have hone : c.materialRequestId = 1 := by simpa using hstale
      simp [stuckCourse, hid, hone]
    rw [hnone]
    exact Nat.le_refl _

/-- Its job leaves all courses but the first open. -/
theorem length_unsettled_manyCourses {n : ℕ} (hn : 0 < n) :
    n ≤ ((runJob (Job.generatePdf (manyCoursesJob n)).courseJobs
      [brokenFirst, brokenFirst, brokenFirst] (manyCourses n)).unsettled 1).length + 1 := by
  have hsent := sentWhole_manyCourses hn
  obtain ⟨_, hleft⟩ := recovering_runJob persistentFailures_brokenFirst
    (namesAmong_of_sentWhole hsent) (recovering_of_sentWhole hsent)
  have hids : courseRequestIds (Job.generatePdf (manyCoursesJob n)).courseJobs = List.range n := by
    rw [courseRequestIds_generatePdf, manyCoursesJob, List.filterMap_map]
    exact (congrFun List.filterMap_eq_map' _).trans (List.map_id _)
  have hreached : (reached firstFails (List.range n)).length = 1 := by
    obtain ⟨m, rfl⟩ : ∃ m, n = m + 1 := ⟨n - 1, by omega⟩
    rw [List.range_succ_eq_map]
    rfl
  have hclosed : ((manyCourses n).unsettled 1).length ≤ (remaining firstFails (List.range n)
      ((manyCourses n).unsettled 1)).length + (reached firstFails (List.range n)).length :=
    length_le_remaining (List.range n) (nodup_unsettled (manyCourses n) 1)
  have hcount : ((manyCourses n).unsettled 1).length = n := by
    rw [unsettled_of_sentWhole hsent, coursesOf_manyCourses, List.length_map, List.length_map,
      List.length_range]
  rw [hleft, hids]
  omega

/-- The attempts at which the first course cannot be printed. -/
def brokenAttempts : List (Distribution → CourseRun) := [brokenFirst, brokenFirst, brokenFirst]

/-- The tenant after the first job. -/
def afterJob (n : ℕ) : Db :=
  runJob (Job.generatePdf (manyCoursesJob n)).courseJobs brokenAttempts (manyCourses n)

/-- The tenant after the first job, a sweep and its job. -/
def afterSweep (n : ℕ) : Db :=
  quietSweep.recover (fun k => k == 1) 1 brokenAttempts (afterJob n)

/-- One sweep that reaches the request. -/
theorem sweeps_afterSweep (n : ℕ) :
    Sweeps firstFails 1 sweepBatchLimit 1 (afterJob n) (afterSweep n) := by
  have hleaves : LeavesRequest 1 (afterJob n) (afterJob n) := ⟨rfl, rfl, fun _ _ _ _ => rfl⟩
  exact .sweep (.none _) hleaves (reaches_quietSweep _) persistentFailures_brokenFirst

/-- One of the courses cannot be printed. -/
theorem failing_manyCourses (n : ℕ) : failing firstFails 1 (manyCourses (n + 1)) = 1 := by
  have hrest : (List.range n).filter ((fun k => firstFails k) ∘ Nat.succ) = [] := by
    apply List.filter_eq_nil_iff.mpr
    intro k _
    simp [firstFails]
  rw [failing, coursesOf_manyCourses, List.filter_map, List.length_map, List.range_succ_eq_map,
    List.filter_cons_of_pos rfl, List.filter_map, List.length_cons, List.length_map]
  exact congrArg (fun l => List.length l + 1) hrest

/-- With 202 courses one sweep for the one failing course is not enough: its query has room for
200 of the 201 courses that are still open. -/
theorem not_convergesWithFailures : ¬ConvergesWithFailures := by
  intro h
  have hsent := sentWhole_manyCourses (n := 202) (by decide)
  have hsweeps : Sweeps firstFails 1 sweepBatchLimit (failing firstFails 1 (manyCourses 202))
      (afterJob 202) (afterSweep 202) := by
    rw [failing_manyCourses]
    exact sweeps_afterSweep 202
  have hrecovered := h firstFails 1 (manyCoursesJob 202) (manyCourses 202) (afterSweep 202)
    brokenAttempts hsent persistentFailures_brokenFirst hsweeps
  obtain ⟨hstart, _⟩ := recovering_runJob persistentFailures_brokenFirst
    (namesAmong_of_sentWhole hsent) (recovering_of_sentWhole hsent)
  obtain ⟨_, batch, _, _, _, hcap, hleft⟩ :=
    recover_batch (reaches_quietSweep (afterJob 202)) persistentFailures_brokenFirst hstart
  -- the job of the sweep closes at most 200 courses
  have hopen : 0 < ((afterSweep 202).unsettled 1).length := by
    have hmany : 202 ≤ ((afterJob 202).unsettled 1).length + 1 :=
      length_unsettled_manyCourses (by decide)
    have hclosed : ((afterJob 202).unsettled 1).length ≤
        (remaining firstFails batch ((afterJob 202).unsettled 1)).length +
          (reached firstFails batch).length :=
      length_le_remaining batch (nodup_unsettled (afterJob 202) 1)
    have hreached := (reached_sublist firstFails batch).length_le
    have hlimit : sweepBatchLimit = 200 := rfl
    rw [afterSweep, brokenAttempts, hleft]
    omega
  obtain ⟨id, hid⟩ := List.length_pos_iff_exists_mem.mp hopen
  obtain ⟨c, hc, _⟩ := List.mem_map.mp hid
  obtain ⟨hmem, hprocessing⟩ := List.mem_filter.mp hc
  exact ne_processing_of_settled (hrecovered.settled c hmem) (of_decide_eq_true hprocessing)

/-- A request with three courses recovers with one sweep. -/
theorem recovered_of_sweepsNeeded_three :
    0 < sweepBatchLimit ∧ SentWhole 1 (manyCoursesJob 3) (manyCourses 3) ∧
      PersistentFailures firstFails brokenAttempts ∧
      Sweeps firstFails 1 sweepBatchLimit 1 (afterJob 3) (afterSweep 3) ∧
      Recovered firstFails 1 (manyCourses 3) (afterSweep 3) := by
  have hroom : 0 < sweepBatchLimit := by decide
  have hsent := sentWhole_manyCourses (n := 3) (by decide)
  refine ⟨hroom, hsent, persistentFailures_brokenFirst, sweeps_afterSweep 3, ?_⟩
  refine recovered_of_sweepsNeeded hroom hsent persistentFailures_brokenFirst
    (sweeps_afterSweep 3) ?_
  decide

end Odiseo.Materials
