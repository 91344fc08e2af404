import Odiseo.Materials.Generate

/-!
# The reconciliation sweep

`MaterialsCron.sweepStuckMaterialCourses` for one tenant: courses that are `PROCESSING` in
a request that has not been written for a while are dispatched again, one `generate-pdf`
job for each request. The query has a cap and no order, so the order in which the database
finds the rows is an input. Times are in milliseconds.
-/

namespace Odiseo.Materials

open Database

/-- One minute. -/
def minute : ℕ := 60 * 1000

/-- `STALE_THRESHOLD_MINUTES`. -/
def staleThresholdMinutes : ℕ := 5

/-- `SWEEP_BATCH_LIMIT`. -/
def sweepBatchLimit : ℕ := 200

/-- `StuckMaterialCourse`: a row of the query. -/
structure StuckMaterialCourse where
  courseRequestId : CourseRequestId
  courseId : CatalogId
  materialRequestId : RequestId
  cycleId : Uuid
  weekNumber : ℕ
  designTemplateId : Option Uuid
  requiresReview : Bool
  profileId : Uuid
  materialType : String
  deriving DecidableEq, Repr

/-- The row of a course and its request. -/
def stuckCourse (c : MaterialRequestCourse) (q : MaterialRequest) : StuckMaterialCourse where
  courseRequestId := c.id
  courseId := c.courseId
  materialRequestId := q.id
  cycleId := q.cycleId
  weekNumber := q.weekNumber
  designTemplateId := q.designTemplateId
  requiresReview := q.requiresReview
  profileId := q.profileId
  materialType := q.materialType

/-- `updated_at` of a request is older than the threshold. -/
def stale (updatedAt now : ℕ) : Bool := updatedAt + staleThresholdMinutes * minute < now

/-- The rows that the query matches, when some requests are stale. -/
def Db.stuckCourses (db : Db) (isStale : RequestId → Bool) : List StuckMaterialCourse :=
  db.courses.rows.filterMap fun c =>
    if c.status = .processing ∧ isStale c.materialRequestId then
      (db.requests.find c.materialRequestId).map (stuckCourse c)
    else none

/-- The order in which the database finds rows. -/
structure ScanOrder where
  order : List StuckMaterialCourse → List StuckMaterialCourse
  perm : ∀ rows, (order rows).Perm rows

/-- The rows are found in the order of the table. -/
def ScanOrder.sequential : ScanOrder := ⟨fun rows => rows, fun rows => .refl rows⟩

/-- What happens around one sweep of a tenant. -/
structure SweepInputs where
  tenantId : Uuid
  company : Option Company
  /-- `now()` of the query. -/
  now : ℕ
  scan : ScanOrder
  /-- The query fails. -/
  queryFails : Bool
  /-- The lookup of the template fails. -/
  lookupFails : RequestId → Bool
  /-- `queue.add` fails. -/
  addFails : RequestId → Bool
  /-- The write of `updated_at` fails. -/
  bumpFails : RequestId → Bool
  /-- `now()` of the write of `updated_at`. -/
  bumpedAt : RequestId → ℕ

/-- `staleCourses`: the rows that the query answers. -/
def SweepInputs.staleCourses (i : SweepInputs) (db : Db) (isStale : RequestId → Bool) :
    List StuckMaterialCourse :=
  if i.queryFails then [] else (i.scan.order (db.stuckCourses isStale)).take sweepBatchLimit

/-- The keys of `byRequest`, in the order in which they are inserted. -/
def requestsToSweep (rows : List StuckMaterialCourse) : List RequestId :=
  (rows.map (·.materialRequestId)).eraseDups

/-- The bucket of a request in `byRequest`. -/
def bucket (rows : List StuckMaterialCourse) (r : RequestId) : List StuckMaterialCourse :=
  rows.filter fun c => c.materialRequestId = r

/-- `template?.name || 'Material'`. -/
def Db.templateName (db : Db) (profileId : Uuid) : String :=
  orDefault ((db.catalog.templates.find? fun t => t.id = profileId).map (·.name)) "Material"

/-- The entry of a course in `distributions`. -/
def StuckMaterialCourse.distribution (c : StuckMaterialCourse) : Distribution where
  courseId := c.courseId
  topics := []
  excludeQuestionIds := []
  courseRequestId := some c.courseRequestId

/-- `jobPayload`: the first course of the bucket stands for the request. -/
def SweepInputs.jobPayload (i : SweepInputs) (db : Db) (first : StuckMaterialCourse)
    (courses : List StuckMaterialCourse) : GeneratePdfJob where
  materialRequestId := first.materialRequestId
  tenantId := i.tenantId
  cycleId := first.cycleId
  weekNumber := first.weekNumber
  templateName := db.templateName first.profileId
  designTemplateId := first.designTemplateId
  requiresReview := first.requiresReview
  materialType := first.materialType
  distributions := courses.map (·.distribution)
  tenant :=
    { tenantId := i.tenantId
      commercialName := orDefault (i.company.map (·.commercialName)) "Colegio Odiseo Innova"
      logoUrl := orDefault (i.company.map (·.logoUrl))
        "https://s3.aws.com/tenant-assets/odiseo-innova.png" }

/-- The job of one request, unless an exception keeps it from being added. -/
def SweepInputs.redispatch (i : SweepInputs) (db : Db) (rows : List StuckMaterialCourse)
    (r : RequestId) : Option GeneratePdfJob :=
  if i.lookupFails r || i.addFails r then none
  else (bucket rows r).head?.map fun first => i.jobPayload db first (bucket rows r)

/-- The requests for which jobs are added, with their jobs. -/
def SweepInputs.jobs (i : SweepInputs) (db : Db) (rows : List StuckMaterialCourse) :
    List GeneratePdfJob :=
  (requestsToSweep rows).filterMap (i.redispatch db rows)

/-- What a sweep leaves: its jobs and the `updated_at` of the requests. -/
structure Swept where
  jobs : List GeneratePdfJob
  updatedAt : RequestId → ℕ

/-- `sweepStuckMaterialCourses`. -/
def sweepStuckMaterialCourses (db : Db) (updatedAt : RequestId → ℕ) (i : SweepInputs) : Swept :=
  let rows := i.staleCourses db fun r => stale (updatedAt r) i.now
  { jobs := i.jobs db rows
    updatedAt := fun r =>
      if (i.jobs db rows).any (fun job => job.materialRequestId = r) && !i.bumpFails r
      then i.bumpedAt r else updatedAt r }

section Rows

variable {db : Db} {isStale : RequestId → Bool} {i : SweepInputs} {r : RequestId}
  {rows : List StuckMaterialCourse}

/-- A matching row is a course that is `PROCESSING` in a stale request. -/
theorem mem_stuckCourses {row : StuckMaterialCourse} :
    row ∈ db.stuckCourses isStale ↔ ∃ c ∈ db.courses.rows, ∃ q,
      c.status = .processing ∧ isStale c.materialRequestId = true ∧
        db.requests.find c.materialRequestId = some q ∧ stuckCourse c q = row := by
  rw [Db.stuckCourses, List.mem_filterMap]
  constructor
  · rintro ⟨c, hc, hrow⟩
    split at hrow
    · rename_i hstuck
      obtain ⟨q, hq, rfl⟩ := Option.map_eq_some_iff.mp hrow
      exact ⟨c, hc, q, hstuck.1, hstuck.2, hq, rfl⟩
    · cases hrow
  · rintro ⟨c, hc, q, hstatus, hstale, hq, rfl⟩
    refine ⟨c, hc, ?_⟩
    rw [if_pos ⟨hstatus, hstale⟩, hq]
    rfl

/-- The query answers matching rows. -/
theorem mem_staleCourses {row : StuckMaterialCourse} (h : row ∈ i.staleCourses db isStale) :
    row ∈ db.stuckCourses isStale := by
  unfold SweepInputs.staleCourses at h
  split at h
  · cases h
  · exact (i.scan.perm _).mem_iff.mp (List.mem_of_mem_take h)

/-- The job of a request is about this request. -/
theorem redispatch_request {job : GeneratePdfJob} (h : i.redispatch db rows r = some job) :
    job.materialRequestId = r := by
  unfold SweepInputs.redispatch at h
  split at h
  · cases h
  · obtain ⟨first, hfirst, rfl⟩ := Option.map_eq_some_iff.mp h
    have hmem := (List.mem_filter.mp (List.mem_of_head? hfirst)).2
    exact of_decide_eq_true hmem

/-- A request gets a job when one of its courses is answered, unless an exception keeps the
job from being added. -/
theorem redispatch_isSome : (i.redispatch db rows r).isSome = true ↔
    (i.lookupFails r || i.addFails r) = false ∧ ∃ c ∈ rows, c.materialRequestId = r := by
  unfold SweepInputs.redispatch
  cases hfails : i.lookupFails r || i.addFails r with
  | true => simp
  | false =>
    simp only [Bool.false_eq_true, if_false, Option.isSome_map, true_and, List.isSome_head?,
      bucket, ne_eq, List.filter_eq_nil_iff, decide_eq_true_eq]
    push Not
    rfl

/-- The keys of a map are distinct. -/
theorem nodup_eraseDups (rs : List RequestId) : rs.eraseDups.Nodup := by
  induction hlength : rs.length using Nat.strongRecOn generalizing rs with
  | ind n ih =>
    cases rs with
    | nil => exact List.nodup_nil
    | cons r rs =>
      rw [List.eraseDups_cons, List.nodup_cons]
      constructor
      · intro hmem
        have hkept := (List.mem_filter.mp (List.mem_eraseDups.mp hmem)).2
        simp at hkept
      · refine ih _ ?_ _ rfl
        have hle := List.length_filter_le (fun k => !k == r) rs
        rw [List.length_cons] at hlength
        omega

/-- Selecting one request among the jobs of different requests. -/
theorem filter_filterMap_redispatch {rs : List RequestId} (hnodup : rs.Nodup) :
    (rs.filterMap (i.redispatch db rows)).filter (fun job => job.materialRequestId = r) =
      if r ∈ rs then (i.redispatch db rows r).toList else [] := by
  induction rs with
  | nil => rfl
  | cons k rs ih =>
    obtain ⟨hk, hrest⟩ := List.nodup_cons.mp hnodup
    have ih := ih hrest
    by_cases hkr : k = r
    · subst hkr
      rw [if_neg hk] at ih
      rw [if_pos (List.mem_cons_self ..)]
      cases hjob : i.redispatch db rows k with
      | none => rw [List.filterMap_cons_none hjob, ih, Option.toList_none]
      | some job =>
        rw [List.filterMap_cons_some hjob, List.filter_cons_of_pos, ih, Option.toList_some]
        exact decide_eq_true (redispatch_request hjob)
    · have hmem : r ∈ k :: rs ↔ r ∈ rs := by
        rw [List.mem_cons]
        exact or_iff_right fun h => hkr h.symm
      simp only [hmem]
      cases hjob : i.redispatch db rows k with
      | none => rw [List.filterMap_cons_none hjob, ih]
      | some job =>
        rw [List.filterMap_cons_some hjob, List.filter_cons_of_neg, ih]
        rw [redispatch_request hjob]
        simpa using hkr

/-- **The jobs of one request** in a sweep: at most one. -/
theorem filter_jobs (i : SweepInputs) (db : Db) (rows : List StuckMaterialCourse)
    (r : RequestId) :
    (i.jobs db rows).filter (fun job => job.materialRequestId = r) =
      (i.redispatch db rows r).toList := by
  have hnodup : (requestsToSweep rows).Nodup := nodup_eraseDups _
  rw [SweepInputs.jobs, filter_filterMap_redispatch hnodup]
  split
  · rfl
  · rename_i hmem
    cases hjob : i.redispatch db rows r with
    | none => rfl
    | some job =>
      have hsome : (i.redispatch db rows r).isSome = true := by rw [hjob]; rfl
      obtain ⟨_, c, hc, hrequest⟩ := redispatch_isSome.mp hsome
      apply absurd _ hmem
      rw [requestsToSweep, List.mem_eraseDups]
      exact List.mem_map.mpr ⟨c, hc, hrequest⟩

/-- A request is among those of the jobs when it has a job. -/
theorem any_jobs (i : SweepInputs) (db : Db) (rows : List StuckMaterialCourse) (r : RequestId) :
    ((i.jobs db rows).any fun job => job.materialRequestId = r) =
      (i.redispatch db rows r).isSome := by
  have hfilter := filter_jobs i db rows r
  rw [Bool.eq_iff_iff, List.any_eq_true]
  constructor
  · rintro ⟨job, hjob, hrequest⟩
    have hmem : job ∈ (i.jobs db rows).filter fun job => job.materialRequestId = r :=
      List.mem_filter.mpr ⟨hjob, hrequest⟩
    rw [hfilter] at hmem
    exact Option.isSome_iff_exists.mpr ⟨job, by simpa using hmem⟩
  · intro hsome
    obtain ⟨job, hjob⟩ := Option.isSome_iff_exists.mp hsome
    have hmem : job ∈ (i.jobs db rows).filter fun job => job.materialRequestId = r := by
      rw [hfilter, hjob]
      simp
    exact ⟨job, List.mem_filter.mp hmem⟩

end Rows

end Odiseo.Materials
