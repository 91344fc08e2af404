import Odiseo.Materials.Sweep

/-!
# A redispatch is a partition

The jobs of a sweep hold the stale courses of the requests that do not fail, each course once,
under the data of its own request. The buckets have distinct keys and take every row along, and
the rows of one bucket were joined with one request.
-/

namespace Odiseo.Materials

open Database

/-- A course as a job dispatches it. -/
structure DispatchedCourse where
  courseRequestId : Option CourseRequestId
  courseId : CatalogId
  materialRequestId : RequestId
  cycleId : Uuid
  weekNumber : ℕ
  designTemplateId : Option Uuid
  templateName : String
  deriving DecidableEq, Repr

/-- The courses of a job. -/
def GeneratePdfJob.dispatched (job : GeneratePdfJob) : List DispatchedCourse :=
  job.distributions.map fun d =>
    ⟨d.courseRequestId, d.courseId, job.materialRequestId, job.cycleId, job.weekNumber,
      job.designTemplateId, job.templateName⟩

/-- The stale courses of the requests that do not fail, each with the data of its own request
and of the template of its profile. -/
def Db.toDispatch (db : Db) (isStale fails : RequestId → Bool) : List DispatchedCourse :=
  db.courses.rows.filterMap fun c =>
    if c.status = .processing ∧ isStale c.materialRequestId ∧ fails c.materialRequestId = false then
      (db.requests.find c.materialRequestId).map fun q =>
        ⟨some c.id, c.courseId, q.id, q.cycleId, q.weekNumber, q.designTemplateId,
          db.templateName q.profileId⟩
    else none

/-- The template read or the queue addition of a request fails. -/
def SweepInputs.fails (i : SweepInputs) (r : RequestId) : Bool := i.lookupFails r || i.addFails r

/-- A row as a job of its own would dispatch it. -/
def StuckMaterialCourse.dispatched (row : StuckMaterialCourse) (db : Db) : DispatchedCourse :=
  ⟨some row.courseRequestId, row.courseId, row.materialRequestId, row.cycleId, row.weekNumber,
    row.designTemplateId, db.templateName row.profileId⟩

section Buckets

variable {κ ρ : Type} [DecidableEq κ]

/-- **The buckets of distinct keys** hold the rows of these keys. -/
theorem flatMap_filter_perm (g : ρ → κ) {keys : List κ} (hnodup : keys.Nodup) (rows : List ρ) :
    (keys.flatMap fun k => rows.filter fun r => g r = k).Perm
      (rows.filter fun r => g r ∈ keys) := by
  induction keys with
  | nil => simp
  | cons k keys ih =>
    obtain ⟨hk, hrest⟩ := List.nodup_cons.mp hnodup
    have hfirst : (rows.filter fun r => g r ∈ k :: keys).filter (fun r => g r = k) =
        rows.filter fun r => g r = k := by
      rw [List.filter_filter]
      apply List.filter_congr
      intro r _
      by_cases h : g r = k <;> simp [h]
    have hother : (rows.filter fun r => g r ∈ k :: keys).filter (fun r => !decide (g r = k)) =
        rows.filter fun r => g r ∈ keys := by
      rw [List.filter_filter]
      apply List.filter_congr
      intro r _
      by_cases h : g r = k <;> simp [h, hk]
    rw [List.flatMap_cons, ← hfirst]
    refine ((ih hrest).append_left _).trans ?_
    rw [← hother]
    exact List.filter_append_perm _ _

/-- A map over the buckets of some keys. -/
theorem flatMap_map_filter_perm {β : Type} (g : ρ → κ) (f : ρ → β) {keys : List κ}
    (hnodup : keys.Nodup) (rows : List ρ) :
    (keys.flatMap fun k => (rows.filter fun r => g r = k).map f).Perm
      ((rows.filter fun r => g r ∈ keys).map f) := by
  have hmap : (keys.flatMap fun k => (rows.filter fun r => g r = k).map f) =
      (keys.flatMap fun k => rows.filter fun r => g r = k).map f := by
    rw [List.map_flatMap]
  rw [hmap]
  exact (flatMap_filter_perm g hnodup rows).map f

end Buckets

section Jobs

variable {db : Db} {isStale : RequestId → Bool} {i : SweepInputs} {r : RequestId}
  {rows : List StuckMaterialCourse}

/-- The rows of one request carry the data of one request. -/
theorem same_request {row row' : StuckMaterialCourse} (h : row ∈ db.stuckCourses isStale)
    (h' : row' ∈ db.stuckCourses isStale) (hsame : row.materialRequestId = row'.materialRequestId) :
    row.cycleId = row'.cycleId ∧ row.weekNumber = row'.weekNumber ∧
      row.designTemplateId = row'.designTemplateId ∧ row.profileId = row'.profileId := by
  obtain ⟨c, _, q, _, _, hq, rfl⟩ := mem_stuckCourses.mp h
  obtain ⟨c', _, q', _, _, hq', rfl⟩ := mem_stuckCourses.mp h'
  have hid : q.id = q'.id := hsame
  have hkey : q.id = c.materialRequestId := Table.key_of_find hq
  have hkey' : q'.id = c'.materialRequestId := Table.key_of_find hq'
  rw [← hkey, hid, hkey', hq'] at hq
  cases hq
  exact ⟨rfl, rfl, rfl, rfl⟩

/-- **The job of a request** dispatches the rows of the request, each with its own data. -/
theorem dispatched_redispatch (hrows : ∀ row ∈ rows, row ∈ db.stuckCourses isStale) :
    ((i.redispatch db rows r).toList.flatMap (·.dispatched)) =
      if i.fails r then [] else (bucket rows r).map fun row => row.dispatched db := by
  unfold SweepInputs.redispatch SweepInputs.fails
  split
  · rfl
  · cases hbucket : bucket rows r with
    | nil => rfl
    | cons first rest =>
      have hmem : ∀ row ∈ bucket rows r, row ∈ rows ∧ row.materialRequestId = r := by
        intro row hrow
        obtain ⟨hin, hr⟩ := List.mem_filter.mp hrow
        exact ⟨hin, of_decide_eq_true hr⟩
      have hfirst := hmem first (by simp [hbucket])
      simp only [List.head?_cons, Option.map_some, Option.toList_some, List.flatMap_cons,
        List.flatMap_nil, List.append_nil]
      unfold GeneratePdfJob.dispatched SweepInputs.jobPayload
      rw [List.map_map]
      apply List.map_congr_left
      intro row hrow
      have hown := hmem row (by rw [hbucket]; exact hrow)
      obtain ⟨hcycle, hweek, hdesign, hprofile⟩ := same_request (hrows first hfirst.1)
        (hrows row hown.1) (hfirst.2.trans hown.2.symm)
      simp only [Function.comp_apply, StuckMaterialCourse.distribution,
        StuckMaterialCourse.dispatched, hfirst.2, hown.2, hcycle, hweek, hdesign, hprofile]

/-- What is to be dispatched are the rows of the requests that do not fail. -/
theorem toDispatch_eq (db : Db) (isStale fails : RequestId → Bool) :
    db.toDispatch isStale fails =
      ((db.stuckCourses isStale).filter fun row => !fails row.materialRequestId).map
        fun row => row.dispatched db := by
  unfold Db.toDispatch Db.stuckCourses
  induction db.courses.rows with
  | nil => rfl
  | cons c rows ih =>
    rw [List.filterMap_cons, List.filterMap_cons]
    by_cases hstuck : c.status = .processing ∧ isStale c.materialRequestId = true
    · cases hq : db.requests.find c.materialRequestId with
      | none => simp [hstuck, ih]
      | some q =>
        have hid : q.id = c.materialRequestId := Table.key_of_find hq
        cases hfails : fails c.materialRequestId with
        | true => simp [hstuck, hfails, ih, stuckCourse, hid]
        | false => simp [hstuck, hfails, ih, stuckCourse, hid, StuckMaterialCourse.dispatched]
    · have hskip : ¬(c.status = .processing ∧ isStale c.materialRequestId = true ∧
          fails c.materialRequestId = false) := fun h => hstuck ⟨h.1, h.2.1⟩
      rw [if_neg hstuck, if_neg hskip]
      exact ih

/-- The rows of a request, when those of the requests that fail are left out. -/
theorem filter_not_fails (i : SweepInputs) (rows : List StuckMaterialCourse) (r : RequestId) :
    ((rows.filter fun row => !i.fails row.materialRequestId).filter fun row =>
      row.materialRequestId = r) = if i.fails r then [] else bucket rows r := by
  unfold bucket
  rw [List.filter_filter]
  split
  · rename_i hfails
    rw [List.filter_eq_nil_iff]
    intro row _
    simp only [Bool.and_eq_true, decide_eq_true_eq, Bool.not_eq_true', not_and]
    rintro rfl
    simp [hfails]
  · rename_i hfails
    apply List.filter_congr
    intro row _
    by_cases hr : row.materialRequestId = r <;> simp [hr, hfails]

/-- **The jobs** dispatch the rows of the requests that do not fail. -/
theorem dispatched_jobs (hrows : ∀ row ∈ rows, row ∈ db.stuckCourses isStale) :
    ((i.jobs db rows).flatMap (·.dispatched)).Perm
      ((rows.filter fun row => !i.fails row.materialRequestId).map fun row =>
        row.dispatched db) := by
  have hjobs : (i.jobs db rows).flatMap (·.dispatched) =
      (requestsToSweep rows).flatMap fun r =>
        ((rows.filter fun row => !i.fails row.materialRequestId).filter fun row =>
          row.materialRequestId = r).map fun row => row.dispatched db := by
    unfold SweepInputs.jobs
    rw [List.filterMap_eq_flatMap_toList, List.flatMap_assoc]
    apply List.flatMap_congr
    intro r _
    rw [dispatched_redispatch hrows, filter_not_fails]
    split <;> rfl
  have hall : ((rows.filter fun row => !i.fails row.materialRequestId).filter fun row =>
      row.materialRequestId ∈ requestsToSweep rows) =
      rows.filter fun row => !i.fails row.materialRequestId := by
    rw [List.filter_eq_self]
    intro row hrow
    have hin := (List.mem_filter.mp hrow).1
    simpa [requestsToSweep] using ⟨row, hin, rfl⟩
  have hperm := flatMap_map_filter_perm (fun row : StuckMaterialCourse => row.materialRequestId)
    (fun row => row.dispatched db) (nodup_eraseDups (rows.map (·.materialRequestId)))
    (rows.filter fun row => !i.fails row.materialRequestId)
  rw [hjobs]
  rw [requestsToSweep] at hall ⊢
  rwa [hall] at hperm

/-- The job of a request depends on what happens to this request. -/
theorem redispatch_congr {i' : SweepInputs} (htenant : i.tenantId = i'.tenantId)
    (hcompany : i.company = i'.company) (hfails : i.fails r = i'.fails r) :
    i.redispatch db rows r = i'.redispatch db rows r := by
  unfold SweepInputs.fails at hfails
  unfold SweepInputs.redispatch SweepInputs.jobPayload
  rw [hfails, htenant, hcompany]

/-- The requests of the jobs, among those of the buckets. -/
theorem map_filterMap_sublist {rs : List RequestId} :
    ((rs.filterMap (i.redispatch db rows)).map (·.materialRequestId)).Sublist rs := by
  induction rs with
  | nil => exact .slnil
  | cons r rs ih =>
    cases hjob : i.redispatch db rows r with
    | none =>
      rw [List.filterMap_cons_none hjob]
      exact ih.cons r
    | some job =>
      rw [List.filterMap_cons_some hjob, List.map_cons, redispatch_request hjob]
      exact ih.cons_cons r

/-- A job dispatches a course. -/
theorem dispatched_ne_nil (hrows : ∀ row ∈ rows, row ∈ db.stuckCourses isStale)
    {job : GeneratePdfJob} (hjob : i.redispatch db rows r = some job) : job.dispatched ≠ [] := by
  have hsome : (i.redispatch db rows r).isSome = true := by simp [hjob]
  obtain ⟨hfails, c, hc, hrequest⟩ := redispatch_isSome.mp hsome
  have hfails : i.fails r = false := hfails
  have hown := dispatched_redispatch (i := i) (r := r) hrows
  rw [hjob, hfails] at hown
  simp only [Option.toList_some, List.flatMap_cons, List.flatMap_nil, List.append_nil,
    Bool.false_eq_true, if_false] at hown
  rw [hown, ne_eq, List.map_eq_nil_iff]
  exact List.ne_nil_of_mem (List.mem_filter.mpr ⟨hc, decide_eq_true hrequest⟩)

end Jobs

/-- What a sweep does for one request: its jobs and its `updated_at`. -/
def Swept.forRequest (s : Swept) (r : RequestId) : List GeneratePdfJob × ℕ :=
  (s.jobs.filter fun job => job.materialRequestId = r, s.updatedAt r)

/-- The sweep of the stale courses of a tenant when other requests fail. -/
def SweepInputs.withFailures (i : SweepInputs) (lookupFails addFails bumpFails : RequestId → Bool) :
    SweepInputs :=
  { i with lookupFails := lookupFails, addFails := addFails, bumpFails := bumpFails }

/-- What a sweep does for a request. -/
theorem forRequest_sweep (db : Db) (updatedAt : RequestId → ℕ) (i : SweepInputs) (r : RequestId) :
    (sweepStuckMaterialCourses db updatedAt i).forRequest r =
      let job := i.redispatch db (i.staleCourses db fun r => stale (updatedAt r) i.now) r
      (job.toList, if job.isSome && !i.bumpFails r then i.bumpedAt r else updatedAt r) := by
  unfold Swept.forRequest sweepStuckMaterialCourses
  simp only [filter_jobs, any_jobs]

/-- A request that fails has no job. -/
theorem redispatch_of_fails {i : SweepInputs} {r : RequestId} (h : i.fails r = true) (db : Db)
    (rows : List StuckMaterialCourse) : i.redispatch db rows r = none := by
  unfold SweepInputs.fails at h
  unfold SweepInputs.redispatch
  rw [if_pos h]

/-- **A redispatch is a partition.** The jobs of a sweep whose query answers below its cap hold
exactly the stale courses of the requests that do not fail, each of them once and with the data
of its own request; no request has two jobs and no job is empty. A request that fails has no
job and keeps its `updated_at`, and for every other request the sweep does the same whichever
requests fail beside it. -/
theorem sweep_partition (db : Db) (updatedAt : RequestId → ℕ) (i : SweepInputs)
    (hquery : i.queryFails = false)
    (hcap : (db.stuckCourses fun r => stale (updatedAt r) i.now).length ≤ sweepBatchLimit) :
    ((sweepStuckMaterialCourses db updatedAt i).jobs.flatMap (·.dispatched)).Perm
        (db.toDispatch (fun r => stale (updatedAt r) i.now) i.fails) ∧
      ((sweepStuckMaterialCourses db updatedAt i).jobs.map (·.materialRequestId)).Nodup ∧
      (∀ job ∈ (sweepStuckMaterialCourses db updatedAt i).jobs, job.dispatched ≠ []) ∧
      (∀ r, i.fails r = true →
        (sweepStuckMaterialCourses db updatedAt i).forRequest r = ([], updatedAt r)) ∧
      ∀ (lookupFails addFails bumpFails : RequestId → Bool) (r : RequestId),
        (lookupFails r || addFails r) = i.fails r → bumpFails r = i.bumpFails r →
          (sweepStuckMaterialCourses db updatedAt
              (i.withFailures lookupFails addFails bumpFails)).forRequest r =
            (sweepStuckMaterialCourses db updatedAt i).forRequest r := by
  have hrows : i.staleCourses db (fun r => stale (updatedAt r) i.now) =
      i.scan.order (db.stuckCourses fun r => stale (updatedAt r) i.now) := by
    unfold SweepInputs.staleCourses
    rw [if_neg (by simp [hquery]), List.take_of_length_le]
    rwa [(i.scan.perm _).length_eq]
  refine ⟨?_, ?_, ?_, ?_, ?_⟩
  · rw [toDispatch_eq]
    refine (dispatched_jobs fun row => mem_staleCourses).trans ?_
    rw [hrows]
    exact ((i.scan.perm _).filter _).map _
  · exact (nodup_eraseDups _).sublist map_filterMap_sublist
  · intro job hjob
    obtain ⟨r, _, hr⟩ := List.mem_filterMap.mp hjob
    exact dispatched_ne_nil (fun row => mem_staleCourses) hr
  · intro r hfails
    rw [forRequest_sweep]
    simp [redispatch_of_fails hfails]
  · intro lookupFails addFails bumpFails r hfails hbump
    have hstale : (i.withFailures lookupFails addFails bumpFails).staleCourses db
        (fun r => stale (updatedAt r) i.now) =
        i.staleCourses db fun r => stale (updatedAt r) i.now := rfl
    have hjob : (i.withFailures lookupFails addFails bumpFails).redispatch db
        (i.staleCourses db fun r => stale (updatedAt r) i.now) r =
        i.redispatch db (i.staleCourses db fun r => stale (updatedAt r) i.now) r :=
      redispatch_congr rfl rfl hfails
    rw [forRequest_sweep, forRequest_sweep]
    have hbumps : (i.withFailures lookupFails addFails bumpFails).bumpFails r = i.bumpFails r :=
      hbump
    have hnow : (i.withFailures lookupFails addFails bumpFails).now = i.now := rfl
    have hat : (i.withFailures lookupFails addFails bumpFails).bumpedAt = i.bumpedAt := rfl
    simp only [hnow, hstale, hjob, hbumps, hat]

/-- Two requests of different cycles, with two courses and one course that are being printed. -/
def twoRequests : Db :=
  { emptyTenant ⟨[], [], [], [], []⟩ with
    requests := [(⟨1, 1, 1, 3, .processing, false, "BALOTARIO", none, none, none, none, none, 1⟩ :
      MaterialRequest), ⟨2, 1, 4, 5, .processing, false, "BALOTARIO", none, none, none, none, none,
        1⟩].foldl Table.insert .empty
    courses := [(⟨11, 1, 5, .processing, none, none, none, none, none, none, none⟩ :
      MaterialRequestCourse), ⟨12, 2, 5, .processing, none, none, none, none, none, none, none⟩,
        ⟨13, 1, 6, .processing, none, none, none, none, none, none, none⟩].foldl
          Table.insert .empty }

/-- A sweep in which the queue refuses the job of the second request. -/
def refusingSweep : SweepInputs where
  tenantId := 7
  company := none
  now := 6 * minute
  scan := .sequential
  queryFails := false
  lookupFails := fun _ => false
  addFails := fun r => r = 2
  bumpFails := fun _ => false
  bumpedAt := fun _ => 6 * minute

/-- The two courses of the first request are dispatched. -/
theorem sweep_partition_refusing :
    ((sweepStuckMaterialCourses twoRequests (fun _ => 0) refusingSweep).jobs.flatMap
        (·.dispatched)).Perm
      [⟨some 11, 5, 1, 1, 3, none, "Material"⟩, ⟨some 13, 6, 1, 1, 3, none, "Material"⟩] ∧
      (sweepStuckMaterialCourses twoRequests (fun _ => 0) refusingSweep).forRequest 2 =
        ([], 0) := by
  obtain ⟨hperm, _, _, hfails, _⟩ := sweep_partition twoRequests (fun _ => 0) refusingSweep rfl
    (by decide)
  have hdispatch : twoRequests.toDispatch (fun _ => stale 0 refusingSweep.now)
      refusingSweep.fails =
      [⟨some 11, 5, 1, 1, 3, none, "Material"⟩, ⟨some 13, 6, 1, 1, 3, none, "Material"⟩] := by
    decide
  rw [hdispatch] at hperm
  exact ⟨hperm, hfails 2 (by decide)⟩

end Odiseo.Materials
