import Odiseo.Materials.SiteSpec

/-!
# What holds at the site of a tenant

Courses belong to requests, and their PDFs have been uploaded for them. The jobs of the worker
and the rows of the sweeps name the courses that they print. Solutions are always printed with the
answer keys. A PDF shows the slots that its course had when they were read, and these are the slots
of today as long as nobody has changed them.
-/

namespace Odiseo.Materials

open Database Database.Transition

/-- The course of a job that the worker may still print or report. -/
def Site.Pending (w : Site) (job : CourseJob) : Prop :=
  (∃ j ∈ w.jobs, job ∈ j.courseJobs) ∨ ∃ p ∈ w.prints, p.job = job

/-- The request and the catalog course of a job. -/
def CourseJob.place (job : CourseJob) : RequestId × CatalogId :=
  (job.materialRequestId, job.dist.courseId)

/-- A job names the course that it prints, with its solutions when its answer key is printed. -/
structure CourseJob.Sound (db : Db) (job : CourseJob) : Prop where
  variants : job.variants = [.student] ∨ job.variants = [.student, .keys, .solutions]
  course : ∀ id, job.dist.courseRequestId = some id →
    ∃ c, db.courses.find id = some c ∧ c.place = job.place

/-- A course belongs to a request, and its PDFs are there. -/
structure Site.CourseSound (w : Site) (c : MaterialRequestCourse) : Prop where
  request : ∃ q, w.db.requests.find c.materialRequestId = some q
  url : ∀ variant url, c.url variant = some url → ∃ key, url = .object key ∧
    (key.materialRequestId, key.courseId) = c.place ∧ (w.files url).isSome = true
  solutions : (c.url .solutions).isSome = (c.url .keys).isSome
  student : (c.url .keys).isSome = true → (c.url .student).isSome = true

/-- Slots were read for a course when its slots had been changed `n` times. -/
structure Site.Read (w : Site) (place : RequestId × CatalogId)
    (slots : List MaterialReviewQuestion) (n : ℕ) : Prop where
  past : n ≤ w.curations place.1 place.2
  current : n = w.curations place.1 place.2 → slots = w.db.courseSlots place.1 place.2

/-- A row that a sweep has read is that of a course. -/
def StuckMaterialCourse.Sound (db : Db) (row : StuckMaterialCourse) : Prop :=
  ∃ c, db.courses.find row.courseRequestId = some c ∧
    c.place = (row.materialRequestId, row.courseId)

/-- What holds of a site in every run. -/
structure Site.Sound (w : Site) : Prop where
  courses : ∀ id c, w.db.courses.find id = some c → w.CourseSound c
  jobs : ∀ job, w.Pending job → job.Sound w.db
  prints : ∀ p ∈ w.prints, w.Read p.job.place p.slots p.curation
  uploaded : ∀ p ∈ w.prints, p.uploaded = true → ∀ url ∈ p.urls, (w.files url).isSome = true
  files : ∀ key file, w.files (.object key) = some file → ∃ print, file = [print] ∧
    w.Read (key.materialRequestId, key.courseId) print.slots (w.readAt (.object key))
  sweeps : ∀ s ∈ w.sweeps, ∀ row ∈ s.rows, row.Sound w.db

section Places

variable {a b : Db}

/-- No request and no course is lost or moved. -/
structure KeepsPlaces (a b : Db) : Prop where
  requests : ∀ k q, a.requests.find k = some q →
    ∃ q', b.requests.find k = some q' ∧ q'.requiresReview = q.requiresReview
  courses : ∀ k c, a.courses.find k = some c →
    ∃ c', b.courses.find k = some c' ∧ c'.place = c.place

/-- A course has the PDFs that it had, or is a new course without any. -/
def SamePdfs (a b : Db) : Prop :=
  ∀ k c', b.courses.find k = some c' →
    (∃ c, a.courses.find k = some c ∧ c'.place = c.place ∧
      ∀ variant, c'.url variant = c.url variant) ∨
      (∃ q, b.requests.find c'.materialRequestId = some q) ∧ ∀ variant, c'.url variant = none

/-- Requests that are kept still say whether they need a review. -/
theorem KeepsRequests.review (h : KeepsRequests a b) (k : RequestId) (q : MaterialRequest)
    (hq : a.requests.find k = some q) :
    ∃ q', b.requests.find k = some q' ∧ q'.requiresReview = q.requiresReview := by
  obtain ⟨q', hq', -, hreview⟩ := h k q hq
  exact ⟨q', hq', hreview⟩

/-- A call that leaves the courses alone. -/
theorem Untouched.keepsPlaces (h : Untouched a b) : KeepsPlaces a b ∧ SamePdfs a b := by
  refine ⟨⟨h.requests.review, ?_⟩, ?_⟩
  · intro k c hc
    exact ⟨c, by rw [h.courses]; exact hc, rfl⟩
  · intro k c' hc'
    rw [h.courses] at hc'
    exact .inl ⟨c', hc', rfl, fun _ => rfl⟩

/-- An approval leaves the PDFs of a course alone. -/
theorem url_approvedCourse (id : RequestId) (dto : ApproveReview)
    (courses : List MaterialRequestCourse) (c : MaterialRequestCourse) (variant : Variant) :
    (approvedCourse id dto courses c).url variant = c.url variant := by
  unfold approvedCourse
  split <;> cases variant <;> rfl

/-- An approval changes statuses only. -/
theorem Approved.keepsPlaces {orm : Orm} {id : RequestId} {dto : ApproveReview}
    {ctx : MaterialReviewContext} {result : ApprovalResult}
    (h : Approved orm id dto ctx a b result) : KeepsPlaces a b ∧ SamePdfs a b := by
  refine ⟨⟨h.keepsRequests.review, ?_⟩, ?_⟩
  · intro k c hc
    exact ⟨_, by rw [h.courses.find, hc, Option.map_some], h.courses.place c⟩
  · intro k c' hc'
    rw [h.courses.find] at hc'
    obtain ⟨c, hc, rfl⟩ := Option.map_eq_some_iff.mp hc'
    exact .inl ⟨c, hc, h.courses.place c, url_approvedCourse id dto (a.coursesOf id) c⟩

/-- A generation adds a request with courses that have no PDF. -/
theorem Created.keepsPlaces {g : GenerateInputs} (h : Created g a b) :
    KeepsPlaces a b ∧ SamePdfs a b := by
  refine ⟨⟨?_, ?_⟩, ?_⟩
  · intro k q hq
    refine ⟨q, ?_, rfl⟩
    rw [h.others]
    · exact hq
    · rintro rfl
      rw [h.fresh] at hq
      cases hq
  · intro k c hc
    exact ⟨c, h.kept k c hc, rfl⟩
  · intro k c' hc'
    rcases h.courses k c' hc' with hold | ⟨x, hx, status, rfl, -⟩
    · exact .inl ⟨c', hold, rfl, fun _ => rfl⟩
    · obtain ⟨m, hm⟩ := h.request
      obtain ⟨dist, -, rfl⟩ := List.mem_map.mp hx
      exact .inr ⟨⟨_, hm⟩, by intro variant; cases variant <;> rfl⟩

/-- A callback changes the course that it is about. -/
theorem keepsPlaces_after (cb : Callback) (id : CourseRequestId) (incoming : CourseMaterialStatus)
    (db : Db) : KeepsPlaces db (cb.after id incoming db) := by
  refine ⟨(keeps_after cb id incoming db).1.review, ?_⟩
  intro k c hc
  rw [find_courses_after, hc]
  split
  · refine ⟨_, rfl, ?_⟩
    unfold Callback.courseAfter
    split <;> rfl
  · exact ⟨c, rfl, rfl⟩

/-- Looking a request up when the addresses of its combined PDFs have been written. -/
theorem find_stored (m : Merging) (db : Db) (k : RequestId) :
    (m.stored db).requests.find k =
      if k = m.materialRequestId then (db.requests.find k).map fun q =>
        q.withMerged (m.url .student) ((m.combined .keys).map fun _ => m.url .keys)
          ((m.combined .solutions).map fun _ => m.url .solutions)
      else db.requests.find k :=
  find_updateRequest m.materialRequestId k (fun q : MaterialRequest =>
    q.withMerged (m.url .student) ((m.combined .keys).map fun _ => m.url .keys)
      ((m.combined .solutions).map fun _ => m.url .solutions)) (fun _ => rfl) db

/-- The addresses of combined PDFs are no columns of a course. -/
theorem keepsPlaces_stored (m : Merging) (db : Db) :
    KeepsPlaces db (m.stored db) ∧ SamePdfs db (m.stored db) := by
  refine ⟨⟨?_, fun k c hc => ⟨c, hc, rfl⟩⟩, fun k c' hc' => .inl ⟨c', hc', rfl, fun _ => rfl⟩⟩
  intro k q hq
  rw [find_stored, hq]
  split
  · exact ⟨_, rfl, rfl⟩
  · exact ⟨q, rfl, rfl⟩

/-- A job still names the course that it prints. -/
theorem CourseJob.Sound.keepsPlaces {job : CourseJob} (h : job.Sound a)
    (hplaces : KeepsPlaces a b) : job.Sound b where
  variants := h.variants
  course := by
    intro id hid
    obtain ⟨c, hc, hplace⟩ := h.course id hid
    obtain ⟨c', hc', hplace'⟩ := hplaces.courses id c hc
    exact ⟨c', hc', hplace'.trans hplace⟩

/-- A row that a sweep has read is still that of a course. -/
theorem StuckMaterialCourse.Sound.keepsPlaces {row : StuckMaterialCourse} (h : row.Sound a)
    (hplaces : KeepsPlaces a b) : row.Sound b := by
  obtain ⟨c, hc, hplace⟩ := h
  obtain ⟨c', hc', hplace'⟩ := hplaces.courses _ c hc
  exact ⟨c', hc', hplace'.trans hplace⟩

end Places

namespace Site

variable {w w' : Site}

/-- A course that is as it was, at a site with the same PDFs of courses and with its request. -/
theorem CourseSound.transfer {c c' : MaterialRequestCourse} (h : w.CourseSound c)
    (hplace : c'.place = c.place) (hurl : ∀ variant, c'.url variant = c.url variant)
    (hrequests : ∀ k q, w.db.requests.find k = some q →
      ∃ q', w'.db.requests.find k = some q' ∧ q'.requiresReview = q.requiresReview)
    (hfiles : ∀ key, (w.files (.object key)).isSome = true →
      (w'.files (.object key)).isSome = true) : w'.CourseSound c' := by
  have hid : c'.materialRequestId = c.materialRequestId := congrArg Prod.fst hplace
  constructor
  · obtain ⟨q, hq⟩ := h.request
    obtain ⟨q', hq', -⟩ := hrequests _ q hq
    exact ⟨q', hid ▸ hq'⟩
  · intro variant url hsome
    obtain ⟨key, rfl, hkey, hfile⟩ := h.url variant url (hurl variant ▸ hsome)
    exact ⟨key, rfl, hkey.trans hplace.symm, hfiles key hfile⟩
  · rw [hurl, hurl]
    exact h.solutions
  · rw [hurl, hurl]
    exact h.student

/-- A new course without any PDF. -/
theorem CourseSound.of_none {c : MaterialRequestCourse}
    (hrequest : ∃ q, w.db.requests.find c.materialRequestId = some q)
    (hurl : ∀ variant, c.url variant = none) : w.CourseSound c where
  request := hrequest
  url := by
    intro variant url hsome
    rw [hurl] at hsome
    cases hsome
  solutions := by rw [hurl, hurl]
  student := by
    rw [hurl]
    exact fun h => absurd h Bool.false_ne_true

/-- The changes of the slots are only counted up. -/
theorem curations_commit_le (db : Db) (jobs : List Job) (r : RequestId) (courseId : CatalogId) :
    w.curations r courseId ≤ (w.commit db jobs).curations r courseId := by
  change w.curations r courseId ≤ if _ then _ else _
  split
  · exact Nat.le_refl _
  · exact Nat.le_succ _

/-- What was read for a course is still current when nobody has changed the slots since. -/
theorem Read.commit {place : RequestId × CatalogId} {slots : List MaterialReviewQuestion} {n : ℕ}
    (h : w.Read place slots n) (db : Db) (jobs : List Job) :
    (w.commit db jobs).Read place slots n := by
  refine ⟨Nat.le_trans h.past (curations_commit_le ..), ?_⟩
  intro hn
  change n = if db.courseSlots place.1 place.2 = w.db.courseSlots place.1 place.2 then
    w.curations place.1 place.2 else w.curations place.1 place.2 + 1 at hn
  split at hn
  · rename_i hslots
    exact (h.current hn).trans hslots.symm
  · have hpast := h.past
    omega

/-- Neither the database nor the PDFs of courses change. -/
structure SameData (w w' : Site) : Prop where
  db : w'.db = w.db
  curations : w'.curations = w.curations
  readAt : w'.readAt = w.readAt
  files : ∀ key, w'.files (.object key) = w.files (.object key)
  prints : w'.prints ⊆ w.prints

/-- Neither the database nor the PDFs of courses change, and no work is added. -/
structure Quiet (w w' : Site) : Prop extends w.SameData w' where
  jobs : ∀ job, w'.Pending job → w.Pending job
  sweeps : w'.sweeps ⊆ w.sweeps

/-- The uploads of the worker go to the addresses of objects. -/
theorem object_of_mem_urls {p : Printing} {url : Url} (h : url ∈ p.urls) :
    ∃ variant ∈ p.job.variants, url = .object (p.job.artifactKey variant) := by
  obtain ⟨variant, hvariant, rfl⟩ := List.mem_map.mp h
  exact ⟨variant, hvariant, rfl⟩

/-- A step on which the database and the PDFs of courses stay, and what is added to the work names
courses. -/
theorem Sound.sameData (h : w.Sound) (hsame : w.SameData w')
    (hjobs : ∀ job, w'.Pending job → job.Sound w.db)
    (hsweeps : ∀ s ∈ w'.sweeps, ∀ row ∈ s.rows, row.Sound w.db) : w'.Sound where
  courses := by
    intro id c hc
    rw [hsame.db] at hc
    refine (h.courses id c hc).transfer rfl (fun _ => rfl) ?_ ?_
    · intro k q hq
      exact ⟨q, by rw [hsame.db]; exact hq, rfl⟩
    · intro key hfile
      rwa [hsame.files]
  jobs := by
    intro job hjob
    rw [hsame.db]
    exact hjobs job hjob
  prints := by
    intro p hp
    obtain ⟨hpast, hcurrent⟩ := h.prints p (hsame.prints hp)
    exact ⟨by rw [hsame.curations]; exact hpast,
      by rw [hsame.curations, hsame.db]; exact hcurrent⟩
  uploaded := by
    intro p hp huploaded url hurl
    obtain ⟨variant, -, rfl⟩ := object_of_mem_urls hurl
    rw [hsame.files]
    exact h.uploaded p (hsame.prints hp) huploaded _ hurl
  files := by
    intro key file hfile
    rw [hsame.files] at hfile
    obtain ⟨print, rfl, hpast, hcurrent⟩ := h.files key file hfile
    refine ⟨print, rfl, ?_, ?_⟩
    · rw [hsame.readAt, hsame.curations]
      exact hpast
    · rw [hsame.readAt, hsame.curations, hsame.db]
      exact hcurrent
  sweeps := by
    intro s hs
    rw [hsame.db]
    exact hsweeps s hs

/-- A step on which nothing but the queue or the work of the worker shrinks. -/
theorem Sound.quiet (h : w.Sound) (hquiet : w.Quiet w') : w'.Sound :=
  h.sameData hquiet.toSameData (fun job hjob => h.jobs job (hquiet.jobs job hjob))
    fun s hs => h.sweeps s (hquiet.sweeps hs)

/-- A commit keeps what holds of the site, when its courses and its jobs are in order. -/
theorem Sound.commit (h : w.Sound) {db : Db} {jobs : List Job} (hplaces : KeepsPlaces w.db db)
    (hcourses : ∀ k c, db.courses.find k = some c → (w.commit db jobs).CourseSound c)
    (hjobs : ∀ j ∈ jobs, ∀ job ∈ j.courseJobs, job.Sound db) : (w.commit db jobs).Sound where
  courses := hcourses
  jobs := by
    rintro job (⟨j, hj, hjob⟩ | ⟨p, hp, rfl⟩)
    · rcases List.mem_append.mp hj with hold | hnew
      · exact (h.jobs job (.inl ⟨j, hold, hjob⟩)).keepsPlaces hplaces
      · exact hjobs j hnew job hjob
    · exact (h.jobs _ (.inr ⟨p, hp, rfl⟩)).keepsPlaces hplaces
  prints := fun p hp => (h.prints p hp).commit db jobs
  uploaded := h.uploaded
  files := by
    intro key file hfile
    obtain ⟨print, hprint, hread⟩ := h.files key file hfile
    exact ⟨print, hprint, hread.commit db jobs⟩
  sweeps := fun s hs row hrow => (h.sweeps s hs row hrow).keepsPlaces hplaces

/-- A commit after which every course has the PDFs that it had, or is new. -/
theorem Sound.commit_of_samePdfs (h : w.Sound) {db : Db} {jobs : List Job}
    (hsame : KeepsPlaces w.db db ∧ SamePdfs w.db db)
    (hjobs : ∀ j ∈ jobs, ∀ job ∈ j.courseJobs, job.Sound db) : (w.commit db jobs).Sound := by
  refine h.commit hsame.1 ?_ hjobs
  intro k c' hc'
  rcases hsame.2 k c' hc' with ⟨c, hc, hplace, hurl⟩ | ⟨hrequest, hurl⟩
  · exact (h.courses k c hc).transfer hplace hurl hsame.1.requests fun _ hfile => hfile
  · exact .of_none hrequest hurl

end Site

section Jobs

variable {db : Db} {job : CourseJob}

/-- The courses of the job of a generation without review. -/
theorem Created.sound {g : GenerateInputs} {a : Db} (h : Created g a db) {j : Job}
    (hj : j ∈ g.result.jobsToDispatch) (hjob : job ∈ j.courseJobs) : job.Sound db := by
  unfold GenerateInputs.result at hj
  dsimp only at hj
  split at hj
  · cases hj
  obtain rfl := List.mem_singleton.mp hj
  obtain ⟨dist, hdist, rfl⟩ := List.mem_map.mp hjob
  obtain ⟨⟨given, k⟩, hgiven, rfl⟩ := List.mem_map.mp hdist
  refine ⟨.inr rfl, ?_⟩
  intro id hid
  obtain ⟨x, hfind, rfl⟩ := Option.map_eq_some_iff.mp hid
  have hx : x ∈ g.createdCourses := List.mem_of_find?_eq_some hfind
  obtain ⟨c, hc, hrequest, hcourse⟩ := h.new x hx
  have hsame : x.courseId = given.courseId := by simpa using List.find?_some hfind
  exact ⟨c, hc, Prod.ext (hrequest.trans (request_of_mem_createdCourses hx)) (hcourse.trans hsame)⟩

/-- The job of a generation is about a request without review. -/
theorem Created.unreviewed {g : GenerateInputs} {a : Db} (h : Created g a db) {j : Job}
    (hj : j ∈ g.result.jobsToDispatch) (hjob : job ∈ j.courseJobs) :
    ∃ q, db.requests.find job.materialRequestId = some q ∧ q.requiresReview = false := by
  unfold GenerateInputs.result at hj
  dsimp only at hj
  split at hj
  · cases hj
  · rename_i hreview
    have hreview : g.requiresReview = false := by simpa using hreview
    obtain rfl := List.mem_singleton.mp hj
    obtain ⟨dist, -, rfl⟩ := List.mem_map.mp hjob
    obtain ⟨m, hm⟩ := h.request
    exact ⟨_, hm, hreview⟩

/-- A job of an approval is that of one of its courses. -/
theorem exists_isJobOf {ctx : MaterialReviewContext} {request : MaterialRequest}
    {courses : List MaterialRequestCourse} {jobs : List Job}
    (h : List.Forall₂ (IsJobOf ctx request) courses jobs) {j : Job} (hj : j ∈ jobs) :
    ∃ c ∈ courses, IsJobOf ctx request c j := by
  obtain ⟨hlength, hget⟩ := List.forall₂_iff_get.mp h
  obtain ⟨i, hi, rfl⟩ := List.getElem_of_mem hj
  exact ⟨courses[i], List.getElem_mem (hlength ▸ hi), hget i (hlength ▸ hi) hi⟩

/-- The jobs of an approval print student PDFs only. -/
theorem Approved.variants {orm : Orm} {id : RequestId} {dto : ApproveReview}
    {ctx : MaterialReviewContext} {result : ApprovalResult} {a : Db}
    (h : Approved orm id dto ctx a db result) {j : Job} (hj : j ∈ result.jobsToDispatch)
    (hjob : job ∈ j.courseJobs) : job.variants = [.student] := by
  have hjobs := h.jobs
  split at hjobs
  · rw [hjobs] at hj
    cases hj
  · obtain ⟨request, -, hall⟩ := hjobs
    obtain ⟨c, -, company, template, distributions, rfl⟩ := exists_isJobOf hall hj
    obtain rfl := List.mem_singleton.mp hjob
    rfl

/-- The courses of the jobs of an approval. -/
theorem Approved.sound {orm : Orm} {id : RequestId} {dto : ApproveReview}
    {ctx : MaterialReviewContext} {result : ApprovalResult} {a : Db}
    (h : Approved orm id dto ctx a db result) {j : Job} (hj : j ∈ result.jobsToDispatch)
    (hjob : job ∈ j.courseJobs) : job.Sound db := by
  have hjobs := h.jobs
  split at hjobs
  · rw [hjobs] at hj
    cases hj
  obtain ⟨request, hrequest, hall⟩ := hjobs
  obtain ⟨c, hc, company, template, distributions, rfl⟩ := exists_isJobOf hall hj
  obtain rfl := List.mem_singleton.mp hjob
  obtain ⟨hfind, hr⟩ := Db.mem_coursesOf.mp hc
  refine ⟨.inl rfl, ?_⟩
  intro k hk
  cases hk
  refine ⟨_, by rw [h.courses.find, hfind, Option.map_some], (h.courses.place c).trans ?_⟩
  exact Prod.ext (hr.trans hrequest.symm) rfl

/-- The rows that a sweep reads are those of courses. -/
theorem sound_of_mem_staleCourses {i : SweepInputs} {isStale : RequestId → Bool}
    {row : StuckMaterialCourse} (h : row ∈ i.staleCourses db isStale) : row.Sound db := by
  obtain ⟨c, hc, q, -, -, hq, rfl⟩ := mem_stuckCourses.mp (mem_staleCourses h)
  refine ⟨c, Table.find_of_mem hc, ?_⟩
  exact Prod.ext (Db.request_id_of_find hq).symm rfl

/-- The courses of the job that a sweep dispatches. -/
theorem SweepInputs.sound_of_redispatch {i : SweepInputs} {catalog : Db}
    {rows : List StuckMaterialCourse} (hrows : ∀ row ∈ rows, row.Sound db) {r : RequestId}
    {data : GeneratePdfJob} (h : i.redispatch catalog rows r = some data)
    (hjob : job ∈ (Job.generatePdf data).courseJobs) : job.Sound db := by
  have hrequest : data.materialRequestId = r := redispatch_request h
  unfold SweepInputs.redispatch at h
  split at h
  · cases h
  obtain ⟨first, -, rfl⟩ := Option.map_eq_some_iff.mp h
  obtain ⟨dist, hdist, rfl⟩ := List.mem_map.mp hjob
  obtain ⟨row, hrow, rfl⟩ := List.mem_map.mp hdist
  obtain ⟨hmem, hrowr⟩ := List.mem_filter.mp hrow
  refine ⟨.inr rfl, ?_⟩
  intro id hid
  cases hid
  obtain ⟨c, hc, hplace⟩ := hrows row hmem
  refine ⟨c, hc, hplace.trans (Prod.ext ?_ rfl)⟩
  exact (of_decide_eq_true hrowr).trans hrequest.symm

/-- A callback dispatches no job that prints courses. -/
theorem courseJobs_of_mem_jobsAfter {cb : Callback} {id : CourseRequestId}
    {incoming : CourseMaterialStatus} {j : Job} (hj : j ∈ cb.jobsAfter id incoming db) :
    j.courseJobs = [] := by
  unfold Callback.jobsAfter at hj
  split at hj
  · cases hj
  · split at hj
    · cases hj
    · obtain ⟨tenantId, rfl⟩ := of_mem_mergeJobs hj
      rfl

end Jobs

namespace Site

variable {w : Site}

/-- The worker reads the slots of a course. -/
theorem Sound.read (h : w.Sound) {j : Job} {job : CourseJob} (hj : j ∈ w.jobs)
    (hjob : job ∈ j.courseJobs) (run : CourseRun) : (w.read job run).Sound where
  courses := fun id c hc => (h.courses id c hc).transfer rfl (fun _ => rfl)
    (fun _ q hq => ⟨q, hq, rfl⟩) fun _ hfile => hfile
  jobs := by
    rintro other (hqueued | ⟨p, hp, rfl⟩)
    · exact h.jobs other (.inl hqueued)
    · rcases List.mem_append.mp hp with hold | hnew
      · exact h.jobs _ (.inr ⟨p, hold, rfl⟩)
      · obtain rfl := List.mem_singleton.mp hnew
        exact h.jobs job (.inl ⟨j, hj, hjob⟩)
  prints := by
    intro p hp
    rcases List.mem_append.mp hp with hold | hnew
    · obtain ⟨hpast, hcurrent⟩ := h.prints p hold
      exact ⟨hpast, hcurrent⟩
    · obtain rfl := List.mem_singleton.mp hnew
      exact ⟨Nat.le_refl _, fun _ => rfl⟩
  uploaded := by
    intro p hp huploaded
    rcases List.mem_append.mp hp with hold | hnew
    · exact h.uploaded p hold huploaded
    · obtain rfl := List.mem_singleton.mp hnew
      cases huploaded
  files := by
    intro key file hfile
    obtain ⟨print, hprint, hpast, hcurrent⟩ := h.files key file hfile
    exact ⟨print, hprint, hpast, hcurrent⟩
  sweeps := h.sweeps

/-- A PDF is not lost by an upload. -/
theorem isSome_files_upload (k : ℕ) (p : Printing) {url : Url}
    (hurl : (w.files url).isSome = true) : ((w.upload k p).files url).isSome = true := by
  change (if url ∈ p.urls then some [p.print] else w.files url).isSome = true
  split
  · rfl
  · exact hurl

/-- The worker uploads the PDFs of a course. -/
theorem Sound.upload (h : w.Sound) {k : ℕ} {p : Printing} (hp : w.prints[k]? = some p) :
    (w.upload k p).Sound := by
  have hmem : p ∈ w.prints := List.mem_of_getElem? hp
  have hprint : ∀ x ∈ (w.upload k p).prints, ∃ y ∈ w.prints, x.job = y.job ∧ x.slots = y.slots ∧
      x.curation = y.curation ∧ (x.uploaded = true → y.uploaded = true ∨ x.job = p.job) := by
    intro x hx
    rcases List.mem_or_eq_of_mem_set hx with hold | rfl
    · exact ⟨x, hold, rfl, rfl, rfl, fun huploaded => .inl huploaded⟩
    · exact ⟨p, hmem, rfl, rfl, rfl, fun _ => .inr rfl⟩
  constructor
  · intro id c hc
    exact (h.courses id c hc).transfer rfl (fun _ => rfl) (fun _ q hq => ⟨q, hq, rfl⟩)
      fun _ hfile => isSome_files_upload k p hfile
  · rintro job (hqueued | ⟨x, hx, rfl⟩)
    · exact h.jobs job (.inl hqueued)
    · obtain ⟨y, hy, hjob, -⟩ := hprint x hx
      exact h.jobs _ (.inr ⟨y, hy, hjob.symm⟩)
  · intro x hx
    obtain ⟨y, hy, hjob, hslots, hcuration, -⟩ := hprint x hx
    obtain ⟨hpast, hcurrent⟩ := h.prints y hy
    rw [hjob, hslots, hcuration]
    exact ⟨hpast, hcurrent⟩
  · intro x hx huploaded url hurl
    obtain ⟨y, hy, hjob, -, -, huploaded'⟩ := hprint x hx
    rcases huploaded' huploaded with hold | hnew
    · have hsame : x.urls = y.urls := by
        unfold Printing.urls
        rw [hjob]
      exact isSome_files_upload k p (h.uploaded y hy hold url (hsame ▸ hurl))
    · have hsame : x.urls = p.urls := by
        unfold Printing.urls
        rw [hnew]
      change (if url ∈ p.urls then some [p.print] else w.files url).isSome = true
      rw [if_pos (hsame ▸ hurl)]
      rfl
  · intro key file hfile
    have hfile : (if .object key ∈ p.urls then some [p.print] else w.files (.object key)) =
        some file := hfile
    have hread : (w.upload k p).readAt (.object key) =
        if .object key ∈ p.urls then p.curation else w.readAt (.object key) := rfl
    split at hfile
    · rename_i hurl
      cases hfile
      obtain ⟨variant, -, hkey⟩ := object_of_mem_urls hurl
      obtain rfl := Url.object.inj hkey
      obtain ⟨hpast, hcurrent⟩ := h.prints p hmem
      refine ⟨p.print, rfl, ?_⟩
      rw [hread, if_pos hurl]
      exact ⟨hpast, hcurrent⟩
    · rename_i hurl
      obtain ⟨print, hprint, hpast, hcurrent⟩ := h.files key file hfile
      refine ⟨print, hprint, ?_⟩
      rw [hread, if_neg hurl]
      exact ⟨hpast, hcurrent⟩
  · exact h.sweeps

/-- Which PDFs a success of the course brings. -/
theorem isSome_printing_url (p : Printing) (variant : Variant) :
    (p.url variant).isSome = (p.prints && decide (variant ∈ p.job.variants)) := by
  unfold Printing.url CourseJob.url
  cases p.prints with
  | false => rfl
  | true =>
    by_cases hvariant : variant ∈ p.job.variants
    · simp [hvariant]
    · simp [hvariant]

/-- The course of a printing after its report. -/
theorem CourseSound.report {p : Printing} {c : MaterialRequestCourse} (h : w.CourseSound c)
    (hjob : p.job.Sound w.db) (hplace : c.place = p.job.place)
    (hfiles : p.prints = true → ∀ url ∈ p.urls, (w.files url).isSome = true) :
    w.CourseSound (p.callback.change p.reported c) := by
  have hvariants : ∀ variant, (p.url variant).isSome =
      (p.prints && decide (variant ∈ p.job.variants)) := isSome_printing_url p
  have hpair : (p.url .solutions).isSome = (p.url .keys).isSome := by
    rw [hvariants, hvariants]
    rcases hjob.variants with hone | hall
    · simp [hone]
    · simp [hall]
  have hstudent : (p.url .keys).isSome = true → (p.url .student).isSome = true := by
    rw [hvariants, hvariants]
    rcases hjob.variants with hone | hall
    · simp [hone]
    · simp [hall]
  have hsome : ∀ variant, ((p.callback.change p.reported c).url variant).isSome =
      ((p.url variant).isSome || (c.url variant).isSome) := by
    intro variant
    rw [url_change, Option.isSome_or]
  constructor
  · exact h.request
  · intro variant url hurl
    rw [url_change, Option.or_eq_some_iff] at hurl
    rcases hurl with hnew | ⟨-, hold⟩
    · obtain ⟨hprints, -, rfl, hmem⟩ := p.url_eq_some hnew
      exact ⟨_, rfl, hplace.symm, hfiles hprints _ hmem⟩
    · exact h.url variant url hold
  · rw [hsome, hsome, hpair, h.solutions]
  · rw [hsome, hsome, Bool.or_eq_true, Bool.or_eq_true]
    exact Or.imp hstudent h.student

/-- What is erased from the work of the worker is gone. -/
theorem quiet_eraseIdx (k : ℕ) : w.Quiet { w with prints := w.prints.eraseIdx k } where
  db := rfl
  curations := rfl
  readAt := rfl
  files := fun _ => rfl
  jobs := by
    rintro job (hqueued | ⟨p, hp, hjob⟩)
    · exact .inl hqueued
    · exact .inr ⟨p, List.mem_of_mem_eraseIdx hp, hjob⟩
  prints := List.eraseIdx_subset
  sweeps := List.Subset.refl _

/-- The report of a course is handled. -/
theorem Sound.reported (h : w.Sound) {k : ℕ} {p : Printing} {id : CourseRequestId}
    (hp : w.prints[k]? = some p) (hid : p.job.dist.courseRequestId = some id)
    (hready : p.prints = true → p.uploaded = true) : (w.reported k p id).Sound := by
  have hmem : p ∈ w.prints := List.mem_of_getElem? hp
  have hjob : p.job.Sound w.db := h.jobs _ (.inr ⟨p, hmem, rfl⟩)
  have hplaces := keepsPlaces_after p.callback id p.reported w.db
  set erased : Site := { w with prints := w.prints.eraseIdx k } with herased
  have herasedSound : erased.Sound := h.quiet (quiet_eraseIdx k)
  have hcommit : (erased.commit (p.callback.after id p.reported w.db)
      (p.callback.jobsAfter id p.reported w.db)).Sound := by
    refine herasedSound.commit hplaces ?_ ?_
    · intro j c' hc'
      rw [find_courses_after] at hc'
      split at hc'
      · rename_i hj
        obtain ⟨c, hc, rfl⟩ := Option.map_eq_some_iff.mp hc'
        have hsound := h.courses j c hc
        obtain ⟨row, hrow, hplace⟩ := hjob.course id hid
        rw [hj, hrow] at hc
        cases hc
        have hnew : w.CourseSound (p.callback.courseAfter p.reported c) := by
          unfold Callback.courseAfter
          split
          · exact hsound
          · exact hsound.report hjob hplace fun hprints => h.uploaded p hmem (hready hprints)
        exact hnew.transfer rfl (fun _ => rfl) hplaces.requests fun _ hfile => hfile
      · exact (h.courses j c' hc').transfer rfl (fun _ => rfl) hplaces.requests
          fun _ hfile => hfile
    · intro j hj job hcourse
      rw [courseJobs_of_mem_jobsAfter hj] at hcourse
      cases hcourse
  refine hcommit.quiet ⟨⟨rfl, rfl, rfl, fun _ => rfl, ?_⟩, fun _ hpending => hpending, ?_⟩
  · exact List.Subset.refl _
  · exact List.Subset.refl _

/-- A job leaves the queue. -/
theorem quiet_finish (k : ℕ) : w.Quiet { w with jobs := w.jobs.eraseIdx k } where
  db := rfl
  curations := rfl
  readAt := rfl
  files := fun _ => rfl
  jobs := by
    rintro job (⟨j, hj, hjob⟩ | hprinting)
    · exact .inl ⟨j, List.mem_of_mem_eraseIdx hj, hjob⟩
    · exact .inr hprinting
  prints := List.Subset.refl _
  sweeps := List.Subset.refl _

/-- A merge is begun. -/
theorem quiet_startMerge (k : ℕ) (stalls : Bool) (merges : List Merging) : w.Quiet { w with
    jobs := if stalls then w.jobs else w.jobs.eraseIdx k
    merges := merges } where
  db := rfl
  curations := rfl
  readAt := rfl
  files := fun _ => rfl
  jobs := by
    rintro job (⟨j, hj, hjob⟩ | hprinting)
    · dsimp only at hj
      split at hj
      · exact .inl ⟨j, hj, hjob⟩
      · exact .inl ⟨j, List.mem_of_mem_eraseIdx hj, hjob⟩
    · exact .inr hprinting
  prints := List.Subset.refl _
  sweeps := List.Subset.refl _

/-- The merges change, or one of them ends. -/
theorem quiet_merges (merges : List Merging) : w.Quiet { w with merges := merges } where
  db := rfl
  curations := rfl
  readAt := rfl
  files := fun _ => rfl
  jobs := fun _ hpending => hpending
  prints := List.Subset.refl _
  sweeps := List.Subset.refl _

/-- A merge goes back to the queue. -/
theorem quiet_retryMerge (merges : List Merging) (m : Merging) : w.Quiet { w with
    merges := merges
    jobs := w.jobs ++ [m.job] } where
  db := rfl
  curations := rfl
  readAt := rfl
  files := fun _ => rfl
  jobs := by
    rintro job (⟨j, hj, hjob⟩ | hprinting)
    · rcases List.mem_append.mp hj with hold | hnew
      · exact .inl ⟨j, hold, hjob⟩
      · rw [List.mem_singleton.mp hnew] at hjob
        cases hjob
    · exact .inr hprinting
  prints := List.Subset.refl _
  sweeps := List.Subset.refl _

/-- A combined PDF is uploaded: its address is no object of a course. -/
theorem quiet_mergeUploaded (m : Merging) (variant : Variant) (file : PdfFile)
    (merges : List Merging) : w.Quiet { w with
      files := Function.update w.files (m.url variant) (some file)
      merges := merges } where
  db := rfl
  curations := rfl
  readAt := rfl
  files := by
    intro key
    have hne : Url.object key ≠ m.url variant := by simp [Merging.url, mergedUrl]
    exact Function.update_of_ne hne (some file) w.files
  jobs := fun _ hpending => hpending
  prints := List.Subset.refl _
  sweeps := List.Subset.refl _

/-- A sweep reads the courses that are stuck. -/
theorem Sound.swept (h : w.Sound) (i : SweepInputs) (updatedAt : RequestId → ℕ) :
    (w.sweep i updatedAt).Sound := by
  refine h.sameData ⟨rfl, rfl, rfl, fun _ => rfl, List.Subset.refl _⟩ h.jobs ?_
  intro s hs
  rcases List.mem_append.mp hs with hold | hnew
  · exact h.sweeps s hold
  · obtain rfl := List.mem_singleton.mp hnew
    exact fun row hrow => sound_of_mem_staleCourses hrow

/-- A sweep adds the job of a request. -/
theorem Sound.redispatched (h : w.Sound) {k : ℕ} {s : Sweeping} (hs : w.sweeps[k]? = some s)
    (r : RequestId) (rest : List RequestId) : Site.Sound { w with
      jobs := w.jobs ++ (s.inputs.redispatch w.db s.rows r).toList.map .generatePdf
      sweeps := w.sweeps.set k { s with requests := rest } } := by
  have hrows := h.sweeps s (List.mem_of_getElem? hs)
  refine h.sameData ⟨rfl, rfl, rfl, fun _ => rfl, List.Subset.refl _⟩ ?_ ?_
  · rintro job (⟨j, hj, hjob⟩ | hprinting)
    · rcases List.mem_append.mp hj with hold | hnew
      · exact h.jobs job (.inl ⟨j, hold, hjob⟩)
      · obtain ⟨data, hdata, rfl⟩ := List.mem_map.mp hnew
        exact SweepInputs.sound_of_redispatch hrows (Option.mem_toList.mp hdata) hjob
    · exact h.jobs job (.inr hprinting)
  · intro other hother
    rcases List.mem_or_eq_of_mem_set hother with hold | rfl
    · exact h.sweeps other hold
    · exact hrows

/-- A sweep ends. -/
theorem quiet_sweepEnded (k : ℕ) : w.Quiet { w with sweeps := w.sweeps.eraseIdx k } where
  db := rfl
  curations := rfl
  readAt := rfl
  files := fun _ => rfl
  jobs := fun _ hpending => hpending
  prints := List.Subset.refl _
  sweeps := List.eraseIdx_subset

/-- **Step:** what holds of the site is kept by every step. -/
theorem Sound.step {orm : Orm} {a : SiteAction} {w' : Site} (h : w.Sound)
    (hstep : w.step orm a = some w') : w'.Sound := by
  cases effect_of_step hstep with
  | refused => exact h
  | created g db' hcreated =>
    exact h.commit_of_samePdfs hcreated.keepsPlaces fun j hj job hjob => hcreated.sound hj hjob
  | reviewed id db' huntouched =>
    exact h.commit_of_samePdfs huntouched.keepsPlaces (by simp)
  | drafted id dto db' huntouched =>
    exact h.commit_of_samePdfs huntouched.keepsPlaces (by simp)
  | approved id dto ctx result db' happroved =>
    exact h.commit_of_samePdfs happroved.keepsPlaces fun j hj job hjob => happroved.sound hj hjob
  | read k i run job course hjob hcourse =>
    exact h.read (List.mem_of_getElem? hjob) (List.mem_of_getElem? hcourse) run
  | uploaded k p hp => exact h.upload hp
  | unreported k p => exact h.quiet (quiet_eraseIdx k)
  | reported k p id hp hid hready => exact h.reported hp hid hready
  | stopped k => exact h.quiet (quiet_eraseIdx k)
  | finished k job => exact h.quiet (quiet_finish k)
  | mergeStarted k stalls => exact h.quiet (quiet_startMerge k stalls _)
  | partFetched k m variant url hm => exact h.quiet (quiet_merges _)
  | mergeUploaded k m variant rest file hm hfile =>
    exact h.quiet (quiet_mergeUploaded m variant file _)
  | mergePassed k m variant rest hm => exact h.quiet (quiet_merges _)
  | mergeFailed k m hm => exact h.quiet (quiet_retryMerge _ m)
  | mergeSkipped k m hm => exact h.quiet (quiet_merges _)
  | merged k m hm =>
    exact (h.quiet (quiet_merges _)).commit_of_samePdfs (keepsPlaces_stored m w.db) (by simp)
  | swept i updatedAt => exact h.swept i updatedAt
  | redispatched k s r rest hs hrequests => exact h.redispatched hs r rest
  | sweepEnded k => exact h.quiet (quiet_sweepEnded k)

/-- **Run:** it holds in every state that a tenant without any material reaches. -/
theorem sound_of_reaches {orm : Orm} {cond : Site → SiteAction → Prop} {catalog : Catalog}
    (h : Reaches (Site.step orm) cond (.start catalog) w) : w.Sound := by
  refine h.invariant ?_ fun s a s' hs _ hstep => hs.step hstep
  constructor
  · intro id c hc
    cases hc
  · rintro job (⟨j, hj, -⟩ | ⟨p, hp, -⟩)
    · cases hj
    · cases hp
  · intro p hp
    cases hp
  · intro p hp
    cases hp
  · intro key file hfile
    cases hfile
  · intro s hs
    cases hs

end Site

end Odiseo.Materials
