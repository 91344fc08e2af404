import Odiseo.Materials.Bypass

/-!
# The PDFs of a course

The job of a generation prints a student PDF, an answer key and solutions of each course, the job
of an approval only a student PDF, and a callback overwrites the addresses that it brings. When
the worker handles everything before the next user acts, the PDFs of a printed course agree as
long as the job of an approval never prints anything else than the answer key of the course shows.
-/

namespace Odiseo.Materials

open Database Database.Transition

/-- Nothing waits in the queue, and the worker is idle. -/
def Site.Idle (w : Site) : Prop := w.jobs = [] ∧ w.prints = [] ∧ w.merges = []

/-- The users and the worker alone: a user acts when the worker has handled everything, what the
worker begins succeeds, and no sweep hands a course out again. -/
def orderly (w : Site) : SiteAction → Prop
  | .generate _ | .review _ | .saveDraft _ _ | .approve _ _ _ => w.Idle
  | .read _ _ run => run.error = none
  | .stop _ | .sweep _ _ | .redispatch _ => False
  | _ => True

instance (w : Site) : Decidable w.Idle :=
  decidable_of_iff (w.jobs = [] ∧ w.prints = [] ∧ w.merges.isEmpty = true)
    (by rw [Site.Idle, List.isEmpty_iff])

instance (w : Site) (a : SiteAction) : Decidable (orderly w a) :=
  match a with
  | .generate _ | .review _ | .saveDraft _ _ | .approve _ _ _ => inferInstanceAs (Decidable w.Idle)
  | .read _ _ run => inferInstanceAs (Decidable (run.error = none))
  | .stop _ | .sweep _ _ | .redispatch _ => isFalse not_false
  | .upload _ | .report _ | .finish _ | .startMerge _ _ | .fetchPart _ | .uploadMerged _
  | .finishMerge _ => isTrue trivial

/-- The PDFs of a course are one and the same print, made from the slots that the course had when
it was last completed. -/
def Site.Agree (w : Site) (c : MaterialRequestCourse) : Prop :=
  ∃ print, w.completedFrom c.id = some print.slots ∧
    ∀ variant url, c.url variant = some url → w.files url = some [print]

/-- In the runs under a condition the PDFs of completed courses agree. -/
def ArtifactsAgree (orm : Orm) (cond : Site → SiteAction → Prop) : Prop :=
  ∀ catalog w, Reaches (Site.step orm) (fun w a => orderly w a ∧ cond w a) (.start catalog) w →
    ∀ c ∈ w.db.courses.rows, c.status.successTerminal = true → w.Agree c

/-- What the worker uploads for a course is what those of its PDFs show that it leaves alone. -/
def printsAsKept (w : Site) : SiteAction → Prop
  | .upload k => ∀ p, w.prints[k]? = some p → ∀ c ∈ w.db.courses.rows, c.place = p.job.place →
      ∀ variant url, variant ∉ p.job.variants → c.url variant = some url →
        w.files url = some [p.print]
  | _ => True

/-- Two jobs print the same PDFs, at the same addresses when answer keys are among them. -/
structure CourseJob.Alike (job job' : CourseJob) : Prop where
  variants : job.variants = job'.variants
  keys : .keys ∈ job.variants →
    ∀ variant, job.artifactKey variant = job'.artifactKey variant

/-- What holds when the worker handles everything before the next user acts. Jobs for one course
print the same PDFs; those that print answer keys find courses which they have printed
themselves. A completed course that is still to be printed was completed from its slots of today,
and so is every print. -/
structure Site.Coherent (w : Site) : Prop where
  sound : w.Sound
  prints : ∀ p ∈ w.prints, p.slots = w.db.courseSlots p.job.place.1 p.job.place.2
  alike : ∀ job job', w.Pending job → w.Pending job' → job.place = job'.place → job.Alike job'
  full : ∀ job id c, w.Pending job → .keys ∈ job.variants → w.db.courses.find id = some c →
    c.place = job.place → ∀ variant url, c.url variant = some url →
      url = .object (job.artifactKey variant) ∧ c.status.successTerminal = true
  current : ∀ job id c, w.Pending job → w.db.courses.find id = some c → c.place = job.place →
    c.status.successTerminal = true →
      w.completedFrom c.id = some (w.db.courseSlots c.place.1 c.place.2)
  uploaded : ∀ p ∈ w.prints, p.uploaded = true → ∃ print : Print,
    print.slots = p.slots ∧ (∀ url ∈ p.urls, w.files url = some [print]) ∧
      ∀ id c, w.db.courses.find id = some c → c.place = p.job.place → ∀ variant url,
        variant ∉ p.job.variants → c.url variant = some url → w.files url = some [print]
  agree : ∀ id c, w.db.courses.find id = some c →
    c.status.successTerminal = true ∨ (c.url .keys).isSome = true → w.Agree c

namespace Site

variable {w w' : Site}

/-- The addresses of the PDFs of a course are objects. -/
theorem Sound.exists_key (h : w.Sound) {id : CourseRequestId} {c : MaterialRequestCourse}
    (hc : w.db.courses.find id = some c) {variant : Variant} {url : Url}
    (hurl : c.url variant = some url) :
    ∃ key, url = .object key ∧ (key.materialRequestId, key.courseId) = c.place := by
  obtain ⟨key, hkey, hplace, -⟩ := (h.courses id c hc).url variant url hurl
  exact ⟨key, hkey, hplace⟩

/-- A step on which the database and the PDFs of courses stay, and the work only shrinks. -/
theorem Coherent.quiet (h : w.Coherent) (hquiet : w.Quiet w')
    (hfrom : w'.completedFrom = w.completedFrom) : w'.Coherent := by
  have hfiles : ∀ id c, w.db.courses.find id = some c → ∀ variant url, c.url variant = some url →
      w'.files url = w.files url := by
    intro id c hc variant url hurl
    obtain ⟨key, rfl, -⟩ := h.sound.exists_key hc hurl
    exact hquiet.files key
  constructor
  · exact h.sound.quiet hquiet
  · intro p hp
    rw [hquiet.db]
    exact h.prints p (hquiet.prints hp)
  · intro job job' hjob hjob'
    exact h.alike job job' (hquiet.jobs job hjob) (hquiet.jobs job' hjob')
  · intro job id c hjob
    rw [hquiet.db]
    exact h.full job id c (hquiet.jobs job hjob)
  · intro job id c hjob
    rw [hquiet.db, hfrom]
    exact h.current job id c (hquiet.jobs job hjob)
  · intro p hp huploaded
    obtain ⟨print, hslots, hurls, hkept⟩ := h.uploaded p (hquiet.prints hp) huploaded
    refine ⟨print, hslots, ?_, ?_⟩
    · intro url hurl
      obtain ⟨variant, -, rfl⟩ := object_of_mem_urls hurl
      rw [hquiet.files]
      exact hurls _ hurl
    · intro id c hc hplace variant url hvariant hurl
      rw [hquiet.db] at hc
      rw [hfiles id c hc variant url hurl]
      exact hkept id c hc hplace variant url hvariant hurl
  · intro id c hc hsuccess
    rw [hquiet.db] at hc
    obtain ⟨print, hprint, hshow⟩ := h.agree id c hc hsuccess
    refine ⟨print, by rw [hfrom]; exact hprint, ?_⟩
    intro variant url hurl
    rw [hfiles id c hc variant url hurl]
    exact hshow variant url hurl

/-- Nothing is pending at an idle site. -/
theorem Idle.not_pending (h : w.Idle) (job : CourseJob) : ¬ w.Pending job := by
  rintro (⟨j, hj, -⟩ | ⟨p, hp, -⟩)
  · rw [h.1] at hj
    cases hj
  · rw [h.2.1] at hp
    cases hp

/-- What a user commits at an idle site. -/
theorem Coherent.commit (h : w.Coherent) (hidle : w.Idle) {db : Db} {jobs : List Job}
    (hsound : (w.commit db jobs).Sound)
    (hcourses : ∀ k c', db.courses.find k = some c' →
      (∃ c, w.db.courses.find k = some c ∧ (∀ variant, c'.url variant = c.url variant) ∧
        (c'.status.successTerminal = true → c.status.successTerminal = true ∨
          (c.url .keys).isSome = true)) ∨
        c'.status.successTerminal = false ∧ ∀ variant, c'.url variant = none)
    (halike : ∀ j ∈ jobs, ∀ job ∈ j.courseJobs, ∀ j' ∈ jobs, ∀ job' ∈ j'.courseJobs,
      job.place = job'.place → job.Alike job')
    (hnew : ∀ j ∈ jobs, ∀ job ∈ j.courseJobs, ∀ k c', db.courses.find k = some c' →
      c'.place = job.place → c'.status.successTerminal = false ∧
        (.keys ∈ job.variants → ∀ variant, c'.url variant = none)) :
    (w.commit db jobs).Coherent := by
  have hpending : ∀ job, (w.commit db jobs).Pending job → ∃ j ∈ jobs, job ∈ j.courseJobs := by
    rintro job (⟨j, hj, hjob⟩ | hprinting)
    · rcases List.mem_append.mp hj with hold | hadded
      · exact absurd (.inl ⟨j, hold, hjob⟩) (hidle.not_pending job)
      · exact ⟨j, hadded, hjob⟩
    · exact absurd (.inr hprinting) (hidle.not_pending job)
  have hprints : ∀ p, p ∉ (w.commit db jobs).prints := by
    intro p hp
    have hp : p ∈ w.prints := hp
    rw [hidle.2.1] at hp
    cases hp
  constructor
  · exact hsound
  · intro p hp
    exact absurd hp (hprints p)
  · intro job job' hjob hjob'
    obtain ⟨j, hj, hmem⟩ := hpending job hjob
    obtain ⟨j', hj', hmem'⟩ := hpending job' hjob'
    exact halike j hj job hmem j' hj' job' hmem'
  · intro job id c hjob hkeys hc hplace variant url hurl
    obtain ⟨j, hj, hmem⟩ := hpending job hjob
    rw [(hnew j hj job hmem id c hc hplace).2 hkeys] at hurl
    cases hurl
  · intro job id c hjob hc hplace hsuccess
    obtain ⟨j, hj, hmem⟩ := hpending job hjob
    rw [(hnew j hj job hmem id c hc hplace).1] at hsuccess
    cases hsuccess
  · intro p hp
    exact absurd hp (hprints p)
  · intro k c' hc' hsuccess
    rcases hcourses k c' hc' with ⟨c, hc, hurl, hkept⟩ | ⟨hopen, hnone⟩
    · have hid : c'.id = c.id := (Db.course_id_of_find hc').trans (Db.course_id_of_find hc).symm
      have hready : c.status.successTerminal = true ∨ (c.url .keys).isSome = true := by
        rcases hsuccess with hstatus | hkeys
        · exact hkept hstatus
        · exact .inr (hurl .keys ▸ hkeys)
      obtain ⟨print, hprint, hshow⟩ := h.agree k c hc hready
      refine ⟨print, hid ▸ hprint, ?_⟩
      intro variant url hsome
      exact hshow variant url (hurl variant ▸ hsome)
    · rw [hopen, hnone] at hsuccess
      rcases hsuccess with hstatus | hkeys
      · cases hstatus
      · cases hkeys

/-- A call that leaves the courses alone and dispatches nothing. -/
theorem Coherent.untouched (h : w.Coherent) (hidle : w.Idle) {db : Db}
    (huntouched : Untouched w.db db) : (w.commit db []).Coherent := by
  refine h.commit hidle (h.sound.commit_of_samePdfs huntouched.keepsPlaces (by simp)) ?_
    (by simp) (by simp)
  intro k c' hc'
  rw [huntouched.courses] at hc'
  exact .inl ⟨c', hc', fun _ => rfl, .inl⟩

/-- A generation. -/
theorem Coherent.created (h : w.Coherent) (hidle : w.Idle) {g : GenerateInputs} {db : Db}
    (hcreated : Created g w.db db) : (w.commit db g.result.jobsToDispatch).Coherent := by
  have hjobs : ∀ j ∈ g.result.jobsToDispatch, ∀ job ∈ j.courseJobs,
      ∃ dist ∈ g.distributions, job =
        { materialRequestId := g.newRequestId
          tenantId := g.tenantId
          cycleId := g.cycleId
          weekNumber := g.weekNumber
          templateName := g.templateName
          dist := dist
          variants := [.student, .keys, .solutions] } := by
    intro j hj job hjob
    unfold GenerateInputs.result at hj
    dsimp only at hj
    split at hj
    · cases hj
    obtain rfl := List.mem_singleton.mp hj
    obtain ⟨dist, hdist, rfl⟩ := List.mem_map.mp hjob
    exact ⟨dist, hdist, rfl⟩
  have hopen : ∀ x ∈ g.createdCourses, ∀ status : CourseMaterialStatus, ∀ variant,
      ({ x with status := status } : MaterialRequestCourse).url variant = none := by
    intro x hx status variant
    obtain ⟨dist, -, rfl⟩ := List.mem_map.mp hx
    cases variant <;> rfl
  refine h.commit hidle (h.sound.commit_of_samePdfs hcreated.keepsPlaces
    fun j hj job hjob => hcreated.sound hj hjob) ?_ ?_ ?_
  · intro k c' hc'
    rcases hcreated.courses k c' hc' with hold | ⟨x, hx, status, rfl, hstatus⟩
    · exact .inl ⟨c', hold, fun _ => rfl, .inl⟩
    · exact .inr ⟨hstatus, hopen x hx status⟩
  · intro j hj job hjob j' hj' job' hjob' hplace
    obtain ⟨dist, -, rfl⟩ := hjobs j hj job hjob
    obtain ⟨dist', -, rfl⟩ := hjobs j' hj' job' hjob'
    have hcourse : dist.courseId = dist'.courseId := congrArg Prod.snd hplace
    refine ⟨rfl, ?_⟩
    intro _ variant
    unfold CourseJob.artifactKey
    simp only [hcourse]
  · intro j hj job hjob k c' hc' hplace
    obtain ⟨dist, -, rfl⟩ := hjobs j hj job hjob
    have hrequest : c'.materialRequestId = g.newRequestId := congrArg Prod.fst hplace
    rcases hcreated.courses k c' hc' with hold | ⟨x, hx, status, rfl, hstatus⟩
    · obtain ⟨q, hq⟩ := (h.sound.courses k c' hold).request
      rw [hrequest, hcreated.fresh] at hq
      cases hq
    · exact ⟨hstatus, fun _ => hopen x hx status⟩

/-- An approval. -/
theorem Coherent.approved (h : w.Coherent) (hidle : w.Idle) {orm : Orm} {id : RequestId}
    {dto : ApproveReview} {ctx : MaterialReviewContext} {result : ApprovalResult} {db : Db}
    (happroved : Approved orm id dto ctx w.db db result) :
    (w.commit db result.jobsToDispatch).Coherent := by
  set courses := w.db.coursesOf id
  have hrow : ∀ k c', db.courses.find k = some c' → ∃ c, w.db.courses.find k = some c ∧
      c' = approvedCourse id dto courses c := by
    intro k c' hc'
    rw [happroved.courses.find] at hc'
    obtain ⟨c, hc, rfl⟩ := Option.map_eq_some_iff.mp hc'
    exact ⟨c, hc, rfl⟩
  have hurl := url_approvedCourse id dto courses
  have hjobs : ∀ j ∈ result.jobsToDispatch, bypasses dto courses = false ∧
      ∃ request : MaterialRequest, request.id = id ∧ ∀ j ∈ result.jobsToDispatch,
        ∃ c ∈ courses, IsJobOf ctx request c j := by
    intro j hj
    have hgiven := happroved.jobs
    split at hgiven
    · rw [hgiven] at hj
      cases hj
    · rename_i hbypass
      obtain ⟨request, hrequest, hall⟩ := hgiven
      exact ⟨by simpa using hbypass, request, hrequest, fun j hj => exists_isJobOf hall hj⟩
  refine h.commit hidle (h.sound.commit_of_samePdfs happroved.keepsPlaces
    fun j hj job hjob => happroved.sound hj hjob) ?_ ?_ ?_
  · intro k c' hc'
    obtain ⟨c, hc, rfl⟩ := hrow k c' hc'
    refine .inl ⟨c, hc, hurl c, ?_⟩
    unfold approvedCourse
    split
    · rename_i hr
      split
      · -- the bypass asks for the answer key of every course of the request
        rename_i hbypass
        intro _
        have hall : alreadyGenerated courses = true := (Bool.and_eq_true_iff.mp hbypass).1
        have hmem : c ∈ courses :=
          Db.mem_coursesOf.mpr ⟨(Db.course_id_of_find hc).symm ▸ hc, hr⟩
        exact .inr (h.sound.alreadyGenerated_iff.mp hall c hmem)
      · exact fun hstatus => absurd hstatus Bool.false_ne_true
    · exact .inl
  · intro j hj job hjob j' hj' job' hjob' hplace
    obtain ⟨-, request, -, hall⟩ := hjobs j hj
    obtain ⟨c, -, company, template, distributions, rfl⟩ := hall j hj
    obtain ⟨c', -, company', template', distributions', rfl⟩ := hall j' hj'
    obtain rfl := List.mem_singleton.mp hjob
    obtain rfl := List.mem_singleton.mp hjob'
    exact ⟨rfl, fun hkeys => absurd hkeys (by simp)⟩
  · intro j hj job hjob k c' hc' hplace
    obtain ⟨hbypass, request, hrequest, hall⟩ := hjobs j hj
    obtain ⟨row, -, company, template, distributions, rfl⟩ := hall j hj
    obtain rfl := List.mem_singleton.mp hjob
    obtain ⟨c, hc, rfl⟩ := hrow k c' hc'
    have hr : c.materialRequestId = id :=
      (congrArg Prod.fst ((happroved.courses.place c).symm.trans hplace)).trans hrequest
    refine ⟨?_, fun hkeys => absurd hkeys (by simp)⟩
    unfold approvedCourse
    rw [if_pos hr, if_neg (by rw [hbypass]; exact Bool.false_ne_true)]
    rfl

/-- The worker reads the slots of a course. -/
theorem Coherent.read (h : w.Coherent) {j : Job} {job : CourseJob} (hj : j ∈ w.jobs)
    (hjob : job ∈ j.courseJobs) (run : CourseRun) : (w.read job run).Coherent := by
  have hpending : ∀ other, (w.read job run).Pending other → w.Pending other := by
    rintro other (hqueued | ⟨p, hp, rfl⟩)
    · exact .inl hqueued
    · rcases List.mem_append.mp hp with hold | hnew
      · exact .inr ⟨p, hold, rfl⟩
      · obtain rfl := List.mem_singleton.mp hnew
        exact .inl ⟨j, hj, hjob⟩
  constructor
  · exact h.sound.read hj hjob run
  · intro p hp
    rcases List.mem_append.mp hp with hold | hnew
    · exact h.prints p hold
    · obtain rfl := List.mem_singleton.mp hnew
      rfl
  · intro a b ha hb
    exact h.alike a b (hpending a ha) (hpending b hb)
  · intro a id c ha
    exact h.full a id c (hpending a ha)
  · intro a id c ha
    exact h.current a id c (hpending a ha)
  · intro p hp huploaded
    rcases List.mem_append.mp hp with hold | hnew
    · exact h.uploaded p hold huploaded
    · obtain rfl := List.mem_singleton.mp hnew
      cases huploaded
  · exact h.agree

/-- Uploads for other courses leave a PDF of a course alone. -/
theorem files_upload_of_ne {k : ℕ} {p : Printing} {key : ArtifactKey}
    (hplace : (key.materialRequestId, key.courseId) ≠ p.job.place) :
    (w.upload k p).files (.object key) = w.files (.object key) := by
  change (if .object key ∈ p.urls then some [p.print] else w.files (.object key)) = _
  rw [if_neg]
  intro hmem
  obtain ⟨variant, -, hkey⟩ := object_of_mem_urls hmem
  obtain rfl := Url.object.inj hkey
  exact hplace rfl

/-- A file that shows the print shows it after the upload of the print. -/
theorem files_upload_of_print {k : ℕ} {p : Printing} {url : Url}
    (hurl : w.files url = some [p.print]) : (w.upload k p).files url = some [p.print] := by
  change (if url ∈ p.urls then some [p.print] else w.files url) = _
  split
  · rfl
  · exact hurl

/-- What the upload leaves of the prints that the worker has uploaded. -/
theorem Coherent.uploaded_upload (h : w.Coherent) {k : ℕ} {p : Printing} (hmem : p ∈ w.prints)
    (hkept : ∀ id c, w.db.courses.find id = some c → c.place = p.job.place → ∀ variant url,
      variant ∉ p.job.variants → c.url variant = some url → w.files url = some [p.print])
    {x : Printing} (hx : x ∈ w.prints) (hplace : x.job.place = p.job.place)
    (hready : x.job = p.job ∨ x.uploaded = true) : ∃ print : Print,
      print.slots = x.slots ∧ (∀ url ∈ x.urls, (w.upload k p).files url = some [print]) ∧
        ∀ id c, w.db.courses.find id = some c → c.place = x.job.place → ∀ variant url,
          variant ∉ x.job.variants → c.url variant = some url →
            (w.upload k p).files url = some [print] := by
  have halike := h.alike x.job p.job (.inr ⟨x, hx, rfl⟩) (.inr ⟨p, hmem, rfl⟩) hplace
  have hslots : p.slots = x.slots := by
    rw [h.prints p hmem, h.prints x hx, hplace]
  by_cases hsame : ∀ url ∈ x.urls, url ∈ p.urls
  · refine ⟨p.print, hslots, ?_, ?_⟩
    · intro url hurl
      exact if_pos (hsame url hurl)
    · intro id c hc hcplace variant url hvariant hurl
      refine files_upload_of_print (hkept id c hc (hcplace.trans hplace) variant url ?_ hurl)
      rwa [← halike.variants]
  · -- another address: a student PDF that was uploaded before
    have hother : x.job.variants = [.student] := by
      rcases (h.sound.jobs _ (.inr ⟨x, hx, rfl⟩)).variants with hone | hall
      · exact hone
      · refine absurd ?_ hsame
        intro url hurl
        obtain ⟨variant, hvariant, rfl⟩ := object_of_mem_urls hurl
        rw [halike.keys (by simp [hall])]
        exact List.mem_map_of_mem (halike.variants ▸ hvariant)
    have hdistinct : ∀ url ∈ x.urls, url ∉ p.urls := by
      intro url hurl hp
      refine hsame fun other hother' => ?_
      unfold Printing.urls at hurl hother'
      rw [hother] at hurl hother'
      rw [List.mem_singleton.mp hother', ← List.mem_singleton.mp hurl]
      exact hp
    have huploaded : x.uploaded = true := by
      rcases hready with hjob | huploaded
      · refine absurd ?_ hsame
        intro url hurl
        unfold Printing.urls at hurl ⊢
        rwa [← hjob]
      · exact huploaded
    obtain ⟨print, hprint, hurls, hothers⟩ := h.uploaded x hx huploaded
    refine ⟨print, hprint, ?_, ?_⟩
    · intro url hurl
      exact (if_neg (hdistinct url hurl)).trans (hurls url hurl)
    · intro id c hc hcplace variant url hvariant hurl
      have hold := hothers id c hc hcplace variant url hvariant hurl
      have hnew := hkept id c hc (hcplace.trans hplace) variant url
        (by rwa [← halike.variants]) hurl
      rw [files_upload_of_print hnew, ← hnew, hold]

/-- The PDFs of a course agree after an upload for it, or for a course of the same catalog
course. -/
theorem Coherent.agree_upload (h : w.Coherent) {k : ℕ} {p : Printing} (hmem : p ∈ w.prints)
    (hkept : ∀ id c, w.db.courses.find id = some c → c.place = p.job.place → ∀ variant url,
      variant ∉ p.job.variants → c.url variant = some url → w.files url = some [p.print])
    {id : CourseRequestId} {c : MaterialRequestCourse} (hc : w.db.courses.find id = some c)
    (hplace : c.place = p.job.place)
    (hready : c.status.successTerminal = true ∨ (c.url .keys).isSome = true) :
    (w.upload k p).Agree c := by
  have hpending : w.Pending p.job := .inr ⟨p, hmem, rfl⟩
  have hslots : c.status.successTerminal = true → w.completedFrom c.id = some p.slots := by
    intro hsuccess
    rw [h.current p.job id c hpending hc hplace hsuccess, h.prints p hmem, hplace]
  obtain ⟨print, hprint, hshow⟩ := h.agree id c hc hready
  rcases (h.sound.jobs _ hpending).variants with hone | hall
  · by_cases hkeys : (c.url .keys).isSome = true
    · -- the answer key shows what is printed
      obtain ⟨url, hurl⟩ := Option.isSome_iff_exists.mp hkeys
      have hsame : [print] = [p.print] := Option.some.inj
        ((hshow .keys url hurl).symm.trans (hkept id c hc hplace .keys url (by simp [hone]) hurl))
      obtain rfl := List.singleton_inj.mp hsame
      exact ⟨p.print, hprint, fun variant url hurl =>
        files_upload_of_print (hshow variant url hurl)⟩
    · have hsuccess : c.status.successTerminal = true := hready.resolve_right hkeys
      have hsolutions : (c.url .solutions).isSome = false := by
        rw [(h.sound.courses id c hc).solutions]
        simpa using hkeys
      have honly : ∀ variant url, c.url variant = some url → variant = .student := by
        intro variant url hurl
        cases variant with
        | student => rfl
        | keys => simp [hurl] at hkeys
        | solutions => simp [hurl] at hsolutions
      by_cases hover : ∃ url ∈ p.urls, c.url .student = some url
      · obtain ⟨url, hmemurl, hurl⟩ := hover
        refine ⟨p.print, hslots hsuccess, ?_⟩
        intro variant other hother
        obtain rfl := honly variant other hother
        rw [hurl] at hother
        cases hother
        exact if_pos hmemurl
      · refine ⟨print, hprint, ?_⟩
        intro variant other hother
        obtain rfl := honly variant other hother
        exact (if_neg fun hmemurl => hover ⟨other, hmemurl, hother⟩).trans
          (hshow .student other hother)
  · have hfull := h.full p.job id c hpending (by simp [hall]) hc hplace
    have hsuccess : c.status.successTerminal = true := by
      rcases hready with hsuccess | hkeys
      · exact hsuccess
      · obtain ⟨url, hurl⟩ := Option.isSome_iff_exists.mp hkeys
        exact (hfull .keys url hurl).2
    refine ⟨p.print, hslots hsuccess, ?_⟩
    intro variant url hurl
    rw [(hfull variant url hurl).1]
    refine if_pos (List.mem_map_of_mem ?_)
    rw [hall]
    cases variant <;> simp

/-- The worker uploads the PDFs of a course. -/
theorem Coherent.upload (h : w.Coherent) {k : ℕ} {p : Printing} (hp : w.prints[k]? = some p)
    (hkept : ∀ id c, w.db.courses.find id = some c → c.place = p.job.place → ∀ variant url,
      variant ∉ p.job.variants → c.url variant = some url → w.files url = some [p.print]) :
    (w.upload k p).Coherent := by
  have hmem : p ∈ w.prints := List.mem_of_getElem? hp
  have hprint : ∀ x ∈ (w.upload k p).prints, ∃ y ∈ w.prints, x.job = y.job ∧ x.slots = y.slots ∧
      (x.uploaded = true → y.uploaded = true ∨ y.job = p.job) := by
    intro x hx
    rcases List.mem_or_eq_of_mem_set hx with hold | rfl
    · exact ⟨x, hold, rfl, rfl, .inl⟩
    · exact ⟨p, hmem, rfl, rfl, fun _ => .inr rfl⟩
  have hpending : ∀ job, (w.upload k p).Pending job → w.Pending job := by
    rintro job (hqueued | ⟨x, hx, rfl⟩)
    · exact .inl hqueued
    · obtain ⟨y, hy, hjob, -⟩ := hprint x hx
      exact .inr ⟨y, hy, hjob.symm⟩
  constructor
  · exact h.sound.upload hp
  · intro x hx
    obtain ⟨y, hy, hjob, hslots, -⟩ := hprint x hx
    rw [hjob, hslots]
    exact h.prints y hy
  · intro job job' hjob hjob'
    exact h.alike job job' (hpending job hjob) (hpending job' hjob')
  · intro job id c hjob
    exact h.full job id c (hpending job hjob)
  · intro job id c hjob
    exact h.current job id c (hpending job hjob)
  · intro x hx huploaded
    obtain ⟨y, hy, hjob, hslots, hready⟩ := hprint x hx
    have hurls : x.urls = y.urls := by
      unfold Printing.urls
      rw [hjob]
    rw [hslots, hjob, hurls]
    by_cases hplace : y.job.place = p.job.place
    · exact h.uploaded_upload hmem hkept hy hplace (hready huploaded).symm
    · have hold : y.uploaded = true := by
        rcases hready huploaded with hold | hsame
        · exact hold
        · exact absurd (congrArg CourseJob.place hsame) hplace
      obtain ⟨print, hprint, hshown, hothers⟩ := h.uploaded y hy hold
      refine ⟨print, hprint, ?_, ?_⟩
      · intro url hurl
        have hbefore := hshown url hurl
        obtain ⟨variant, -, rfl⟩ := object_of_mem_urls hurl
        rw [files_upload_of_ne hplace]
        exact hbefore
      · intro id c hc hcplace variant url hvariant hurl
        obtain ⟨key, rfl, hkey⟩ := h.sound.exists_key hc hurl
        rw [files_upload_of_ne (by rw [hkey, hcplace]; exact hplace)]
        exact hothers id c hc hcplace variant _ hvariant hurl
  · intro id c hc hready
    by_cases hplace : c.place = p.job.place
    · exact h.agree_upload hmem hkept hc hplace hready
    · obtain ⟨print, hprint, hshow⟩ := h.agree id c hc hready
      refine ⟨print, hprint, ?_⟩
      intro variant url hurl
      obtain ⟨key, rfl, hkey⟩ := h.sound.exists_key hc hurl
      rw [files_upload_of_ne (by rw [hkey]; exact hplace)]
      exact hshow variant _ hurl

/-- A course that was printed is reported as a success. -/
theorem success_of_prints {p : Printing} (h : p.prints = true) :
    p.reported.successTerminal = true := by
  obtain ⟨herror, hquestions⟩ := Bool.and_eq_true_iff.mp h
  unfold Printing.reported CourseJob.reported
  rw [if_neg (by simpa using herror)]
  unfold Printing.loaded at hquestions
  rw [if_neg (by simpa using hquestions)]
  split <;> rfl

/-- The PDFs of the course of a printing agree after its report. -/
theorem Coherent.agree_report (h : w.Coherent) {p : Printing} (hmem : p ∈ w.prints)
    (hready : p.prints = true → p.uploaded = true) {id : CourseRequestId}
    {c : MaterialRequestCourse} (hc : w.db.courses.find id = some c)
    (hplace : c.place = p.job.place) {w' : Site} (hfiles : w'.files = w.files)
    (hfrom : w'.completedFrom c.id = if p.reported.successTerminal then
      some (w.db.courseSlots p.job.place.1 p.job.place.2) else w.completedFrom c.id)
    (hstate : p.reported.successTerminal = true ∨ (c.url .keys).isSome = true) :
    w'.Agree (p.callback.change p.reported c) := by
  cases hsuccess : p.reported.successTerminal with
  | true =>
    have hprints := p.prints_of_success hsuccess
    obtain ⟨print, hprint, hurls, hothers⟩ := h.uploaded p hmem (hready hprints)
    refine ⟨print, ?_, ?_⟩
    · change w'.completedFrom c.id = _
      rw [hfrom, hsuccess, if_pos rfl, hprint, h.prints p hmem]
    · intro variant url hurl
      rw [hfiles]
      rw [url_change, Option.or_eq_some_iff] at hurl
      rcases hurl with hnew | ⟨hnone, hold⟩
      · obtain ⟨-, -, -, hmemurl⟩ := p.url_eq_some hnew
        exact hurls url hmemurl
      · refine hothers id c hc hplace variant url ?_ hold
        intro hvariant
        have hsome := isSome_printing_url p variant
        rw [hnone, hprints] at hsome
        simp [hvariant] at hsome
  | false =>
    have hunprinted : p.prints = false := by
      cases hprints : p.prints with
      | false => rfl
      | true =>
        rw [success_of_prints hprints] at hsuccess
        cases hsuccess
    obtain ⟨print, hprint, hshow⟩ := h.agree id c hc
      (.inr (hstate.resolve_left (by rw [hsuccess]; exact Bool.false_ne_true)))
    refine ⟨print, ?_, ?_⟩
    · change w'.completedFrom c.id = _
      rw [hfrom, hsuccess, if_neg Bool.false_ne_true]
      exact hprint
    · intro variant url hurl
      rw [hfiles]
      rw [url_change, Option.or_eq_some_iff] at hurl
      rcases hurl with hnew | ⟨-, hold⟩
      · rw [(p.url_eq_some hnew).1] at hunprinted
        cases hunprinted
      · exact hshow variant url hold

/-- The report of a course is handled. -/
theorem Coherent.reported (h : w.Coherent) {k : ℕ} {p : Printing} {id : CourseRequestId}
    (hp : w.prints[k]? = some p) (hid : p.job.dist.courseRequestId = some id)
    (hready : p.prints = true → p.uploaded = true) : (w.reported k p id).Coherent := by
  have hmem : p ∈ w.prints := List.mem_of_getElem? hp
  have hpp : w.Pending p.job := .inr ⟨p, hmem, rfl⟩
  obtain ⟨c, hc, hplace⟩ := (h.sound.jobs _ hpp).course id hid
  have hcid : c.id = id := Db.course_id_of_find hc
  obtain ⟨-, hslots, hcatalog⟩ := keeps_after p.callback id p.reported w.db
  set db' := p.callback.after id p.reported w.db with hdb'
  have hcourseSlots := Db.courseSlots_congr hslots hcatalog
  have hpending : ∀ job, (w.reported k p id).Pending job → w.Pending job := by
    rintro job (⟨j, hj, hjob⟩ | ⟨x, hx, rfl⟩)
    · rcases List.mem_append.mp hj with hold | hnew
      · exact .inl ⟨j, hold, hjob⟩
      · rw [courseJobs_of_mem_jobsAfter hnew] at hjob
        cases hjob
    · exact .inr ⟨x, List.mem_of_mem_eraseIdx hx, rfl⟩
  have hcompletes : w.completes p id =
      (p.reported.successTerminal && !ignores c.status p.reported) := by
    unfold Site.completes
    rw [hc]
    rfl
  have hfrom : ∀ j, j ≠ id → (w.reported k p id).completedFrom j = w.completedFrom j := by
    intro j hj
    change (if _ then Function.update w.completedFrom id _ else w.completedFrom) j = _
    split
    · exact Function.update_of_ne hj _ _
    · rfl
  -- the only course that changes is the one of the printing, unless the guard ignores the report
  have hrow : ∀ j c', db'.courses.find j = some c' →
      w.db.courses.find j = some c' ∧ (w.reported k p id).completedFrom j = w.completedFrom j ∨
        j = id ∧ c' = p.callback.change p.reported c ∧ ignores c.status p.reported = false ∧
          (w.reported k p id).completedFrom id = if p.reported.successTerminal then
            some (w.db.courseSlots p.job.place.1 p.job.place.2) else w.completedFrom id := by
    intro j c' hc'
    rw [hdb', find_courses_after] at hc'
    split at hc'
    · rename_i hj
      subst hj
      rw [hc] at hc'
      cases hc'
      cases hignores : ignores c.status p.reported with
      | true =>
        refine .inl ⟨by rw [Callback.courseAfter, if_pos hignores]; exact hc, ?_⟩
        change (if w.completes p j = true then _ else w.completedFrom) j = _
        rw [hcompletes, hignores, if_neg (by simp)]
      | false =>
        refine .inr ⟨rfl, ?_, rfl, ?_⟩
        · rw [Callback.courseAfter, if_neg (by rw [hignores]; exact Bool.false_ne_true)]
        · change (if w.completes p j = true then _ else w.completedFrom) j = _
          rw [hcompletes, hignores, Bool.not_false, Bool.and_true]
          split
          · exact Function.update_self ..
          · rfl
    · rename_i hj
      exact .inl ⟨hc', hfrom j hj⟩
  have hchangedPlace : (p.callback.change p.reported c).place = p.job.place := hplace
  constructor
  · exact h.sound.reported hp hid hready
  · intro x hx
    change x.slots = db'.courseSlots _ _
    rw [hcourseSlots]
    exact h.prints x (List.mem_of_mem_eraseIdx hx)
  · intro job job' hjob hjob'
    exact h.alike job job' (hpending job hjob) (hpending job' hjob')
  · intro job j c' hjob hkeys hc' hjplace variant url hurl
    have hbefore := hpending job hjob
    rcases hrow j c' hc' with ⟨hold, -⟩ | ⟨rfl, rfl, hignores, -⟩
    · exact h.full job j c' hbefore hkeys hold hjplace variant url hurl
    · rw [url_change, Option.or_eq_some_iff] at hurl
      rcases hurl with hnew | ⟨-, hold⟩
      · obtain ⟨hprints, -, rfl, -⟩ := p.url_eq_some hnew
        refine ⟨?_, success_of_prints hprints⟩
        have halike := h.alike job p.job hbefore hpp (hjplace.symm.trans hchangedPlace)
        rw [halike.keys hkeys]
      · have hsuccess := (h.full job _ c hbefore hkeys hc hjplace variant url hold).2
        rw [ignores, hsuccess] at hignores
        cases hignores
  · intro job j c' hjob hc' hjplace hsuccess
    change (w.reported k p id).completedFrom c'.id = some (db'.courseSlots _ _)
    rw [hcourseSlots]
    rcases hrow j c' hc' with ⟨hold, hsame⟩ | ⟨rfl, rfl, -, hnew⟩
    · have hidj : c'.id = j := Db.course_id_of_find hold
      rw [hidj, hsame, ← hidj]
      exact h.current job j c' (hpending job hjob) hold hjplace hsuccess
    · change (w.reported k p j).completedFrom c.id = _
      have hsuccess : p.reported.successTerminal = true := hsuccess
      rw [hcid, hnew, hsuccess, if_pos rfl, hchangedPlace]
  · intro x hx huploaded
    have hbefore : x ∈ w.prints := List.mem_of_mem_eraseIdx hx
    obtain ⟨print, hprint, hurls, hothers⟩ := h.uploaded x hbefore huploaded
    refine ⟨print, hprint, hurls, ?_⟩
    intro j c' hc' hjplace variant url hvariant hurl
    rcases hrow j c' hc' with ⟨hold, -⟩ | ⟨rfl, rfl, -, -⟩
    · exact hothers j c' hold hjplace variant url hvariant hurl
    · rw [url_change, Option.or_eq_some_iff] at hurl
      rcases hurl with hnew | ⟨-, hold⟩
      · have halike := h.alike x.job p.job (.inr ⟨x, hbefore, rfl⟩) hpp
          (hjplace.symm.trans hchangedPlace)
        rw [halike.variants] at hvariant
        exact absurd (p.url_eq_some hnew).2.1 hvariant
      · exact hothers _ c hc hjplace variant url hvariant hold
  · intro j c' hc' hstate
    rcases hrow j c' hc' with ⟨hold, hsame⟩ | ⟨rfl, rfl, -, hnew⟩
    · obtain ⟨print, hprint, hshow⟩ := h.agree j c' hold hstate
      have hidj : c'.id = j := Db.course_id_of_find hold
      refine ⟨print, ?_, hshow⟩
      rw [hidj, hsame, ← hidj]
      exact hprint
    · refine h.agree_report hmem hready hc hplace rfl (by rw [hcid, hnew]) ?_
      rcases hstate with hsuccess | hkeys
      · exact .inl hsuccess
      · rw [url_change, Option.isSome_or, Bool.or_eq_true] at hkeys
        rcases hkeys with hnewkeys | holdkeys
        · obtain ⟨url, hurl⟩ := Option.isSome_iff_exists.mp hnewkeys
          exact .inl (success_of_prints (p.url_eq_some hurl).1)
        · exact .inr holdkeys

/-- A commit that leaves the courses and the slots alone. -/
theorem Coherent.commit_requests (h : w.Coherent) {db : Db} (hsound : (w.commit db []).Sound)
    (hcourses : db.courses = w.db.courses) (hslots : db.slots = w.db.slots)
    (hcatalog : db.catalog = w.db.catalog) : (w.commit db []).Coherent := by
  have hcourseSlots := Db.courseSlots_congr hslots hcatalog
  have hpending : ∀ job, (w.commit db []).Pending job → w.Pending job := by
    rintro job (⟨j, hj, hjob⟩ | hprinting)
    · exact .inl ⟨j, by rwa [← List.append_nil w.jobs], hjob⟩
    · exact .inr hprinting
  have hfind : ∀ id c, (w.commit db []).db.courses.find id = some c →
      w.db.courses.find id = some c := by
    intro id c hc
    rwa [← hcourses]
  constructor
  · exact hsound
  · intro p hp
    exact (h.prints p hp).trans (hcourseSlots _ _).symm
  · intro job job' hjob hjob'
    exact h.alike job job' (hpending job hjob) (hpending job' hjob')
  · intro job id c hjob hkeys hc
    exact h.full job id c (hpending job hjob) hkeys (hfind id c hc)
  · intro job id c hjob hc hplace hsuccess
    change w.completedFrom c.id = some (db.courseSlots _ _)
    rw [hcourseSlots]
    exact h.current job id c (hpending job hjob) (hfind id c hc) hplace hsuccess
  · intro p hp huploaded
    obtain ⟨print, hprint, hurls, hothers⟩ := h.uploaded p hp huploaded
    exact ⟨print, hprint, hurls, fun id c hc => hothers id c (hfind id c hc)⟩
  · intro id c hc
    exact h.agree id c (hfind id c hc)

/-- **Step:** the PDFs of courses stay coherent. -/
theorem Coherent.step {orm : Orm} {a : SiteAction} {w' : Site} (h : w.Coherent)
    (horderly : orderly w a) (hkept : printsAsKept w a) (hstep : w.step orm a = some w') :
    w'.Coherent := by
  cases effect_of_step hstep with
  | refused => exact h
  | created g db' hcreated => exact h.created horderly hcreated
  | reviewed id db' huntouched => exact h.untouched horderly huntouched
  | drafted id dto db' huntouched => exact h.untouched horderly huntouched
  | approved id dto ctx result db' happroved => exact h.approved horderly happroved
  | read k i run job course hjob hcourse =>
    exact h.read (List.mem_of_getElem? hjob) (List.mem_of_getElem? hcourse) run
  | uploaded k p hp =>
    exact h.upload hp fun id c hc => hkept p hp c (Table.mem_of_find hc)
  | unreported k p => exact h.quiet (quiet_eraseIdx k) rfl
  | reported k p id hp hid hready => exact h.reported hp hid hready
  | stopped k => exact h.quiet (quiet_eraseIdx k) rfl
  | finished k job => exact h.quiet (quiet_finish k) rfl
  | mergeStarted k stalls r tenantId => exact h.quiet (quiet_startMerge k stalls _) rfl
  | partFetched k m variant url hm => exact h.quiet (quiet_merges _) rfl
  | mergeUploaded k m variant rest file hm hfile =>
    exact h.quiet (quiet_mergeUploaded m variant file _) rfl
  | mergePassed k m variant rest hm => exact h.quiet (quiet_merges _) rfl
  | mergeFailed k m hm => exact h.quiet (quiet_retryMerge _ m) rfl
  | mergeSkipped k m hm => exact h.quiet (quiet_merges _) rfl
  | merged k m hm =>
    have hquiet := w.quiet_merges (w.merges.eraseIdx k)
    exact (h.quiet hquiet rfl).commit_requests ((h.sound.quiet hquiet).commit_of_samePdfs
      (keepsPlaces_stored m w.db) (by simp)) rfl rfl rfl
  | swept i updatedAt => exact horderly.elim
  | redispatched k s r rest => exact horderly.elim
  | sweepEnded k => exact horderly.elim

end Site

/-- **The PDFs of a completed course agree** in every run in which a single course is never
printed differently from the PDFs that it keeps. -/
theorem artifactsAgree_of_printsAsKept (orm : Orm) : ArtifactsAgree orm printsAsKept := by
  intro catalog w hreach c hc hsuccess
  have hcoherent : w.Coherent := by
    refine hreach.invariant ?_ fun s a s' hs hcond hstep => hs.step hcond.1 hcond.2 hstep
    have hrefl : Reaches (Site.step orm) orderly (.start catalog) (.start catalog) := .refl
    have hstart : (Site.start catalog).Sound := Site.sound_of_reaches hrefl
    have hidle : (Site.start catalog).Idle := ⟨rfl, rfl, rfl⟩
    constructor
    · exact hstart
    · intro p hp
      cases hp
    · intro job _ hjob
      exact absurd hjob (hidle.not_pending job)
    · intro job _ _ hjob
      exact absurd hjob (hidle.not_pending job)
    · intro job _ _ hjob
      exact absurd hjob (hidle.not_pending job)
    · intro p hp
      cases hp
    · intro id c hc
      cases hc
  exact hcoherent.agree c.id c (Table.find_of_mem hc) (.inl hsuccess)

/-- The course of a generation without review is approved with another question. -/
def editByApproval : List SiteAction :=
  .generate (courseSeven false) :: printFirst ++
    .approve 1 ⟨2, true, [⟨20, 200⟩], []⟩ ⟨1, 1⟩ :: printFirst

/-- The site when the approved course has been printed. -/
def reprintedSite : Site := after (Site.step .typeOrm) (.start topicThirty) editByApproval

/-- Course 10 when it has been printed again after the approval. -/
def reprintedRow : MaterialRequestCourse :=
  { printedRow with
    downloadUrl := some (.object { pdfKey .student with templateName := "Material" }) }

/-- **The answer key is that of the old questions** when an approval has changed one. -/
theorem not_artifactsAgree : ¬ ArtifactsAgree .typeOrm fun _ _ => True := by
  intro h
  have hreach : Reaches (Site.step .typeOrm) (fun w a => orderly w a ∧ True) (.start topicThirty)
      reprintedSite := reaches_after_of_performs (by decide +kernel)
  obtain ⟨print, -, hshow⟩ :=
    h topicThirty reprintedSite hreach reprintedRow (by decide +kernel) rfl
  have hstudent :
      reprintedSite.files (.object { pdfKey .student with templateName := "Material" }) =
        some [⟨[slotTwenty 200 .replaced], [⟨200, 30, 31⟩]⟩] := by decide +kernel
  have hkeys : reprintedSite.files (.object (pdfKey .keys)) =
      some [⟨[slotTwenty 100 .found], [⟨100, 30, 31⟩]⟩] := by decide +kernel
  have hnew := hstudent.symm.trans (hshow .student _ rfl)
  have hold := hkeys.symm.trans (hshow .keys _ rfl)
  exact absurd (hnew.trans hold.symm) (by decide)

end Odiseo.Materials
