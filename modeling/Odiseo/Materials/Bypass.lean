import Odiseo.Materials.SiteSound

/-!
# Approvals that generate nothing

An approval without edits of a request all of whose courses have their three PDFs only changes
statuses. It looks at the edits of this one call, so that a draft which was saved before is
approved with the PDFs from before the draft. And it does not happen to a request that was created
with review, unless a sweep has dispatched its courses: the job of an approved course prints no
answer key.
-/

namespace Odiseo.Materials

open Database Database.Transition

section Commits

variable {orm : Orm} {id : RequestId} {dto : ApproveReview} {ctx : MaterialReviewContext} {db : Db}

/-- `save` does not throw when the row in memory, the row read again and the row agree. -/
def Orm.SavesCurrent (orm : Orm) : Prop :=
  ∀ n, (orm.version n n n).isSome = true

/-- `typeOrm` saves every row. -/
theorem savesCurrent_typeOrm : Orm.SavesCurrent .typeOrm := fun _ => rfl

/-- `save` of a request that is current in memory, up to its status, runs to its end. -/
theorem run_save_current (horm : orm.SavesCurrent) {entity : MaterialRequest}
    {courses : List MaterialRequestCourse} (hfind : db.requests.find entity.id = some entity)
    (hcourses : ∀ c ∈ courses, db.courses.find c.id = some c) (status : MaterialRequestStatus) :
    ∃ n, (save orm { entity with status := status } courses).run db =
      .ok (n, saveRequestIn { entity with status := status } entity n db, []) := by
  obtain ⟨n, hn⟩ := Option.isSome_iff_exists.mp (horm entity.version)
  have hversion : savedVersion orm { entity with status := status } entity db = some n := by
    unfold savedVersion
    rw [hfind]
    exact hn
  refine ⟨n, ?_⟩
  rw [run_save hcourses]
  simp only [hfind, hversion]

/-- **An approval that generates nothing** runs to its end. -/
theorem run_approve_of_bypasses (horm : orm.SavesCurrent)
    (hcurrent : versionMatches id dto.version db = true) (hwarn : dto.continueWithWarnings = true)
    (hbypass : bypasses dto (db.coursesOf id) = true) :
    ∃ result db', (approve orm id dto ctx).run db = .ok (result, db', []) := by
  obtain ⟨q, hfind, -⟩ := (Option.any_eq_true _ _).mp hcurrent
  obtain rfl : q.id = id := Db.request_id_of_find hfind
  rw [run_approve_of_find orm dto ctx hfind, if_pos hcurrent]
  set v := editSlots q.id dto (bumpIn q.id db)
  set entity : MaterialRequest := { q with version := dto.version + 1 }
  set courses := db.coursesOf q.id
  have hfound : v.requests.find entity.id = some entity := find_request_edited hfind hcurrent
  have hcourses : ∀ c ∈ courses, v.courses.find c.id = some c := fun c hc => find_courses_edited hc
  obtain ⟨n, hsave⟩ := run_save_current horm hfound hcourses
    (if hasEmpty (v.slotsOf entity.id) then .completedWithWarnings else .completed)
  unfold decideApproval
  simp only [Program.bind_eq, Program.run_select_bind]
  rw [if_neg (by simp [hwarn])]
  have hcond : (alreadyGenerated courses && dto.noChanges) = true := hbypass
  rw [if_pos hcond]
  unfold approveWithoutChanges
  simp only [Program.bind_eq, Program.run_bind, hsave, run_updateMaterialStatus,
    run_updateCourseStatuses, Program.pure_eq_done, Program.run_done, List.append_nil]
  exact ⟨_, _, rfl⟩

end Commits

section Blessing

variable {orm : Orm} {id : RequestId} {dto : ApproveReview} {ctx : MaterialReviewContext}
  {w : Site}

/-- An approval finishes the request and dispatches no job. -/
def Finalises (orm : Orm) (id : RequestId) (dto : ApproveReview) (ctx : MaterialReviewContext)
    (db : Db) : Prop :=
  ∃ result db', (approve orm id dto ctx).run db = .ok (result, db', []) ∧
    result.jobsToDispatch = [] ∧
      (result.status = some .completed ∨ result.status = some .completedWithWarnings)

/-- The PDFs of the courses of a request show exactly the review slots that the courses have. -/
def Site.ShowsCurrent (w : Site) (id : RequestId) : Prop :=
  ∀ c ∈ w.db.coursesOf id, ∀ variant url, c.url variant = some url →
    ∃ print, w.files url = some [print] ∧ print.slots = w.db.courseSlots id c.courseId

/-- In the runs under a condition an approval that generates nothing is one of PDFs that show
the slots of the request. -/
def BlessesCurrent (orm : Orm) (cond : Site → SiteAction → Prop) : Prop :=
  ∀ catalog w id dto ctx, Reaches (Site.step orm) cond (.start catalog) w →
    cond w (.approve id dto ctx) → Finalises orm id dto ctx w.db →
      (w.serve (approve orm id dto ctx) (·.jobsToDispatch)).ShowsCurrent id

/-- The slots of a request have not changed since they were read for the PDFs of its courses. -/
def Site.Unedited (w : Site) (id : RequestId) : Prop :=
  ∀ c ∈ w.db.coursesOf id, ∀ variant url, c.url variant = some url →
    w.readAt url = w.curations id c.courseId

/-- An approval that generates nothing comes when the slots have not been edited. -/
def noLateEdit (w : Site) : SiteAction → Prop
  | .approve id dto _ => bypasses dto (w.db.coursesOf id) = true → w.Unedited id
  | _ => True

/-- An approval that finishes the request has generated nothing. -/
theorem bypasses_of_finalises (h : Finalises orm id dto ctx w.db) :
    bypasses dto (w.db.coursesOf id) = true := by
  obtain ⟨result, db', hrun, -, hstatus⟩ := h
  have hgiven := (run_approve hrun).1.status
  cases hbypass : bypasses dto (w.db.coursesOf id) with
  | true => rfl
  | false =>
    rw [approvedStatus, hbypass] at hgiven
    rcases hstatus with hdone | hdone
    · rw [hgiven] at hdone
      cases hdone
    · rw [hgiven] at hdone
      cases hdone

/-- PDFs from unedited slots show the slots of the request. -/
theorem Site.Sound.showsCurrent (h : w.Sound) (hunedited : w.Unedited id) : w.ShowsCurrent id := by
  intro c hc variant url hurl
  obtain ⟨hfind, hr⟩ := Db.mem_coursesOf.mp hc
  obtain ⟨key, rfl, hplace, hsome⟩ := (h.courses _ c hfind).url variant url hurl
  obtain ⟨file, hfile⟩ := Option.isSome_iff_exists.mp hsome
  obtain ⟨print, rfl, -, hcurrent⟩ := h.files key file hfile
  have hkey : (key.materialRequestId, key.courseId) = (id, c.courseId) := by
    rw [hplace, MaterialRequestCourse.place, hr]
  obtain ⟨hkeyr, hkeyc⟩ := Prod.mk.inj hkey
  have hread := hunedited c hc variant _ hurl
  refine ⟨print, hfile, ?_⟩
  rw [← hkeyr, ← hkeyc] at hread ⊢
  exact hcurrent hread

/-- An approval that generates nothing leaves the PDFs and the slots alone. -/
theorem showsCurrent_of_bypasses {result : ApprovalResult} {db' : Db} {jobs : List Job}
    (happroved : Approved orm id dto ctx w.db db' result)
    (hbypass : bypasses dto (w.db.coursesOf id) = true) (h : w.ShowsCurrent id) :
    (w.commit db' jobs).ShowsCurrent id := by
  have hchanges : dto.noChanges = true := (Bool.and_eq_true_iff.mp hbypass).2
  obtain ⟨hreplacements, hremovals⟩ : dto.replacements = [] ∧ dto.removals = [] := by
    simpa [ApproveReview.noChanges] using hchanges
  have hslots : db'.slots = w.db.slots := by
    rw [happroved.slots, editSlots, hreplacements, hremovals]
    rfl
  have hcourseSlots := Db.courseSlots_congr hslots happroved.catalog
  intro c' hc' variant url hurl
  have hc' : c' ∈ db'.coursesOf id := hc'
  rw [happroved.courses.coursesOf] at hc'
  obtain ⟨c, hc, rfl⟩ := List.mem_map.mp hc'
  have hcourse : (approvedCourse id dto (w.db.coursesOf id) c).courseId = c.courseId :=
    congrArg Prod.snd (happroved.courses.place c)
  have hsame := url_approvedCourse id dto (w.db.coursesOf id) c variant
  obtain ⟨print, hfile, hprint⟩ := h c hc variant url (hsame ▸ hurl)
  refine ⟨print, hfile, ?_⟩
  change print.slots = db'.courseSlots id _
  rw [hcourse, hcourseSlots]
  exact hprint

/-- **Approvals that generate nothing** are of PDFs that show the slots of the request, in every
run in which nobody has changed the slots between their reading and such an approval. -/
theorem blessesCurrent_of_noLateEdit (orm : Orm) : BlessesCurrent orm noLateEdit := by
  intro catalog w id dto ctx hreach hcond hfinal
  have hbypass := bypasses_of_finalises hfinal
  obtain ⟨result, db', hrun, -, -⟩ := hfinal
  have hserve : w.serve (approve orm id dto ctx) (·.jobsToDispatch) =
      w.commit db' ([] ++ result.jobsToDispatch) := by
    unfold Site.serve
    rw [hrun]
  rw [hserve]
  refine showsCurrent_of_bypasses (run_approve hrun).1 hbypass ?_
  exact (Site.sound_of_reaches hreach).showsCurrent (hcond hbypass)

end Blessing

/-- Course 7 has topic 30. -/
def topicThirty : Catalog := ⟨[], [], [], [], [⟨30, 7⟩]⟩

/-- A generation of course 7 as course 10, with question 100 in slot 20. -/
def courseSeven (requiresReview : Bool) : GenerateInputs where
  tenantId := 1
  profileId := 1
  weekNumber := 1
  requiresReview := requiresReview
  templateName := "Balotario"
  cycleId := 1
  company := none
  designTemplateId := none
  courses := [(⟨7, [], [], none⟩, 10)]
  slots := [(⟨30, 31, "EASY", some 100⟩, 20)]
  newMaterialId := 5
  newRequestId := 1

/-- The address of a PDF of course 10. -/
def pdfKey (variant : Variant) : ArtifactKey := ⟨1, 1, 1, "Balotario", 1, 7, variant⟩

/-- Course 10 when it has been printed without review. -/
def printedRow : MaterialRequestCourse where
  id := 10
  materialRequestId := 1
  courseId := 7
  status := .completed
  downloadUrl := some (.object (pdfKey .student))
  keyDownloadUrl := some (.object (pdfKey .keys))
  solutionDownloadUrl := some (.object (pdfKey .solutions))
  warnings := none
  pageCount := some 1
  fileSizeBytes := some 1
  completedAt := some 0

/-- Slot 20 with a question. -/
def slotTwenty (questionId : QuestionId) (status : ReviewQuestionStatus) :
    MaterialReviewQuestion where
  id := 20
  materialRequestId := 1
  questionId := some questionId
  topicId := 30
  subtopicId := 31
  expectedLevel := some "EASY"
  position := 1
  status := status

/-- Nothing fails while a course is printed. -/
def smoothRun : CourseRun := ⟨[100, 200], [], none, some 1, 1, 0, false⟩

/-- The worker prints the first course of its first job. -/
def printFirst : List SiteAction := [.read 0 0 smoothRun, .upload 0, .report 0, .finish 0]

/-- The approval without edits, with the version of the request. -/
def approveAsIs (version : ℕ) : ApproveReview := ⟨version, true, [], []⟩

/-- Question 200 replaces question 100 after the course has been printed. -/
def editAfterPrint : List SiteAction :=
  .generate (courseSeven false) :: printFirst ++ [.saveDraft 1 ⟨2, false, [⟨20, 200⟩], []⟩]

/-- The site before the approval. -/
def editedSite : Site := after (Site.step .typeOrm) (.start topicThirty) editAfterPrint

/-- **A draft between the PDFs and the approval** is approved with the old PDFs. -/
theorem not_blessesCurrent : ¬ BlessesCurrent .typeOrm fun _ _ => True := by
  intro h
  have hreach : Reaches (Site.step .typeOrm) (fun _ _ => True) (.start topicThirty) editedSite :=
    reaches_after (by decide +kernel) fun _ _ _ => trivial
  have hfinal : Finalises .typeOrm 1 (approveAsIs 3) ⟨1, 1⟩ editedSite.db :=
    ⟨⟨some .completed, "Revisión aprobada sin cambios. El documento existente se mantiene.", []⟩,
      _, rfl, rfl, .inl rfl⟩
  have hshows := h topicThirty editedSite 1 (approveAsIs 3) ⟨1, 1⟩ hreach trivial hfinal
  obtain ⟨print, hfile, hslots⟩ := hshows printedRow (by decide +kernel) .student _ rfl
  have hprinted : editedSite.files (.object (pdfKey .student)) =
      some [⟨[slotTwenty 100 .found], [⟨100, 30, 31⟩]⟩] := by decide +kernel
  have hprint : print.slots = [slotTwenty 100 .found] := by
    have hsame : some [print] = some [⟨[slotTwenty 100 .found], [⟨100, 30, 31⟩]⟩] :=
      hfile.symm.trans hprinted
    cases hsame
    rfl
  have hnow : (editedSite.serve (approve .typeOrm 1 (approveAsIs 3) ⟨1, 1⟩)
      (·.jobsToDispatch)).db.courseSlots 1 7 = [slotTwenty 200 .replaced] := by decide +kernel
  have hcontra : [slotTwenty 100 .found] = [slotTwenty 200 .replaced] :=
    hprint.symm.trans (hslots.trans hnow)
  exact absurd hcontra (by decide)

section Convergence

variable {orm : Orm} {id : RequestId} {dto : ApproveReview} {ctx : MaterialReviewContext}
  {w : Site}

/-- Every course of a request has a PDF from its slots of today. -/
def Site.Regenerated (w : Site) (id : RequestId) : Prop :=
  ∀ c ∈ w.db.coursesOf id, ∃ url, c.downloadUrl = some url ∧
    w.readAt url = w.curations id c.courseId

/-- An approval dispatches no job and leaves the request finished. -/
def Closes (orm : Orm) (id : RequestId) (dto : ApproveReview) (ctx : MaterialReviewContext)
    (db : Db) : Prop :=
  ∃ result db', (approve orm id dto ctx).run db = .ok (result, db', []) ∧
    result.jobsToDispatch = [] ∧ ∃ q, db'.requests.find id = some q ∧
      (q.status = .completed ∨ q.status = .completedWithWarnings)

/-- The worker prints every course that it begins, and reports it. -/
def succeeds (w : Site) : SiteAction → Prop
  | .report k => (w.prints[k]?).all Printing.prints = true
  | .stop _ => False
  | _ => True

instance (w : Site) (a : SiteAction) : Decidable (succeeds w a) :=
  match a with
  | .report k => inferInstanceAs (Decidable ((w.prints[k]?).all Printing.prints = true))
  | .stop _ => isFalse not_false
  | .generate _ | .review _ | .saveDraft _ _ | .approve _ _ _ | .read _ _ _ | .upload _
  | .finish _ | .startMerge _ _ | .fetchPart _ | .uploadMerged _ | .finishMerge _ | .sweep _ _
  | .redispatch _ => isTrue trivial

/-- In the runs in which every job succeeds, an approval without edits closes a request whose
courses have been printed since their slots were last changed. -/
def ApprovalConverges (orm : Orm) : Prop :=
  ∀ catalog w id dto ctx, Reaches (Site.step orm) succeeds (.start catalog) w →
    w.Regenerated id → versionMatches id dto.version w.db = true → dto.noChanges = true →
      dto.continueWithWarnings = true → Closes orm id dto ctx w.db

/-- A course with an answer key has its three PDFs. -/
theorem Site.Sound.alreadyGenerated_iff (h : w.Sound) :
    alreadyGenerated (w.db.coursesOf id) = true ↔
      ∀ c ∈ w.db.coursesOf id, c.keyDownloadUrl.isSome = true := by
  unfold alreadyGenerated
  rw [List.all_eq_true]
  constructor
  · intro hall c hc
    have hthree := hall c hc
    simp only [Bool.and_eq_true] at hthree
    exact hthree.1.2
  · intro hall c hc
    have hsound := h.courses _ c (Db.mem_coursesOf.mp hc).1
    have hkeys : (c.url .keys).isSome = true := hall c hc
    have hstudent : c.downloadUrl.isSome = true := hsound.student hkeys
    have hsolutions : c.solutionDownloadUrl.isSome = true := hsound.solutions.trans hkeys
    simp only [Bool.and_eq_true]
    exact ⟨⟨hstudent, hkeys⟩, hsolutions⟩

/-- An approval that closes the request has generated nothing. -/
theorem bypasses_of_closes (h : Closes orm id dto ctx w.db) :
    bypasses dto (w.db.coursesOf id) = true := by
  obtain ⟨result, db', hrun, -, q', hq', hstatus⟩ := h
  obtain ⟨q, n, -, hrow⟩ := (run_approve hrun).1.request
  rw [hrow] at hq'
  cases hq'
  cases hbypass : bypasses dto (w.db.coursesOf id) with
  | true => rfl
  | false =>
    rw [approvedStatus, hbypass] at hstatus
    rcases hstatus with hdone | hdone
    · cases hdone
    · cases hdone

/-- An approval that generates nothing closes the request. -/
theorem closes_of_bypasses (horm : orm.SavesCurrent)
    (hcurrent : versionMatches id dto.version w.db = true) (hwarn : dto.continueWithWarnings = true)
    (hbypass : bypasses dto (w.db.coursesOf id) = true) : Closes orm id dto ctx w.db := by
  obtain ⟨result, db', hrun⟩ :
      ∃ result db', (approve orm id dto ctx).run w.db = .ok (result, db', []) :=
    run_approve_of_bypasses horm hcurrent hwarn hbypass
  have happroved := (run_approve hrun).1
  have hjobs := happroved.jobs
  rw [if_pos hbypass] at hjobs
  obtain ⟨q, n, -, hrow⟩ := happroved.request
  refine ⟨result, db', hrun, hjobs, _, hrow, ?_⟩
  dsimp only
  rw [approvedStatus, if_pos hbypass]
  split
  · exact .inr rfl
  · exact .inl rfl

/-- **An approval without edits closes a request** exactly when all of its courses have answer
keys. -/
theorem closes_iff (horm : orm.SavesCurrent) {cond : Site → SiteAction → Prop} {catalog : Catalog}
    (hreach : Reaches (Site.step orm) cond (.start catalog) w)
    (hcurrent : versionMatches id dto.version w.db = true) (hchanges : dto.noChanges = true)
    (hwarn : dto.continueWithWarnings = true) :
    Closes orm id dto ctx w.db ↔ ∀ c ∈ w.db.coursesOf id, c.keyDownloadUrl.isSome = true := by
  rw [← (Site.sound_of_reaches hreach).alreadyGenerated_iff]
  constructor
  · intro hcloses
    exact (Bool.and_eq_true_iff.mp (bypasses_of_closes hcloses)).1
  · intro hall
    exact closes_of_bypasses horm hcurrent hwarn (Bool.and_eq_true_iff.mpr ⟨hall, hchanges⟩)

/-- A course that has been printed once. -/
def printedSite : Site :=
  after (Site.step .typeOrm) (.start topicThirty) (.generate (courseSeven false) :: printFirst)

/-- `closes_iff` at a printed request without review. -/
theorem closes_iff_printedSite : Closes .typeOrm 1 (approveAsIs 2) ⟨1, 1⟩ printedSite.db ↔
    ∀ c ∈ printedSite.db.coursesOf 1, c.keyDownloadUrl.isSome = true := by
  have hreach : Reaches (Site.step .typeOrm) succeeds (.start topicThirty) printedSite :=
    reaches_after_of_performs (by decide +kernel)
  exact closes_iff savesCurrent_typeOrm hreach (by decide +kernel) rfl rfl

/-- No sweep dispatches a course again. -/
def unswept (_ : Site) : SiteAction → Prop
  | .sweep _ _ | .redispatch _ => False
  | _ => True

/-- A request was created without review. -/
def Db.Unreviewed (db : Db) (r : RequestId) : Prop :=
  ∃ q, db.requests.find r = some q ∧ q.requiresReview = false

/-- Answer keys are printed for requests without review only. -/
structure Site.KeysUnreviewed (w : Site) : Prop where
  sound : w.Sound
  jobs : ∀ job, w.Pending job → .keys ∈ job.variants → w.db.Unreviewed job.materialRequestId
  courses : ∀ k c, w.db.courses.find k = some c → (c.url .keys).isSome = true →
    w.db.Unreviewed c.materialRequestId

/-- A request without review stays one. -/
theorem Db.Unreviewed.keepsPlaces {a b : Db} {r : RequestId} (h : a.Unreviewed r)
    (hplaces : KeepsPlaces a b) : b.Unreviewed r := by
  obtain ⟨q, hq, hreview⟩ := h
  obtain ⟨q', hq', hreview'⟩ := hplaces.requests r q hq
  exact ⟨q', hq', hreview'.trans hreview⟩

namespace Site.KeysUnreviewed

variable {w' : Site}

/-- A step on which the database stays and no work is added. -/
theorem quiet (h : w.KeysUnreviewed) (hquiet : w.Quiet w') : w'.KeysUnreviewed where
  sound := h.sound.quiet hquiet
  jobs := by
    intro job hjob
    rw [hquiet.db]
    exact h.jobs job (hquiet.jobs job hjob)
  courses := by
    intro k c
    rw [hquiet.db]
    exact h.courses k c

/-- A commit that brings no answer key, and jobs that print them only without review. -/
theorem commit (h : w.KeysUnreviewed) {db : Db} {jobs : List Job}
    (hsame : KeepsPlaces w.db db ∧ SamePdfs w.db db)
    (hsound : ∀ j ∈ jobs, ∀ job ∈ j.courseJobs, job.Sound db)
    (hjobs : ∀ j ∈ jobs, ∀ job ∈ j.courseJobs, .keys ∈ job.variants →
      db.Unreviewed job.materialRequestId) : (w.commit db jobs).KeysUnreviewed where
  sound := h.sound.commit_of_samePdfs hsame hsound
  jobs := by
    rintro job (⟨j, hj, hjob⟩ | hprinting) hkeys
    · rcases List.mem_append.mp hj with hold | hnew
      · exact (h.jobs job (.inl ⟨j, hold, hjob⟩) hkeys).keepsPlaces hsame.1
      · exact hjobs j hnew job hjob hkeys
    · exact (h.jobs job (.inr hprinting) hkeys).keepsPlaces hsame.1
  courses := by
    intro k c' hc' hkeys
    rcases hsame.2 k c' hc' with ⟨c, hc, hplace, hurl⟩ | ⟨-, hnone⟩
    · rw [show c'.materialRequestId = c.materialRequestId from congrArg Prod.fst hplace]
      exact (h.courses k c hc (hurl .keys ▸ hkeys)).keepsPlaces hsame.1
    · rw [hnone] at hkeys
      cases hkeys

/-- The worker reads the slots of a course. -/
theorem read (h : w.KeysUnreviewed) {j : Job} {job : CourseJob} (hj : j ∈ w.jobs)
    (hjob : job ∈ j.courseJobs) (run : CourseRun) : (w.read job run).KeysUnreviewed where
  sound := h.sound.read hj hjob run
  jobs := by
    rintro other (hqueued | ⟨p, hp, rfl⟩)
    · exact h.jobs other (.inl hqueued)
    · rcases List.mem_append.mp hp with hold | hnew
      · exact h.jobs _ (.inr ⟨p, hold, rfl⟩)
      · obtain rfl := List.mem_singleton.mp hnew
        exact h.jobs job (.inl ⟨j, hj, hjob⟩)
  courses := h.courses

/-- The worker uploads the PDFs of a course. -/
theorem upload (h : w.KeysUnreviewed) {k : ℕ} {p : Printing} (hp : w.prints[k]? = some p) :
    (w.upload k p).KeysUnreviewed where
  sound := h.sound.upload hp
  jobs := by
    rintro job (hqueued | ⟨x, hx, rfl⟩)
    · exact h.jobs job (.inl hqueued)
    · rcases List.mem_or_eq_of_mem_set hx with hold | rfl
      · exact h.jobs _ (.inr ⟨x, hold, rfl⟩)
      · exact h.jobs p.job (.inr ⟨p, List.mem_of_getElem? hp, rfl⟩)
  courses := h.courses

/-- The report of a course is handled. -/
theorem reported (h : w.KeysUnreviewed) {k : ℕ} {p : Printing} {n : CourseRequestId}
    (hp : w.prints[k]? = some p) (hn : p.job.dist.courseRequestId = some n)
    (hready : p.prints = true → p.uploaded = true) : (w.reported k p n).KeysUnreviewed := by
  have hpending : w.Pending p.job := .inr ⟨p, List.mem_of_getElem? hp, rfl⟩
  have hplaces := keepsPlaces_after p.callback n p.reported w.db
  refine ⟨h.sound.reported hp hn hready, ?_, ?_⟩
  · rintro job (⟨j, hj, hjob⟩ | ⟨x, hx, rfl⟩) hkeys
    · rcases List.mem_append.mp hj with hold | hnew
      · exact (h.jobs job (.inl ⟨j, hold, hjob⟩) hkeys).keepsPlaces hplaces
      · rw [courseJobs_of_mem_jobsAfter hnew] at hjob
        cases hjob
    · have hbefore : w.Pending x.job := .inr ⟨x, List.mem_of_mem_eraseIdx hx, rfl⟩
      exact (h.jobs _ hbefore hkeys).keepsPlaces hplaces
  · intro i c' hc' hkeys
    have hc' : (p.callback.after n p.reported w.db).courses.find i = some c' := hc'
    rw [find_courses_after] at hc'
    split at hc'
    · rename_i hi
      obtain ⟨c, hc, rfl⟩ := Option.map_eq_some_iff.mp hc'
      unfold Callback.courseAfter at hkeys ⊢
      split at hkeys
      · rename_i hignores
        rw [if_pos hignores]
        exact (h.courses i c hc hkeys).keepsPlaces hplaces
      · rename_i hchanges
        rw [if_neg hchanges]
        change (p.callback.after n p.reported w.db).Unreviewed c.materialRequestId
        rw [url_change, Option.isSome_or, Bool.or_eq_true, isSome_printing_url] at hkeys
        rcases hkeys with hnew | hold
        · obtain ⟨row, hrow, hplace⟩ := (h.sound.jobs _ hpending).course n hn
          rw [hi, hrow] at hc
          cases hc
          rw [show c.materialRequestId = p.job.materialRequestId from congrArg Prod.fst hplace]
          refine (h.jobs _ hpending ?_).keepsPlaces hplaces
          simpa using (Bool.and_eq_true_iff.mp hnew).2
        · exact (h.courses i c hc hold).keepsPlaces hplaces
    · exact (h.courses i c' hc' hkeys).keepsPlaces hplaces

/-- **Step:** without a sweep, answer keys are printed for requests without review only. -/
theorem step {a : SiteAction} (h : w.KeysUnreviewed) (hunswept : unswept w a)
    (hstep : w.step orm a = some w') : w'.KeysUnreviewed := by
  cases effect_of_step hstep with
  | refused => exact h
  | created g db' hcreated =>
    refine h.commit hcreated.keepsPlaces (fun j hj job hjob => hcreated.sound hj hjob) ?_
    intro j hj job hjob _
    exact hcreated.unreviewed hj hjob
  | reviewed id db' huntouched => exact h.commit huntouched.keepsPlaces (by simp) (by simp)
  | drafted id dto db' huntouched => exact h.commit huntouched.keepsPlaces (by simp) (by simp)
  | approved id dto ctx result db' happroved =>
    refine h.commit happroved.keepsPlaces (fun j hj job hjob => happroved.sound hj hjob) ?_
    intro j hj job hjob hkeys
    rw [happroved.variants hj hjob] at hkeys
    simp at hkeys
  | read k i run job course hjob hcourse =>
    exact h.read (List.mem_of_getElem? hjob) (List.mem_of_getElem? hcourse) run
  | uploaded k p hp => exact h.upload hp
  | unreported k p => exact h.quiet (quiet_eraseIdx k)
  | reported k p n hp hn hready => exact h.reported hp hn hready
  | stopped k => exact h.quiet (quiet_eraseIdx k)
  | finished k job => exact h.quiet (quiet_finish k)
  | mergeStarted k stalls => exact h.quiet (quiet_startMerge k stalls _)
  | partFetched k m variant url hm => exact h.quiet (quiet_merges _)
  | mergeUploaded k m variant rest file hm hfile =>
    exact h.quiet (quiet_mergeUploaded m variant file _)
  | mergePassed k m variant rest hm => exact h.quiet (quiet_merges _)
  | mergeFailed k m hm => exact h.quiet (quiet_retryMerge _ m)
  | mergeSkipped k m hm => exact h.quiet (quiet_merges _)
  | merged k m hm =>
    exact (h.quiet (quiet_merges _)).commit (keepsPlaces_stored m w.db) (by simp) (by simp)
  | swept i updatedAt => exact hunswept.elim
  | redispatched k s r rest => exact hunswept.elim
  | sweepEnded k => exact hunswept.elim

end Site.KeysUnreviewed

/-- **A request with review is never closed** in a run without sweeps, when it has a course. -/
theorem not_closes_of_unswept {catalog : Catalog}
    (hreach : Reaches (Site.step orm) unswept (.start catalog) w) {q : MaterialRequest}
    (hq : w.db.requests.find id = some q) (hreview : q.requiresReview = true)
    (hcourses : w.db.coursesOf id ≠ []) : ¬ Closes orm id dto ctx w.db := by
  intro hcloses
  have hkeys : w.KeysUnreviewed := by
    refine hreach.invariant ?_ fun s a s' hs hunswept hstep => hs.step hunswept hstep
    have hrefl : Reaches (Site.step orm) unswept (.start catalog) (.start catalog) := .refl
    refine ⟨Site.sound_of_reaches hrefl, ?_, ?_⟩
    · rintro job (⟨j, hj, -⟩ | ⟨p, hp, -⟩)
      · cases hj
      · cases hp
    · intro k c hc
      cases hc
  obtain ⟨c, hc⟩ := List.exists_mem_of_ne_nil _ hcourses
  obtain ⟨hfind, hr⟩ := Db.mem_coursesOf.mp hc
  have hall := (Bool.and_eq_true_iff.mp (bypasses_of_closes hcloses)).1
  obtain ⟨q', hq', hunreviewed⟩ :=
    hkeys.courses _ c hfind (hkeys.sound.alreadyGenerated_iff.mp hall c hc)
  rw [hr, hq] at hq'
  cases hq'
  rw [hreview] at hunreviewed
  cases hunreviewed

/-- A request is created with review and approved, and its course is printed. -/
def approvePrint : List SiteAction :=
  .generate (courseSeven true) :: .approve 1 (approveAsIs 1) ⟨1, 1⟩ :: printFirst

/-- The site before the second approval. -/
def approvedSite : Site := after (Site.step .typeOrm) (.start topicThirty) approvePrint

/-- Course 10 when it has been printed after a review. -/
def reviewedRow : MaterialRequestCourse :=
  { printedRow with
    downloadUrl := some (.object { pdfKey .student with templateName := "Material" })
    keyDownloadUrl := none
    solutionDownloadUrl := none }

/-- **A second approval** generates the course of a reviewed request again. -/
theorem not_approvalConverges : ¬ ApprovalConverges .typeOrm := by
  intro h
  have hreach : Reaches (Site.step .typeOrm) succeeds (.start topicThirty) approvedSite :=
    reaches_after_of_performs (by decide +kernel)
  have hcourses : approvedSite.db.coursesOf 1 = [reviewedRow] := by decide +kernel
  have hregenerated : approvedSite.Regenerated 1 := by
    intro c hc
    rw [hcourses] at hc
    obtain rfl := List.mem_singleton.mp hc
    exact ⟨_, rfl, by decide +kernel⟩
  have hcloses := h topicThirty approvedSite 1 (approveAsIs 4) ⟨1, 1⟩ hreach hregenerated
    (by decide +kernel) rfl rfl
  have hbypass := bypasses_of_closes hcloses
  rw [hcourses] at hbypass
  exact absurd hbypass (by decide)

end Convergence

end Odiseo.Materials
