import Odiseo.Materials.WebhookSpec

/-!
# The status of a request agrees with its courses

Each callback writes its own course before it locks the parent and reads the
siblings. The last callback to obtain the lock therefore sees every committed
sibling, and the agreement of request, material and courses is an invariant of
the committed state, not only of the states in which no callback is open.
-/

namespace Odiseo.Materials

open Database Database.Protocol

/-- The status that a request owes to its courses once all of them have finished. -/
def OwedStatus (courses : List MaterialRequestCourse) (status : MaterialRequestStatus) : Prop :=
  if ∃ c ∈ courses, c.status = .failed then status = .failed
  else if ∃ c ∈ courses, c.status = .completedWithWarnings ∨ c.status = .emptyBank then
    status = .reviewRequired
  else status = .completed

/-- The roll-up computes the status that is owed. -/
theorem owedStatus_finalStatus (courses : List MaterialRequestCourse) :
    OwedStatus courses (finalStatus courses) := by
  have hwarnings : ∀ c : MaterialRequestCourse, c.status.hasWarnings = true ↔
      c.status = .completedWithWarnings ∨ c.status = .emptyBank := by
    intro c
    cases c.status <;> simp [CourseMaterialStatus.hasWarnings]
  have hany : (courses.any fun c => c.status.hasWarnings) = true ↔
      ∃ c ∈ courses, c.status = .completedWithWarnings ∨ c.status = .emptyBank := by
    simp only [List.any_eq_true, hwarnings]
  have hfailed : (courses.any fun c => c.status == .failed) = true ↔
      ∃ c ∈ courses, c.status = .failed := by simp
  unfold OwedStatus finalStatus
  by_cases hf : ∃ c ∈ courses, c.status = .failed
  · rw [if_pos hf, if_pos (hfailed.mpr hf)]
  · rw [if_neg hf, if_neg (fun h => hf (hfailed.mp h))]
    by_cases hw : ∃ c ∈ courses, c.status = .completedWithWarnings ∨ c.status = .emptyBank
    · rw [if_pos hw, if_pos (hany.mpr hw)]
    · rw [if_neg hw, if_neg (fun h => hw (hany.mp h))]

/-- Every course of the request has finished. -/
def AllFinished (db : Db) (r : RequestId) : Prop :=
  ∀ c ∈ db.coursesOf r, c.status = .completed ∨ c.status = .completedWithWarnings ∨
    c.status = .emptyBank ∨ c.status = .failed

/-- The test of the roll-up decides whether every course has finished. -/
theorem allFinished_iff {db : Db} {r : RequestId} :
    allFinished (db.coursesOf r) = true ↔ AllFinished db r := by
  have hstatus : ∀ c : MaterialRequestCourse, c.status.finished = true ↔
      c.status = .completed ∨ c.status = .completedWithWarnings ∨ c.status = .emptyBank ∨
        c.status = .failed := by
    intro c
    cases c.status <;> simp [CourseMaterialStatus.finished]
  simp only [allFinished, List.all_eq_true, hstatus, AllFinished]

/-- Request `r` and its material agree with the courses of the request. -/
def Agrees (r : RequestId) (db : Db) : Prop :=
  AllFinished db r → ∃ q, db.requests.find r = some q ∧ OwedStatus (db.coursesOf r) q.status ∧
    ∀ m, q.materialId = some m → ∃ mat, db.materials.find m = some mat ∧ mat.status = q.status

/-- No request but `r` belongs to the material of `r`. -/
def OnlyRequest (r : RequestId) (db : Db) : Prop :=
  ∀ k q q' m, db.requests.find r = some q → q.materialId = some m →
    db.requests.find k = some q' → q'.materialId = some m → k = r

/-- The request exists, and its material too when it has one. -/
def Linked (r : RequestId) (db : Db) : Prop :=
  ∃ q, db.requests.find r = some q ∧ ∀ m, q.materialId = some m → (db.materials.find m).isSome

section RollUp

variable {r k : RequestId} {m : MaterialId} {db : Db}

/-- A roll-up does not touch the material of another request. -/
theorem find_materials_rollUp_of_ne
    (h : ∀ q, db.requests.find k = some q → q.materialId ≠ some m) :
    (rollUp k db).materials.find m = db.materials.find m := by
  unfold rollUp
  split
  · split
    · rfl
    · rename_i m' hm'
      obtain ⟨q, hq, hqm⟩ := Option.bind_eq_some_iff.mp hm'
      have hne : m ≠ m' := fun heq => h q hq (heq ▸ hqm)
      simp [setMaterialStatus, setRequestStatus, find_updateMaterial, hne]
  · rfl

/-- A roll-up creates and deletes no material. -/
theorem isSome_materials_rollUp :
    ((rollUp k db).materials.find m).isSome = (db.materials.find m).isSome := by
  unfold rollUp
  split
  · split
    · rfl
    · simp only [setMaterialStatus, setRequestStatus, find_updateMaterial, updateRequest_materials]
      split <;> simp
  · rfl

/-- A roll-up keeps the material of its own request. -/
theorem request_of_rollUp {q' : MaterialRequest} (h : (rollUp k db).requests.find r = some q') :
    ∃ q, db.requests.find r = some q ∧ q.materialId = q'.materialId := by
  cases hfind : db.requests.find r with
  | none =>
    have hnone : (rollUp k db).requests.find r = none := by
      by_cases hk : r = k
      · unfold rollUp
        split
        · split <;> simp [setMaterialStatus, setRequestStatus, find_updateRequest, hfind]
        · exact hfind
      · rw [find_requests_rollUp_of_ne db hk, hfind]
    rw [hnone] at h
    cases h
  | some q =>
    obtain ⟨q'', hq'', hm⟩ := materialId_rollUp db (r := k) hfind
    rw [hq''] at h
    cases h
    exact ⟨q, rfl, hm.symm⟩

/-- After its own roll-up a request agrees with its courses. -/
theorem agrees_rollUp (hlinked : Linked r db) : Agrees r (rollUp r db) := by
  intro hfinished
  have hcourses : (rollUp r db).coursesOf r = db.coursesOf r := by
    simp only [Db.coursesOf, rollUp_courses]
  have hall : allFinished (db.coursesOf r) = true := by
    rw [← hcourses]
    exact allFinished_iff.mpr hfinished
  obtain ⟨q, hq, hmat⟩ := hlinked
  rw [hcourses]
  unfold rollUp
  rw [if_pos hall, hq]
  cases hm : q.materialId with
  | none =>
    refine ⟨{ q with status := finalStatus (db.coursesOf r), version := q.version + 1 }, ?_,
      owedStatus_finalStatus _, ?_⟩
    · simp [setRequestStatus, find_updateRequest, hq, hm]
    · intro m' hm'
      simp [hm] at hm'
  | some m =>
    obtain ⟨mat, hfind⟩ := Option.isSome_iff_exists.mp (hmat m hm)
    refine ⟨{ q with status := finalStatus (db.coursesOf r), version := q.version + 1 }, ?_,
      owedStatus_finalStatus _, ?_⟩
    · simp [setMaterialStatus, setRequestStatus, find_updateRequest, hq, hm]
    · intro m' hm'
      obtain rfl : m = m' := by simpa [hm] using hm'
      refine ⟨{ mat with status := finalStatus (db.coursesOf r) }, ?_, rfl⟩
      simp [setMaterialStatus, setRequestStatus, find_updateMaterial, hm, hfind]

end RollUp

/-- What holds of request `r` in every committed state. -/
structure RollUpInv (r : RequestId) (db : Db) : Prop where
  linked : Linked r db
  only : OnlyRequest r db
  nonempty : db.coursesOf r ≠ []
  agrees : Agrees r db

/-- **Step lemma:** a callback that commits keeps the agreement. -/
theorem rollUpInv_effect {r : RequestId} {db : Db} {cb : Callback}
    {incoming : CourseMaterialStatus} {course cur : MaterialRequestCourse}
    {seen : List MaterialQuestionUsage} (h : RollUpInv r db)
    (hcur : db.courses.find course.id = some cur)
    (hr : cur.materialRequestId = course.materialRequestId) :
    RollUpInv r (cb.effect incoming course seen db) := by
  set k := course.materialRequestId with hk
  set p := cb.prepare incoming course seen db with hp
  have heffect : cb.effect incoming course seen db = rollUp k p := rfl
  have hrequests : p.requests = db.requests := prepare_requests ..
  have hmaterials : p.materials = db.materials := prepare_materials ..
  have hlinked : Linked r p := by
    obtain ⟨q, hq, hmat⟩ := h.linked
    exact ⟨q, by rw [hrequests, hq], by rw [hmaterials]; exact hmat⟩
  have honly : OnlyRequest r p := by
    intro k' q q' m hq hm hq' hm'
    rw [hrequests] at hq hq'
    exact h.only k' q q' m hq hm hq' hm'
  have hcoursesOf : p.coursesOf r = (db.coursesOf r).map fun c =>
      if c.id = course.id then cb.change incoming c else c := coursesOf_prepare ..
  rw [heffect]
  refine ⟨?_, ?_, ?_, ?_⟩
  · obtain ⟨q, hq, hmat⟩ := hlinked
    obtain ⟨q', hq', hm⟩ := materialId_rollUp p (r := k) hq
    refine ⟨q', hq', fun m hm' => ?_⟩
    rw [isSome_materials_rollUp]
    exact hmat m (hm ▸ hm')
  · intro k' q q' m hq hm hq' hm'
    obtain ⟨a, ha, ham⟩ := request_of_rollUp hq
    obtain ⟨b, hb, hbm⟩ := request_of_rollUp hq'
    exact honly k' a b m ha (ham.trans hm) hb (hbm.trans hm')
  · have hsame : (rollUp k p).coursesOf r = p.coursesOf r := by
      simp only [Db.coursesOf, rollUp_courses]
    rw [hsame, hcoursesOf]
    simpa using h.nonempty
  · by_cases hkr : r = k
    · rw [← hkr]
      exact agrees_rollUp hlinked
    · -- the callback belongs to another request and another material
      have hsame : p.coursesOf r = db.coursesOf r := by
        rw [hcoursesOf]
        conv_rhs => rw [← List.map_id (db.coursesOf r)]
        apply List.map_congr_left
        intro c hc
        obtain ⟨hfind, hcr⟩ := Db.mem_coursesOf.mp hc
        have hne : c.id ≠ course.id := by
          intro heq
          rw [heq, hcur] at hfind
          cases hfind
          exact hkr (hcr.symm.trans hr)
        simp [hne]
      intro hfinished
      have hcoursesEnd : (rollUp k p).coursesOf r = db.coursesOf r := by
        rw [← hsame]
        simp only [Db.coursesOf, rollUp_courses]
      have hfinished' : AllFinished db r := by
        rw [AllFinished, ← hcoursesEnd]
        exact hfinished
      obtain ⟨q, hq, howed, hmat⟩ := h.agrees hfinished'
      refine ⟨q, ?_, ?_, ?_⟩
      · rw [find_requests_rollUp_of_ne p hkr, hrequests, hq]
      · rw [hcoursesEnd]
        exact howed
      · intro m hm
        obtain ⟨mat, hfind, hstatus⟩ := hmat m hm
        refine ⟨mat, ?_, hstatus⟩
        rw [find_materials_rollUp_of_ne, hmaterials, hfind]
        intro q' hq' hm'
        rw [hrequests] at hq'
        exact hkr (h.only k q q' m hq hm hq' hm').symm

/-- The protocol of the callbacks of a tenant in which request `r` agrees with its courses. -/
def rollUpProtocol (r : RequestId) : Protocol UseCase Db Row Job Outcome where
  Inv := fun s => RollUpInv r s.db
  Guar := fun held a b => LockFrame held a.db b.db
  Local := fun _ _ _ => True
  Pre := fun _ _ _ => True
  PreCommit := fun _ _ _ => True

/-- Callbacks follow the protocol. -/
theorem rollUpProtocol_sound (orm : Orm) (r : RequestId) :
    (rollUpProtocol r).Sound (materials orm) (Machine.StartsOnly UseCase.IsWebhook) where
  starts := by
    intro s call _ hcond
    obtain ⟨cb, rfl⟩ := hcond call rfl
    refine wp_webhook (fun _ _ _ h => h) (fun _ _ _ _ _ _ => trivial) ?_
      (fun _ _ _ _ _ _ _ _ _ _ _ => trivial) (fun _ _ _ _ _ _ _ _ _ _ => trivial) ?_
    · intro t outcome v₀ v _ _ hlog _ _ _ _ _ _ hinv _
      have hdb : (v.commit t (.callback outcome) []).db = v.db := hlog v.db
      refine ⟨?_, ?_⟩
      · change RollUpInv r (v.commit t (.callback outcome) []).db
        rw [hdb]
        exact hinv
      · intro mine _
        rw [hdb]
        exact Protected.refl mine v.db
    · intro t u event incoming course seen v₀ v _ _ _ _ _ hload _ hinv hhandled _
      obtain ⟨cur, hcur, hr, _⟩ := hhandled.current (fun _ _ _ h => h) hload
      refine ⟨?_, hhandled.lockFrame (fun _ _ _ h => h) hload⟩
      have hdb : (v.commit u (.callback (.applied event)) []).db =
          cb.effect incoming course seen v.db := hhandled.effect
      change RollUpInv r (v.commit u (.callback (.applied event)) []).db
      rw [hdb]
      exact rollUpInv_effect hinv hcur hr
  pre := fun _ _ _ _ _ _ _ _ _ => trivial
  preCommit := fun _ _ _ _ _ _ _ => trivial
  stable := fun _ _ _ _ _ _ _ _ _ _ _ _ => trivial

/-- **Roll-up agreement:** start from a request whose courses are pending or being
processed and whose material has no other request, and let any callbacks interleave.
In every state in which all courses have finished, the request has the status that
it owes to its courses, and its material has the same status. -/
theorem rollUp_agrees (orm : Orm) (db : Db) (r : RequestId) (hlinked : Linked r db)
    (honly : OnlyRequest r db) (hcourses : db.coursesOf r ≠ [])
    (hopen : ∀ c ∈ db.coursesOf r, c.status = .pending ∨ c.status = .processing) (s : State)
    (hreach : (materials orm).Reaches (Machine.StartsOnly UseCase.IsWebhook) (System.idle db) s)
    (hfinished : AllFinished s.db r) :
    ∃ q, s.db.requests.find r = some q ∧ OwedStatus (s.db.coursesOf r) q.status ∧
      ∀ m, q.materialId = some m →
        ∃ mat, s.db.materials.find m = some mat ∧ mat.status = q.status := by
  have hagrees : Agrees r db := by
    intro hfinished'
    obtain ⟨c, hc⟩ := List.exists_mem_of_ne_nil _ hcourses
    rcases hopen c hc with hst | hst <;> have hf := hfinished' c hc <;> simp [hst] at hf
  have hstart : (rollUpProtocol r).Consistent (materials orm) (System.idle db) :=
    consistent_idle ⟨hlinked, honly, hcourses, hagrees⟩
  exact (consistent_of_reaches (rollUpProtocol_sound orm r) hstart hreach).inv.agrees hfinished

/-- A course without PDFs. -/
def courseRow (id : CourseRequestId) (r : RequestId) (courseId : CatalogId)
    (status : CourseMaterialStatus) : MaterialRequestCourse :=
  { id := id
    materialRequestId := r
    courseId := courseId
    status := status
    downloadUrl := none
    keyDownloadUrl := none
    solutionDownloadUrl := none
    warnings := none
    pageCount := none
    fileSizeBytes := none
    completedAt := none }

/-- A request of material `m`. -/
def requestRow (id : RequestId) (m : MaterialId) (status : MaterialRequestStatus) :
    MaterialRequest :=
  { id := id
    profileId := 1
    cycleId := 1
    weekNumber := 1
    status := status
    requiresReview := false
    materialType := "BALOTARIO"
    designTemplateId := none
    materialId := some m
    mergedDownloadUrl := none
    mergedKeyDownloadUrl := none
    mergedSolutionDownloadUrl := none
    version := 1 }

/-- The material of tenant 1, profile 1 and week 1. -/
def materialRow (m : MaterialId) (status : MaterialRequestStatus) (latest : RequestId) : Material :=
  { id := m
    tenantId := 1
    profileId := 1
    cycleId := 1
    weekNumber := 1
    status := status
    latestRequestId := some latest }

/-- A tenant with one request, whose two courses are with the worker. -/
def twoCourses : Db where
  courses := ⟨[courseRow 10 1 5 .processing, courseRow 11 1 6 .processing], by decide⟩
  requests := ⟨[requestRow 1 7 .processing], by decide⟩
  materials := ⟨[materialRow 7 .processing 1], by decide⟩
  slots := .empty
  usages := .empty
  catalog := ⟨[], [], [], [], []⟩

/-- A callback of the worker of company 1 that reports a bare status. -/
def report (id : CourseRequestId) (status : String) : Callback :=
  { statusData := { jobId := some id, status := some status }, companyId := some 1 }

/-- Both callbacks write their course before the first one locks the parent. -/
def overlappingReports : List (Event UseCase) :=
  [.start (.webhook (report 10 "completed")), .start (.webhook (report 11 "failed")),
    .exec 0, .exec 1, .exec 1, .exec 0, .exec 1, .exec 1, .exec 1,
    .exec 0, .exec 0, .exec 0, .exec 0, .exec 0, .exec 0]

/-- The state after the two overlapping callbacks. -/
def afterReports : State :=
  (materials .typeOrm).endState (System.idle twoCourses) overlappingReports

/-- Two overlapping callbacks leave the request and its material in agreement. -/
theorem rollUp_agrees_twoCourses :
    ∃ q, afterReports.db.requests.find 1 = some q ∧
      OwedStatus (afterReports.db.coursesOf 1) q.status ∧
      ∀ m, q.materialId = some m →
        ∃ mat, afterReports.db.materials.find m = some mat ∧ mat.status = q.status := by
  have hlinked : Linked 1 twoCourses :=
    ⟨requestRow 1 7 .processing, rfl, fun m hm => by cases hm; rfl⟩
  have honly : OnlyRequest 1 twoCourses := by
    intro k q q' m _ _ hk _
    have hmem := Table.mem_of_find hk
    simp only [twoCourses, List.mem_singleton] at hmem
    rw [← Db.request_id_of_find hk, hmem]
    rfl
  refine rollUp_agrees .typeOrm twoCourses 1 hlinked honly (by decide) (by decide) afterReports
    (Machine.reaches_endState (by decide +kernel) ?_) (allFinished_iff.mp (by decide +kernel))
  intro _ e he call hcall
  subst hcall
  simp only [overlappingReports, List.mem_cons, Event.start.injEq, reduceCtorEq, or_false,
    List.not_mem_nil] at he
  rcases he with rfl | rfl
  · exact ⟨_, rfl⟩
  · exact ⟨_, rfl⟩

end Odiseo.Materials
