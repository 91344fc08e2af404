import Odiseo.Database.Outline
import Odiseo.Materials.ReviewSpec
import Odiseo.Materials.RollUp

/-!
# The ledger and what was printed

A callback writes the status, the URL and the page count of its course and its ledger
rows in one transaction, so the ledger belongs to the PDF that the course carries. An
approval saves the courses as it loaded them before its version check. A callback that
commits in between does not count the version up: the approval then puts the URL and the
page count of an earlier PDF back, and leaves the ledger of the later one. Where no
approval passes its version check with such courses, status, PDF and ledger of a course
always come from one callback.
-/

namespace Odiseo.Materials

open Database Database.Protocol

/-- The records of a callback as ledger rows of a course: the first one of each question. -/
def Callback.records (cb : Callback) (course : MaterialRequestCourse) :
    List MaterialQuestionUsage :=
  (cb.usageRows course).eraseDupsBy fun a b => a.questionId == b.questionId

/-- The course carries the URL and the page count of a successful callback, and its ledger rows
are the records of this callback. -/
structure PrintedBy (cb : Callback) (c : MaterialRequestCourse) (db : Db) : Prop where
  reports : ∃ incoming, cb.Reports c.id incoming ∧ incoming.successTerminal = true
  downloadUrl : c.downloadUrl = Url.orUndefined cb.statusData.downloadUrl
  pageCount : c.pageCount = cb.artifactMeta.pageCount
  ledger : db.usagesOf c.materialRequestId c.courseId = cb.records c

/-- A callback whose ledger statements do not fail and whose success carries its usage records,
or an approval. -/
def UseCase.Prints : UseCase → Prop
  | .webhook cb => cb.ledgerFails = false ∧ ∀ jobId incoming, cb.Reports jobId incoming →
      incoming.successTerminal = true → cb.questionUsages ≠ []
  | .approve _ _ _ => True
  | _ => False

/-- No course has been printed yet. -/
def Db.Unprinted (db : Db) : Prop :=
  ∀ c ∈ db.courses.rows, c.downloadUrl = none ∧ c.status.successTerminal = false

/-- In the runs under a condition every course that has succeeded carries the PDF of a callback
whose records are its ledger. -/
def LedgerMatches (orm : Orm) (cond : State → Event UseCase → Prop) : Prop :=
  ∀ (db : Db) (s : State), db.Unprinted →
    (materials orm).Reaches (fun s e => Machine.StartsOnly UseCase.Prints s e ∧ cond s e)
      (System.idle db) s →
    ∀ c ∈ s.db.courses.rows, c.status.successTerminal = true →
      ∃ cb, .webhook cb ∈ s.commits.map (·.call) ∧ PrintedBy cb c s.db

/-- No two courses of a request are of the same catalog course. -/
def Db.DistinctCourses (db : Db) : Prop :=
  ∀ id id' c c', db.courses.find id = some c → db.courses.find id' = some c' →
    c.place = c'.place → id = id'

/-- A success carries the URL of its PDF; any other callback carries neither a URL nor a page
count. -/
def Callback.CarriesPdf (cb : Callback) : Prop :=
  ∀ jobId incoming, cb.Reports jobId incoming →
    if incoming.successTerminal then (Url.orUndefined cb.statusData.downloadUrl).isSome
    else Url.orUndefined cb.statusData.downloadUrl = none ∧ cb.artifactMeta.pageCount = none

/-- A success without a page count is committed only on a course that has no page count. -/
def CountsPages (t : Ctx) (answer : Outcome) (s : Committed) : Prop :=
  ∀ cb event jobId incoming row, t.call = .webhook cb → answer = .callback (.applied event) →
    cb.Reports jobId incoming → incoming.successTerminal = true →
    cb.artifactMeta.pageCount = none → s.db.courses.find jobId = some row → row.pageCount = none

/-- What an approval still has to run once it has loaded its request with the courses. -/
def approvalFrom (orm : Orm) (id : RequestId) (dto : ApproveReview) (ctx : MaterialReviewContext)
    (request : MaterialRequest) (courses : List MaterialRequestCourse) : Tx Outcome :=
  ((bumpVersion id dto.version).bind fun _ => approveLoaded orm id dto ctx request courses).bind
    fun r => .done (.approval r)

/-- An approval that passes its version check has loaded every PDF that it loaded as the course
still carries it: the row has the same URL and the same page count. -/
def LoadedCurrentPdfs (orm : Orm) (p : Tx Outcome) (s : Committed) : Prop :=
  ∀ id dto ctx request courses, p = approvalFrom orm id dto ctx request courses →
    versionMatches id dto.version s.db = true → ∀ c ∈ courses, c.downloadUrl.isSome →
      ∀ row, s.db.courses.find c.id = some row →
        row.downloadUrl = c.downloadUrl ∧ row.pageCount = c.pageCount

/-- The condition under which the ledger matches what was printed. -/
structure KeepsTrack (orm : Orm) (s : State) (e : Event UseCase) : Prop where
  distinct : s.db.DistinctCourses
  payload : ∀ cb, e = .start (.webhook cb) → cb.CarriesPdf
  pageCount : ∀ t ∈ s.active, ∀ answer, e = .exec t.id → t.program = .done answer →
    CountsPages t.toContext answer s.toSnapshot
  approval : ∀ t ∈ s.active, e = .exec t.id → LoadedCurrentPdfs orm t.program s.toSnapshot

/-- What a commit under the locks `held` leaves of the ledger: courses stay where they are, and
the ledger rows of a course whose row is not locked do not change. -/
structure LedgerFrame (held : List Row) (a b : Db) : Prop where
  place : ∀ id, (b.courses.find id).map (·.place) = (a.courses.find id).map (·.place)
  usages : ∀ id c, a.courses.find id = some c → .course id ∉ held →
    b.usagesOf c.materialRequestId c.courseId = a.usagesOf c.materialRequestId c.courseId

/-- Every course that has succeeded or carries a URL has been printed by a committed callback. -/
def Traced (s : Committed) : Prop :=
  ∀ id c, s.db.courses.find id = some c →
    c.status.successTerminal = true ∨ c.downloadUrl.isSome = true →
    ∃ cb, .webhook cb ∈ s.commits.map (·.call) ∧ PrintedBy cb c s.db

/-- The protocol of the ledger. Callbacks keep courses traced; approvals keep the ledger. -/
def ledgerProtocol : Protocol UseCase Db Row Job Outcome where
  Inv := fun _ => True
  Guar := fun held a b => LockFrame held a.db b.db ∧ LedgerFrame held a.db b.db ∧
    ∃ c, b.commits = a.commits ++ [c] ∧ ∀ cb, c.call = .webhook cb → Traced a → Traced b
  Local := fun _ _ _ => True
  Pre := fun _ _ _ => True
  PreCommit := fun t answer s => s.db.DistinctCourses ∧ CountsPages t answer s

/-- The outline of the ledger: an approval whose loaded PDFs are current keeps courses traced. -/
def ledgerOutline (orm : Orm) : Outline UseCase Db Row Job HttpError Outcome where
  Pre := fun _ p s => LoadedCurrentPdfs orm p s
  Throws := fun _ => True
  Post := fun t answer s => (∀ cb, t.call ≠ .webhook cb) → Traced s →
    Traced (s.commit t answer answer.jobs)

namespace LedgerFrame

variable {held : List Row} {a b c : Db}

/-- Courses and ledger are as they were. -/
theorem of_eq (hcourses : b.courses = a.courses) (husages : b.usages = a.usages) :
    LedgerFrame held a b where
  place := fun _ => by rw [hcourses]
  usages := fun _ _ _ _ => by rw [Db.usagesOf, Db.usagesOf, husages]

/-- A course keeps its place. -/
theorem find (h : LedgerFrame held a b) {id : CourseRequestId} {x : MaterialRequestCourse}
    (hx : b.courses.find id = some x) : ∃ y, a.courses.find id = some y ∧ y.place = x.place := by
  have hplace := h.place id
  rw [hx] at hplace
  exact Option.map_eq_some_iff.mp hplace.symm

end LedgerFrame

/-- While the row of a course is locked, others leave its ledger rows alone. -/
theorem usagesOf_of_after {id : CourseRequestId} {x : MaterialRequestCourse} {s v : Committed}
    (h : ledgerProtocol.After [.course id] s v) (hx : v.db.courses.find id = some x) :
    v.db.usagesOf x.materialRequestId x.courseId =
      s.db.usagesOf x.materialRequestId x.courseId := by
  induction h generalizing x with
  | refl => rfl
  | tail _ hstep ih =>
    obtain ⟨⟨held, hdisj, _, hframe, _⟩, _⟩ := hstep
    obtain ⟨y, hy, hplace⟩ := hframe.find hx
    have hfree : .course id ∉ held := fun hheld => hdisj (List.mem_singleton_self _) hheld
    have hsame := hframe.usages id y hy hfree
    have hearlier := ih hy
    obtain ⟨hr, hk⟩ := Prod.mk.inj hplace
    rw [hr, hk] at hsame hearlier
    exact hsame.trans hearlier

section Effect

variable {cb : Callback} {incoming : CourseMaterialStatus} {course : MaterialRequestCourse}
  {db : Db}

/-- A success that writes the ledger leaves its records, when it has deleted all rows of its
course. -/
theorem usagesOf_effect_self (hwrites : cb.writesLedger incoming = true) :
    (cb.effect incoming course (db.usagesOf course.materialRequestId course.courseId) db).usagesOf
      course.materialRequestId course.courseId = cb.records course := by
  have hrows : ∀ u ∈ cb.usageRows course, u.materialRequestId = course.materialRequestId ∧
      u.courseId = course.courseId := by
    intro u hu
    obtain ⟨usage, _, rfl⟩ := List.mem_map.mp hu
    exact ⟨rfl, rfl⟩
  set place : MaterialQuestionUsage → Bool := fun u =>
    u.materialRequestId = course.materialRequestId ∧ u.courseId = course.courseId with hplace
  set cleared := db.usages.delete fun u =>
    u ∈ db.usagesOf course.materialRequestId course.courseId with hcleared
  have hledger : (cb.effect incoming course
      (db.usagesOf course.materialRequestId course.courseId) db).usages =
        (cb.usageRows course).foldl Table.insert cleared := by
    simp only [Callback.effect, rollUp_usages, Callback.prepare, Callback.ledger, if_pos hwrites]
    rfl
  have hempty : cleared.filter place = [] := by
    refine Table.filter_delete_of_all _ _ _ fun u hu hin => ?_
    exact decide_eq_true (List.mem_filter.mpr ⟨hu, hin⟩)
  rw [Db.usagesOf, hledger, Table.filter_insertAll _ _ _ fun a b => a.questionId == b.questionId,
    ← hplace, hempty, List.nil_append, List.filter_eq_self.mpr]
  · rfl
  · intro u hu
    rw [Option.isNone_iff_eq_none, Table.find_eq_none]
    intro x hx hkey
    -- a row with this key is one of those that were deleted
    have hin : place x = true := by
      obtain ⟨hr, hk, _⟩ := UsageKey.mk.inj hkey
      exact decide_eq_true ⟨hr.trans (hrows u hu).1, hk.trans (hrows u hu).2⟩
    have hmem : x ∈ cleared.filter place := List.mem_filter.mpr ⟨hx, hin⟩
    rw [hempty] at hmem
    cases hmem
  · exact fun u hu => decide_eq_true (hrows u hu)
  · intro a ha b hb
    have hkeys : key a = key b ↔ a.questionId = b.questionId := by
      constructor
      · intro h
        exact (UsageKey.mk.inj h).2.2
      · intro h
        simp [key, hrows a ha, hrows b hb, h]
    exact decide_eq_decide.mpr hkeys.symm

/-- A success of the claim writes the ledger. -/
theorem writesLedger_of_prints (hprints : (UseCase.webhook cb).Prints) {jobId : CourseRequestId}
    (hreports : cb.Reports jobId incoming) (hsuccess : incoming.successTerminal = true) :
    cb.writesLedger incoming = true := by
  have husages := hprints.2 jobId incoming hreports hsuccess
  simp [Callback.writesLedger, hprints.1, hsuccess, husages]

/-- A course that has been printed stays so while its row and its ledger rows stay. -/
theorem PrintedBy.congr {cb : Callback} {c c' : MaterialRequestCourse} {a b : Db}
    (h : PrintedBy cb c a) (hid : c'.id = c.id) (hplace : c'.place = c.place)
    (hurl : c'.downloadUrl = c.downloadUrl) (hpages : c'.pageCount = c.pageCount)
    (hledger : b.usagesOf c.materialRequestId c.courseId =
      a.usagesOf c.materialRequestId c.courseId) : PrintedBy cb c' b := by
  obtain ⟨hr, hk⟩ := Prod.mk.inj hplace
  have hrecords : cb.records c' = cb.records c := by
    simp only [Callback.records, Callback.usageRows, hr, hk]
  refine ⟨?_, hurl.trans h.downloadUrl, hpages.trans h.pageCount, ?_⟩
  · rw [hid]
    exact h.reports
  · rw [hr, hk, hledger, h.ledger, hrecords]

/-- **Step lemma for callbacks:** a callback of the claim that carries its PDF keeps courses
traced. -/
theorem traced_effect {cur : MaterialRequestCourse} {seen : List MaterialQuestionUsage}
    {a b : Committed} (ha : Traced a) (hdb : b.db = cb.effect incoming course seen a.db)
    (hcommits : a.commits ⊆ b.commits) (hcommitted : .webhook cb ∈ b.commits.map (·.call))
    (hreports : cb.Reports course.id incoming) (hprints : (UseCase.webhook cb).Prints)
    (hpdf : cb.CarriesPdf) (hdistinct : a.db.DistinctCourses)
    (hcur : a.db.courses.find course.id = some cur) (hplace : cur.place = course.place)
    (hpages : incoming.successTerminal = true → cb.artifactMeta.pageCount = none →
      cur.pageCount = none)
    (hdeleted : ∀ x ∈ seen, x.materialRequestId = course.materialRequestId ∧
      x.courseId = course.courseId)
    (hseen : cb.writesLedger incoming = true →
      seen = a.db.usagesOf course.materialRequestId course.courseId) : Traced b := by
  obtain ⟨hr, hk⟩ := Prod.mk.inj hplace
  have hsub : a.commits.map (·.call) ⊆ b.commits.map (·.call) := List.map_subset _ hcommits
  have hkept : ∀ r k, (cb.writesLedger incoming = true →
      ¬(r = course.materialRequestId ∧ k = course.courseId)) →
      b.db.usagesOf r k = a.db.usagesOf r k := by
    intro r k hother
    rw [hdb]
    exact usagesOf_effect cb incoming course seen a.db r k hdeleted hother
  intro id c hc hprinted
  rw [hdb, find_courses_effect] at hc
  split at hc
  · rename_i hid
    subst hid
    rw [hcur] at hc
    obtain rfl := Option.some.inj hc
    have hpayload := hpdf course.id incoming hreports
    cases hsuccess : incoming.successTerminal with
    | true =>
      -- the course is printed by this callback
      have hwrites := writesLedger_of_prints hprints hreports hsuccess
      rw [hsuccess, if_pos rfl] at hpayload
      obtain ⟨url, hurl⟩ := Option.isSome_iff_exists.mp hpayload
      refine ⟨cb, hcommitted, ⟨incoming, ?_, hsuccess⟩, ?_, ?_, ?_⟩
      · rw [Callback.change, Db.course_id_of_find hcur]
        exact hreports
      · simp [Callback.change, hurl]
      · cases hcount : cb.artifactMeta.pageCount with
        | none => simp [Callback.change, hcount, hpages hsuccess hcount]
        | some n => simp [Callback.change, hcount]
      · have hrecords : cb.records (cb.change incoming cur) = cb.records course := by
          simp only [Callback.records, Callback.usageRows, change_materialRequestId,
            change_courseId, hr, hk]
        rw [change_materialRequestId, change_courseId, hr, hk, hrecords, hdb, hseen hwrites]
        exact usagesOf_effect_self hwrites
    | false =>
      -- the course keeps the PDF and the ledger that it has
      rw [hsuccess, if_neg (by simp)] at hpayload
      have hwrites : cb.writesLedger incoming = false := by
        simp [Callback.writesLedger, hsuccess]
      have hurl : (cb.change incoming cur).downloadUrl = cur.downloadUrl := by
        simp [Callback.change, hpayload.1]
      rw [change_status, hsuccess, hurl] at hprinted
      obtain ⟨cb', hcb', hby⟩ := ha course.id cur hcur (.inr (hprinted.resolve_left (by simp)))
      refine ⟨cb', hsub hcb', hby.congr rfl rfl hurl ?_ (hkept _ _ ?_)⟩
      · simp [Callback.change, hpayload.2]
      · simp [hwrites]
  · rename_i hne
    obtain ⟨cb', hcb', hby⟩ := ha id c hc hprinted
    refine ⟨cb', hsub hcb', hby.congr rfl rfl rfl rfl (hkept _ _ fun _ hsame => hne ?_)⟩
    refine hdistinct id course.id c cur hc hcur ?_
    rw [hplace, MaterialRequestCourse.place, MaterialRequestCourse.place, hsame.1, hsame.2]

/-- A callback keeps the frame of the ledger under the lock of its course. -/
theorem ledgerFrame_effect {cur : MaterialRequestCourse} {seen : List MaterialQuestionUsage}
    {held : List Row} (hcur : db.courses.find course.id = some cur)
    (hplace : cur.place = course.place) (hheld : .course course.id ∈ held)
    (hdistinct : db.DistinctCourses)
    (hdeleted : ∀ x ∈ seen, x.materialRequestId = course.materialRequestId ∧
      x.courseId = course.courseId) :
    LedgerFrame held db (cb.effect incoming course seen db) := by
  refine ⟨fun id => ?_, fun id c hc hfree => ?_⟩
  · rw [find_courses_effect]
    split
    · rw [Option.map_map]
      rfl
    · rfl
  · refine usagesOf_effect cb incoming course seen db _ _ hdeleted fun _ hsame => ?_
    have hid : id = course.id := by
      refine hdistinct id course.id c cur hc hcur ?_
      rw [hplace, MaterialRequestCourse.place, MaterialRequestCourse.place, hsame.1, hsame.2]
    exact hfree (hid ▸ hheld)

end Effect

section Approval

variable {orm : Orm} {id : RequestId} {dto : ApproveReview} {q : MaterialRequest}
  {courses : List MaterialRequestCourse} {result : ApprovalResult} {a : Approval} {db : Db}

/-- The status updates of an approval leave a course, up to its status. -/
theorem find_courses_updates (updates : List (List CourseRequestId × CourseMaterialStatus))
    (k : CourseRequestId) (db : Db) : ∃ status : MaterialRequestCourse → CourseMaterialStatus,
      (updates.foldl (fun db p => setCourseStatuses p.1 p.2 db) db).courses.find k =
        (db.courses.find k).map fun c => { c with status := status c } := by
  induction updates generalizing db with
  | nil => exact ⟨fun c => c.status, by simp⟩
  | cons p ps ih =>
    obtain ⟨status, h⟩ := ih (setCourseStatuses p.1 p.2 db)
    rw [List.foldl_cons, h, find_courses_setCourseStatuses]
    split
    · exact ⟨fun c => status { c with status := p.2 }, by simp [Option.map_map, Function.comp_def]⟩
    · exact ⟨status, rfl⟩

/-- An approval creates and deletes no course, and moves none. -/
theorem place_approveIn (k : CourseRequestId) :
    ((approveIn id dto a db).courses.find k).map (·.place) =
      (db.courses.find k).map (·.place) := by
  obtain ⟨status, h⟩ := find_courses_updates a.updates k
    (materialStatusIn a.entity a.entity.status
      (saveIn a.entity a.reread a.version a.rows (editSlots id dto (bumpIn id db))))
  have hsaved := place_saveCourses a.rows k
    (saveRequestIn a.entity a.reread a.version (editSlots id dto (bumpIn id db)))
  rw [saveRequestIn_courses, editSlots_courses, bumpIn_courses] at hsaved
  rw [approveIn, finishIn, h, Option.map_map, materialStatusIn_courses, saveIn, ← hsaved]
  rfl

/-- An approval keeps the frame of the ledger under any locks. -/
theorem ledgerFrame_approveIn {held : List Row} :
    LedgerFrame held db (approveIn id dto a db) := by
  refine ⟨fun k => place_approveIn k, fun k c _ _ => ?_⟩
  simp only [Db.usagesOf, approveIn, finishIn_usages, editSlots_usages]
  rfl

/-- A course of an approval carries afterwards what the approval has loaded, and it has
succeeded only when all courses have their PDFs. -/
theorem find_courses_approveIn (h : Approves orm id dto q courses result a db)
    (hknown : a.Current id courses db) (hnodup : (courses.map (·.id)).Nodup)
    {c row : MaterialRequestCourse} (hc : c ∈ courses) (hrow : db.courses.find c.id = some row) :
    ∃ status, (approveIn id dto a db).courses.find c.id =
        some { saveCourseColumns c row row with status := status } ∧
      (status.successTerminal = true → alreadyGenerated courses = true) := by
  have hfst : a.rows.map Prod.fst = courses := h.rows
  have hmem : (c, some row) ∈ a.rows := by
    rw [hknown.rows, ← hrow]
    exact List.mem_map_of_mem (f := fun c => (c, db.courses.find c.id)) hc
  have hsaved : (saveIn a.entity a.reread a.version a.rows
      (editSlots id dto (bumpIn id db))).courses.find c.id = some (saveCourseColumns c row row) := by
    rw [saveIn, find_courses_saveCourses (by rwa [hfst]) hmem, saveRequestIn_courses,
      editSlots_courses, bumpIn_courses, hrow]
    rfl
  obtain ⟨status, hstatus⟩ := find_courses_updates a.updates c.id
    (materialStatusIn a.entity a.entity.status
      (saveIn a.entity a.reread a.version a.rows (editSlots id dto (bumpIn id db))))
  rw [materialStatusIn_courses, hsaved, Option.map_some] at hstatus
  refine ⟨_, hstatus, fun hsuccess => ?_⟩
  by_contra hmissing
  have hprocessing : status (saveCourseColumns c row row) = .processing :=
    status_of_approveIn h (k := c.id) ?_ (List.mem_map_of_mem hc) hstatus
  · rw [hprocessing] at hsuccess
    cases hsuccess
  · -- the approval has dispatched a job for the course
    have hdecides := h.decides
    generalize a.entity = entity at hdecides
    generalize a.updates = updates at hdecides
    cases hdecides with
    | bypass _ hgenerated _ _ => exact absurd hgenerated hmissing
    | regenerate jobs _ hjobs =>
      rintro rfl
      cases hjobs
      cases hc

/-- **Step lemma for approvals:** an approval whose loaded PDFs are current keeps courses
traced. -/
theorem traced_approveIn {s v : Committed} (hs : Traced s) (hdb : v.db = approveIn id dto a s.db)
    (hcommits : s.commits ⊆ v.commits) (h : Approves orm id dto q courses result a s.db)
    (hknown : a.Current id courses s.db) (hnodup : (courses.map (·.id)).Nodup)
    (hpdfs : ∀ c ∈ courses, c.downloadUrl.isSome → ∀ row, s.db.courses.find c.id = some row →
      row.downloadUrl = c.downloadUrl ∧ row.pageCount = c.pageCount) : Traced v := by
  have hsub : s.commits.map (·.call) ⊆ v.commits.map (·.call) := List.map_subset _ hcommits
  have hkept : ∀ r k, v.db.usagesOf r k = s.db.usagesOf r k := by
    intro r k
    rw [hdb]
    simp only [Db.usagesOf, approveIn, finishIn_usages, editSlots_usages]
    rfl
  intro k row' hrow' hprinted
  by_cases hk : k ∈ courses.map (·.id)
  · obtain ⟨c, hc, rfl⟩ := List.mem_map.mp hk
    have hframe : LedgerFrame [] s.db v.db := by
      rw [hdb]
      exact ledgerFrame_approveIn
    obtain ⟨row, hrow, hplace⟩ := hframe.find hrow'
    obtain ⟨status, hfound, hgenerated⟩ := find_courses_approveIn h hknown hnodup hc hrow
    rw [← hdb, hrow'] at hfound
    obtain rfl := Option.some.inj hfound
    have hloaded : c.downloadUrl.isSome = true := by
      rcases hprinted with hsuccess | hurl
      · have hall := List.all_eq_true.mp (hgenerated hsuccess) c hc
        simp only [Bool.and_eq_true] at hall
        exact hall.1.1
      · simpa [saveCourseColumns, saved_current] using hurl
    obtain ⟨hurl, hpages⟩ := hpdfs c hc hloaded row hrow
    obtain ⟨cb, hcb, hby⟩ := hs c.id row hrow (.inr (hurl ▸ hloaded))
    refine ⟨cb, hsub hcb, hby.congr rfl rfl ?_ ?_ (hkept _ _)⟩
    · simp [saveCourseColumns, saved_current, hurl]
    · simp [saveCourseColumns, saved_current, hpages]
  · rw [hdb, find_courses_approveIn_of_not_mem h hk] at hrow'
    obtain ⟨cb, hcb, hby⟩ := hs k row' hrow' hprinted
    exact ⟨cb, hsub hcb, hby.congr rfl rfl rfl rfl (hkept _ _)⟩

end Approval

/-- A callback of the claim that carries its PDF follows the protocol. -/
theorem wp_printingCallback {orm : Orm} {cb : Callback} {id since : ℕ} {s : Committed}
    (hprints : (UseCase.webhook cb).Prints) (hpdf : cb.CarriesPdf) :
    ledgerProtocol.Wp (ledgerProtocol.Commits (materials orm))
      ((materials orm).program (.webhook cb)) (Context.opened id (.webhook cb) since) s := by
  have hguar : ∀ held a b, ledgerProtocol.Guar held a b → LockFrame held a.db b.db :=
    fun _ _ _ h => h.1
  refine wp_webhook hguar (fun _ _ _ _ _ _ => trivial) ?_ (fun _ _ _ _ _ _ _ _ _ _ _ => trivial)
    (fun _ _ _ _ _ _ _ _ _ _ => trivial) ?_
  · intro t outcome v₀ v _ _ hlog _ _ _ _ _ _ _ _
    have hdb : (v.commit t (.callback outcome) []).db = v.db := hlog v.db
    refine ⟨trivial, .of_eq ?_ ?_ ?_, .of_eq ?_ ?_, _, rfl, fun _ _ htraced => ?_⟩
    · rw [hdb]
    · rw [hdb]
    · rw [hdb]
    · rw [hdb]
    · rw [hdb]
    · intro k c hc hprinted
      rw [hdb] at hc
      obtain ⟨cb', hcb', hby⟩ := htraced k c hc hprinted
      refine ⟨cb', ?_, by rwa [hdb]⟩
      rw [Snapshot.commit_commits, List.map_append]
      exact List.mem_append_left _ hcb'
  · intro t u event incoming course seen v₀ v hcall _ hreports _ _ hload _ _ hhandled hpre
    obtain ⟨cur, hcur, hr, hk⟩ := hhandled.current hguar hload
    have hplace : cur.place = course.place := by
      rw [MaterialRequestCourse.place, MaterialRequestCourse.place, hr, hk]
    have hucall : u.call = .webhook cb := hhandled.call.trans hcall
    have hdb : (v.commit u (.callback (.applied event)) []).db =
        cb.effect incoming course seen v.db := hhandled.effect
    refine ⟨trivial, hhandled.lockFrame hguar hload, ?_, _, rfl, fun cb' hcb' htraced => ?_⟩
    · rw [hdb]
      exact ledgerFrame_effect hcur hplace hhandled.courseHeld hpre.1 hhandled.deleted
    · refine traced_effect htraced hdb (List.subset_append_left _ _) ?_ hreports hprints hpdf
        hpre.1 hcur hplace ?_ hhandled.deleted fun hwrites => ?_
      · rw [Snapshot.commit_commits, List.map_append]
        exact List.mem_append_right _ (by simp [hucall])
      · intro hsuccess hcount
        exact hpre.2 cb event course.id incoming cur hucall rfl hreports hsuccess hcount hcur
      · -- the ledger rows were deleted under the lock of the course
        obtain ⟨w, hafter, hseen⟩ := hhandled.ledger hwrites
        have hsame := usagesOf_of_after hafter hcur
        rw [hr, hk] at hsame
        rw [hseen, hsame]

/-- An approval follows the protocol. -/
theorem wp_printingApproval {orm : Orm} {r : RequestId} {dto : ApproveReview}
    {ctx : MaterialReviewContext} {id since : ℕ} {s : Committed} :
    ledgerProtocol.Wp (ledgerProtocol.Commits (materials orm))
      ((materials orm).program (.approve r dto ctx)) (Context.opened id (.approve r dto ctx) since)
      s := by
  refine wp_approveCall (fun _ _ _ h => h.1) (fun _ _ _ _ _ => trivial) ?_
  intro t u q result a v₀ v₁ v hcall _ _ _ _ _ _ hreviewed _
  have hdb : (v.commit u (.approval result) result.jobsToDispatch).db = approveIn r dto a v.db :=
    hreviewed.log v.db
  refine ⟨trivial, hreviewed.lockFrame, ?_, _, rfl, fun cb hcb => ?_⟩
  · rw [hdb]
    exact ledgerFrame_approveIn
  · rw [hreviewed.call, hcall] at hcb
    cases hcb

/-- Callbacks and approvals follow the protocol of the ledger. -/
theorem ledgerProtocol_sound (orm : Orm) : ledgerProtocol.Sound (materials orm)
    (fun s e => Machine.StartsOnly UseCase.Prints s e ∧ KeepsTrack orm s e) where
  starts := by
    intro s call _ hcond
    have hprints := hcond.1 call rfl
    cases call with
    | webhook cb => exact wp_printingCallback hprints (hcond.2.payload cb rfl)
    | approve r dto ctx => exact wp_printingApproval
    | review r => exact hprints.elim
    | saveDraft r dto => exact hprints.elim
    | generate g => exact hprints.elim
  pre := fun _ _ _ _ _ _ _ _ _ => trivial
  preCommit := fun s t a _ ht hp hcond => ⟨hcond.2.distinct, hcond.2.pageCount t ht a rfl hp⟩
  stable := fun _ _ _ _ _ _ _ _ _ _ _ _ => trivial

/-- An approval follows the outline: from its version check on the lock of the request keeps the
PDFs of its courses as the condition has found them. -/
theorem follows_approve {orm : Orm} {id : RequestId} {dto : ApproveReview}
    {ctx : MaterialReviewContext} {t : Ctx} {s : Committed}
    (hlog : ∀ db, t.log db = db) (hheld : t.held = []) (hout : t.out = []) :
    (ledgerOutline orm).Follows ledgerProtocol
      ((approve orm id dto ctx).bind fun r => .done (.approval r)) t s := by
  have hguar : ∀ held a b, ledgerProtocol.Guar held a b → LockFrame held a.db b.db :=
    fun _ _ _ h => h.1
  have hview : ∀ v : Committed, t.view v = v.db := fun v => hlog v.db
  unfold approve findRequest
  rw [Program.bind_eq, Program.bind_assoc]
  refine Outline.follows_select fun v₀ _ _ _ => ?_
  rw [hview]
  cases hfind : v₀.db.requests.find id with
  | none => exact trivial
  | some q =>
    intro v₁ hafter₁ hinv₁ hpre₁
    rw [hheld] at hafter₁
    rw [hview]
    cases hmatch : versionMatches id dto.version v₁.db with
    | false =>
      simp only [hmatch, Bool.false_eq_true, if_false]
      exact trivial
    | true =>
      have hpdfs := hpre₁ id dto ctx q (v₀.db.coursesOf id) rfl hmatch
      simp only [hmatch, if_true, Program.pure_eq_done, Program.done_bind]
      have hbump : ∀ db, (t.wrote [.request id] (bumpIn id)).log db = bumpIn id db := by
        intro db
        rw [Context.wrote_log, hlog]
      refine Outline.follows_bind_of_wp (fun _ _ _ => trivial) (fun _ _ _ => trivial)
        (fun _ => trivial) (wp_approveLoaded hguar (fun _ _ _ _ _ => trivial)
          (t.extends_wrote [.request id] (bumpIn id)) hbump hout (by simp) ?_ hfind hafter₁ hinv₁
          hmatch ?_)
      · intro db howns
        rw [hbump]
        exact howns.keeps (.updateRequest (by simp) fun _ => rfl)
      · intro u result a v _ happroves hknown hreviewed v' hafter _ _ htraced
        obtain ⟨happroves, hknown, hreviewed⟩ := hreviewed.approves_mono hguar
          (Db.request_id_of_find hfind) happroves hknown hafter
        have hnodup : ((v₀.db.coursesOf id).map (·.id)).Nodup :=
          v₀.db.courses.nodup.sublist (List.filter_sublist.map _)
        refine traced_approveIn htraced (hreviewed.log v'.db) (List.subset_append_left _ _)
          happroves hknown hnodup fun c hc hurl row hrow => ?_
        -- the lock of the request has kept the row since the version check
        have hcourses := (protected_of_after hguar hreviewed.locked).courses id (by simp)
        have hsame := find_of_coursesOf hreviewed.owns (List.mem_map_of_mem hc) hcourses.symm
        refine hpdfs c hc hurl row ?_
        rw [hsame, hrow]

/-- Callbacks and approvals follow the outline of the ledger. -/
theorem ledgerOutline_sound (orm : Orm) : (ledgerOutline orm).Sound ledgerProtocol (materials orm)
    (fun s e => Machine.StartsOnly UseCase.Prints s e ∧ KeepsTrack orm s e) where
  starts := by
    intro s call _ hcond
    have hprints := hcond.1 call rfl
    cases call with
    | webhook cb =>
      exact Outline.follows_of_post (fun _ => trivial) fun u a v hcall hother =>
        absurd hcall (hother cb)
    | approve id dto ctx => exact follows_approve (fun _ => rfl) rfl rfl
    | review id => exact hprints.elim
    | saveDraft id dto => exact hprints.elim
    | generate g => exact hprints.elim
  pre := fun s t _ ht hcond => hcond.2.approval t ht rfl

/-- What holds in every state of a run under the condition. -/
structure Tracked (orm : Orm) (s : State) : Prop where
  outlined : (ledgerOutline orm).Outlined ledgerProtocol (materials orm) s
  calls : ∀ t ∈ s.active, t.call.Prints
  traced : Traced s.toSnapshot

/-- **Step lemma:** a step under the condition keeps every printed course traced. -/
theorem tracked_of_step {orm : Orm} {s s' : State} {e : Event UseCase} (h : Tracked orm s)
    (hcond : Machine.StartsOnly UseCase.Prints s e ∧ KeepsTrack orm s e)
    (hstep : (materials orm).step s e = some s') : Tracked orm s' := by
  have houtlined := Outline.outlined_of_step (ledgerProtocol_sound orm) (ledgerOutline_sound orm)
    h.outlined hcond hstep
  refine ⟨houtlined, Machine.active_of_step h.calls hcond.1 hstep, ?_⟩
  cases Machine.moves_of_step hstep with
  | start call => exact h.traced
  | commit t a ht hp =>
    have hprints := h.calls t ht
    cases hcall : t.call with
    | webhook cb =>
      obtain ⟨_, _, _, c, hcommits, hkeeps⟩ :=
        commit_of_consistent (ledgerProtocol_sound orm) h.outlined.consistent ht hp hcond
      refine hkeeps cb ?_ h.traced
      rw [Snapshot.commit_commits, List.append_cancel_left_eq, List.cons.injEq] at hcommits
      rw [← hcommits.1, hcall]
    | approve id dto ctx =>
      refine h.outlined.post ht hp (fun cb hcb => ?_) h.traced
      rw [hcall] at hcb
      cases hcb
    | review id =>
      rw [hcall] at hprints
      exact hprints.elim
    | saveDraft id dto =>
      rw [hcall] at hprints
      exact hprints.elim
    | generate g =>
      rw [hcall] at hprints
      exact hprints.elim
  | statement t locks write next ht hp hfree => exact h.traced
  | enqueue t job next ht hp => exact h.traced
  | rollback _ t ht => exact h.traced

/-- **The ledger matches what was printed** in every run in which approvals have loaded the PDFs
that their courses carry when they pass the version check. -/
theorem ledgerMatches_of_keepsTrack (orm : Orm) : LedgerMatches orm (KeepsTrack orm) := by
  intro db s hdb hreach
  have hs : Tracked orm s := by
    induction hreach with
    | refl =>
      refine ⟨Outline.outlined_idle trivial, fun _ ht => (nomatch ht), fun id c hc hprinted => ?_⟩
      obtain ⟨hurl, hstatus⟩ := hdb c (Table.mem_of_find hc)
      rcases hprinted with hsuccess | hsome
      · rw [hstatus] at hsuccess
        cases hsuccess
      · rw [hurl] at hsome
        cases hsome
    | tail _ hstep ih =>
      obtain ⟨e, hcond, hs⟩ := hstep
      exact tracked_of_step ih hcond hs
  intro c hc hsuccess
  exact hs.traced c.id c (Table.find_of_mem hc) (.inl hsuccess)

/-- The worker's report of the PDFs of a course of request 1, with their page count and the
question that is printed in them. -/
def printedReport (id : CourseRequestId) (courseId : CatalogId) (pages : ℕ)
    (question : QuestionId) : Callback :=
  let url (variant : Variant) : Option Url := some (.object ⟨1, 1, 1, "Material", 1, courseId, variant⟩)
  { statusData :=
      { jobId := some id
        status := some "completed"
        downloadUrl := url .student
        keyDownloadUrl := url .keys
        solutionDownloadUrl := url .solutions }
    questionUsages := [⟨1, question, 2, 3, 1, false⟩]
    artifactMeta := { pageCount := some pages }
    companyId := some 1 }

/-- An approval at a version, with or without a replacement. -/
def approvalAt (version : ℕ) (replacements : List ReplacementItem) : UseCase :=
  .approve 1 ⟨version, true, replacements, []⟩ ⟨1, 1⟩

/-- Both courses are printed; then an approval replaces a question and sends them to the worker
again. -/
def reprintRequested : List (Event UseCase) :=
  .start (.webhook (printedReport 10 5 4 100)) :: List.replicate 7 (.exec 0) ++
    .start (.webhook (printedReport 11 6 4 200)) :: List.replicate 12 (.exec 1) ++
    .start (approvalAt 2 [⟨1, 101⟩]) :: List.replicate 14 (.exec 2)

/-- A second approval loads the courses; the worker's report of the new PDF of the first course
commits; then the approval passes its version check and keeps the existing PDFs. -/
def overtakenBypass : List (Event UseCase) :=
  .start (approvalAt 4 []) :: .exec 3 :: .start (.webhook (printedReport 10 5 5 101)) ::
    List.replicate 7 (.exec 4) ++ List.replicate 9 (.exec 3)

/-- The state after the second approval. -/
def bypassedState : State :=
  (materials .typeOrm).endState (System.idle twoCourses) (reprintRequested ++ overtakenBypass)

/-- The ledger can be that of a PDF which the course does not carry: an approval without changes
that has loaded the first PDF completes the course after the second one has been recorded. -/
theorem not_ledgerMatches : ¬LedgerMatches .typeOrm (fun _ _ => True) := by
  intro h
  have hreach : (materials .typeOrm).Reaches
      (fun s e => Machine.StartsOnly UseCase.Prints s e ∧ True) (System.idle twoCourses)
      bypassedState := by
    refine Machine.reaches_endState (by decide +kernel) fun s e he => ⟨?_, trivial⟩
    rintro call rfl
    have hprinted : ∀ id courseId pages question,
        (UseCase.webhook (printedReport id courseId pages question)).Prints :=
      fun _ _ _ _ => ⟨rfl, fun _ _ _ _ => by simp [printedReport]⟩
    simp only [reprintRequested, overtakenBypass, List.mem_append, List.mem_cons,
      List.mem_replicate, Event.start.injEq, reduceCtorEq, and_false, or_false, false_or] at he
    rcases he with ((rfl | rfl) | rfl) | rfl | rfl
    · exact hprinted 10 5 4 100
    · exact hprinted 11 6 4 200
    · exact trivial
    · exact trivial
    · exact hprinted 10 5 5 101
  have hdb : twoCourses.Unprinted := by
    intro c hc
    simp only [twoCourses, List.mem_cons, List.not_mem_nil, or_false] at hc
    rcases hc with rfl | rfl
    · exact ⟨rfl, rfl⟩
    · exact ⟨rfl, rfl⟩
  have hrow : (bypassedState.db.courses.find 10).map (fun c => (c.status, c.pageCount, c.place)) =
      some (.completed, some 4, (1, 5)) := by decide +kernel
  have hcalls : bypassedState.commits.map (·.call) =
      [.webhook (printedReport 10 5 4 100), .webhook (printedReport 11 6 4 200),
        approvalAt 2 [⟨1, 101⟩], .webhook (printedReport 10 5 5 101), approvalAt 4 []] := by
    decide +kernel
  have hledger : (bypassedState.db.usagesOf 1 5).map (·.questionId) = [101] := by decide +kernel
  obtain ⟨c, hc, hcolumns⟩ := Option.map_eq_some_iff.mp hrow
  simp only [MaterialRequestCourse.place, Prod.mk.injEq] at hcolumns
  obtain ⟨hstatus, hpages, hr, hk⟩ := hcolumns
  obtain ⟨cb, hcb, hby⟩ := h twoCourses bypassedState hdb hreach c (Table.mem_of_find hc)
    (by rw [hstatus]; rfl)
  have hrecords : (cb.records c).map (·.questionId) = [101] := by
    rw [← hby.ledger, hr, hk]
    exact hledger
  have hcount : cb.artifactMeta.pageCount = some 4 := by rw [← hby.pageCount, hpages]
  -- question 101 is the record of the last report, which counts other pages
  rw [hcalls] at hcb
  simp only [approvalAt, List.mem_cons, UseCase.webhook.injEq, reduceCtorEq, List.not_mem_nil,
    or_false, false_or] at hcb
  rcases hcb with rfl | rfl | rfl
  · cases hrecords
  · cases hrecords
  · cases hcount

end Odiseo.Materials
