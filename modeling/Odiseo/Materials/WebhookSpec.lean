import Odiseo.Database.Protocol
import Odiseo.Materials.Machine

/-!
# Callbacks act at their commit

Between the guard and the commit of a callback other transactions commit. Because
the parent row is locked before the siblings are read, the transaction has the
same effect as if it ran alone on the committed state at its commit. Only the
guard is older: it was evaluated when the course was loaded.
-/

namespace Odiseo.Materials

open Database Database.Protocol

/-- The ledger write of a callback, when `seen` are the rows that it deletes. -/
def Callback.ledger (cb : Callback) (incoming : CourseMaterialStatus)
    (course : MaterialRequestCourse) (seen : List MaterialQuestionUsage) (db : Db) : Db :=
  if cb.writesLedger incoming then insertUsages (cb.usageRows course) (deleteUsages seen db)
  else db

/-- What a callback writes before the roll-up. -/
def Callback.prepare (cb : Callback) (incoming : CourseMaterialStatus)
    (course : MaterialRequestCourse) (seen : List MaterialQuestionUsage) (db : Db) : Db :=
  cb.ledger incoming course seen (cb.writeCourse incoming course.id db)

/-- The roll-up of a request: once every course has finished, the request and its
material take the final status. -/
def rollUp (r : RequestId) (db : Db) : Db :=
  if allFinished (db.coursesOf r) then
    match (db.requests.find r).bind MaterialRequest.materialId with
    | none => setRequestStatus r (finalStatus (db.coursesOf r)) db
    | some m =>
      setMaterialStatus m (finalStatus (db.coursesOf r))
        (setRequestStatus r (finalStatus (db.coursesOf r)) db)
  else db

/-- The whole effect of a callback that passed the guard. -/
def Callback.effect (cb : Callback) (incoming : CourseMaterialStatus)
    (course : MaterialRequestCourse) (seen : List MaterialQuestionUsage) (db : Db) : Db :=
  rollUp course.materialRequestId (cb.prepare incoming course seen db)

/-- The merge job of a roll-up, on the database before the roll-up. -/
def Callback.mergeJobs (cb : Callback) (r : RequestId) (db : Db) : List Job :=
  if allFinished (db.coursesOf r) && mergesParent (db.requests.find r) (db.coursesOf r) &&
      (db.requests.find r).isSome then
    (cb.companyId.map (Job.mergePdf r)).toList
  else []

/-- A roll-up dispatches nothing but the merge of its request. -/
theorem of_mem_mergeJobs {cb : Callback} {r : RequestId} {db : Db} {job : Job}
    (hjob : job ∈ cb.mergeJobs r db) : ∃ tenantId, job = .mergePdf r tenantId := by
  unfold Callback.mergeJobs at hjob
  split at hjob
  · obtain ⟨tenantId, -, rfl⟩ := Option.map_eq_some_iff.mp (Option.mem_toList.mp hjob)
    exact ⟨tenantId, rfl⟩
  · cases hjob

section Effect

variable (cb : Callback) (incoming : CourseMaterialStatus) (course : MaterialRequestCourse)
  (seen : List MaterialQuestionUsage) (db : Db)

@[simp] theorem change_materialRequestId (c : MaterialRequestCourse) :
    (cb.change incoming c).materialRequestId = c.materialRequestId := rfl

@[simp] theorem change_courseId (c : MaterialRequestCourse) :
    (cb.change incoming c).courseId = c.courseId := rfl

@[simp] theorem change_status (c : MaterialRequestCourse) :
    (cb.change incoming c).status = incoming := rfl

@[simp] theorem ledger_courses : (cb.ledger incoming course seen db).courses = db.courses := by
  unfold Callback.ledger
  split <;> rfl

@[simp] theorem ledger_requests : (cb.ledger incoming course seen db).requests = db.requests := by
  unfold Callback.ledger
  split <;> rfl

@[simp] theorem ledger_materials :
    (cb.ledger incoming course seen db).materials = db.materials := by
  unfold Callback.ledger
  split <;> rfl

@[simp] theorem ledger_slots : (cb.ledger incoming course seen db).slots = db.slots := by
  unfold Callback.ledger
  split <;> rfl

@[simp] theorem prepare_courses : (cb.prepare incoming course seen db).courses =
    (cb.writeCourse incoming course.id db).courses :=
  ledger_courses ..

@[simp] theorem prepare_requests :
    (cb.prepare incoming course seen db).requests = db.requests := ledger_requests ..

@[simp] theorem prepare_materials :
    (cb.prepare incoming course seen db).materials = db.materials := ledger_materials ..

@[simp] theorem prepare_slots :
    (cb.prepare incoming course seen db).slots = db.slots := ledger_slots ..

@[simp] theorem rollUp_courses (r : RequestId) : (rollUp r db).courses = db.courses := by
  unfold rollUp
  split
  · split <;> rfl
  · rfl

@[simp] theorem rollUp_slots (r : RequestId) : (rollUp r db).slots = db.slots := by
  unfold rollUp
  split
  · split <;> rfl
  · rfl

@[simp] theorem rollUp_usages (r : RequestId) : (rollUp r db).usages = db.usages := by
  unfold rollUp
  split
  · split <;> rfl
  · rfl

/-- The courses of a request after the callback has updated its course. -/
theorem coursesOf_prepare (r : RequestId) : (cb.prepare incoming course seen db).coursesOf r =
    (db.coursesOf r).map fun c => if c.id = course.id then cb.change incoming c else c := by
  have hcourses : (cb.prepare incoming course seen db).coursesOf r =
      (cb.writeCourse incoming course.id db).coursesOf r := by
    simp only [Db.coursesOf, prepare_courses]
  rw [hcourses]
  exact coursesOf_updateCourse _ _ _ _ _ fun _ => rfl

/-- Looking a course up after a callback. -/
theorem find_courses_effect (k : CourseRequestId) :
    (cb.effect incoming course seen db).courses.find k =
      if k = course.id then (db.courses.find k).map (cb.change incoming)
      else db.courses.find k := by
  simp only [Callback.effect, rollUp_courses, prepare_courses]
  exact find_updateCourse _ _ _ _ _

/-- A callback writes only ledger rows of its own course, and only with a success. -/
theorem usagesOf_effect (r : RequestId) (k : CatalogId)
    (hseen : ∀ x ∈ seen, x.materialRequestId = course.materialRequestId ∧
      x.courseId = course.courseId)
    (hother : cb.writesLedger incoming = true →
      ¬(r = course.materialRequestId ∧ k = course.courseId)) :
    (cb.effect incoming course seen db).usagesOf r k = db.usagesOf r k := by
  simp only [Db.usagesOf, Callback.effect, rollUp_usages, Callback.prepare, Callback.ledger]
  split
  · rename_i hwrites
    have hne := hother hwrites
    simp only [insertUsages, deleteUsages]
    rw [Table.filter_insertAll_of_not, Table.filter_delete_of_not]
    · rfl
    · intro u hu
      obtain ⟨hr, hk⟩ := hseen u (by simpa using hu)
      simp only [hr, hk, decide_eq_false_iff_not]
      exact fun heq => hne ⟨heq.1.symm, heq.2.symm⟩
    · intro u hu
      obtain ⟨usage, _, rfl⟩ := List.mem_map.mp hu
      simp only [decide_eq_false_iff_not]
      exact fun heq => hne ⟨heq.1.symm, heq.2.symm⟩
  · rfl

/-- A roll-up writes no other request. -/
theorem find_requests_rollUp_of_ne {r k : RequestId} (h : k ≠ r) :
    (rollUp r db).requests.find k = db.requests.find k := by
  unfold rollUp
  split
  · split <;> simp [setMaterialStatus, setRequestStatus, find_updateRequest, h]
  · rfl

/-- A roll-up keeps the material of every request. -/
theorem materialId_rollUp {r k : RequestId} {q : MaterialRequest}
    (h : db.requests.find k = some q) :
    ∃ q', (rollUp r db).requests.find k = some q' ∧ q'.materialId = q.materialId := by
  by_cases hk : k = r
  · subst hk
    unfold rollUp
    split
    · split <;> simp [setMaterialStatus, setRequestStatus, find_updateRequest, h]
    · exact ⟨q, h, rfl⟩
  · exact ⟨q, by rw [find_requests_rollUp_of_ne db hk, h], rfl⟩

/-- A callback writes no catalog. -/
theorem effect_catalog : (cb.effect incoming course seen db).catalog = db.catalog := by
  have hroll : ∀ (r : RequestId) (db : Db), (rollUp r db).catalog = db.catalog := by
    intro r db
    unfold rollUp
    split
    · split <;> rfl
    · rfl
  rw [Callback.effect, hroll, Callback.prepare, Callback.ledger]
  split <;> rfl

/-- A callback obeys the lock discipline: under the locks of its course and of the
request it changes nothing that other locks protect. -/
theorem lockFrame_effect {held : List Row} {cur : MaterialRequestCourse}
    (hcur : db.courses.find course.id = some cur)
    (hr : cur.materialRequestId = course.materialRequestId) (hcourse : .course course.id ∈ held)
    (hrequest : .request course.materialRequestId ∈ held) :
    LockFrame held db (cb.effect incoming course seen db) := by
  intro mine hdisj
  have hne : ∀ id, .course id ∈ mine → id ≠ course.id :=
    fun id hid heq => hdisj (heq ▸ hid) hcourse
  have hner : ∀ r, .request r ∈ mine → r ≠ course.materialRequestId :=
    fun r hid heq => hdisj (heq ▸ hid) hrequest
  refine ⟨?_, ?_, ?_, ?_, ?_, ?_⟩
  · intro id c hc
    rw [find_courses_effect, hc]
    split
    · exact ⟨cb.change incoming c, rfl, rfl, rfl⟩
    · exact ⟨c, rfl, rfl, rfl⟩
  · intro r q hq
    exact materialId_rollUp _ (by simpa using hq)
  · intro id hid
    rw [find_courses_effect, if_neg (hne id hid)]
  · intro r hid
    rw [Callback.effect, find_requests_rollUp_of_ne _ (hner r hid), prepare_requests]
  · intro r hid
    have hcourses : (cb.effect incoming course seen db).coursesOf r =
        (cb.writeCourse incoming course.id db).coursesOf r := by
      simp only [Db.coursesOf, Callback.effect, rollUp_courses, prepare_courses]
    rw [hcourses]
    refine coursesOf_updateCourse_of_ne _ _ _ _ _ (fun _ => rfl) ?_
    intro c hc heq
    rw [hcur] at hc
    cases hc
    exact hner r hid (heq.symm.trans hr)
  · intro r _
    simp only [Db.slotsOf, Callback.effect, rollUp_slots, prepare_slots]

end Effect

/-- Two databases that a roll-up of request `r` cannot tell apart. -/
def SameRollUp (r : RequestId) (a b : Db) : Prop :=
  b.coursesOf r = a.coursesOf r ∧ b.requests.find r = a.requests.find r

/-- What is protected by the lock of the request looks the same to its roll-up. -/
theorem Protected.sameRollUp {mine : List Row} {r : RequestId} {a b : Db}
    (h : Protected mine a b) (hr : .request r ∈ mine) : SameRollUp r a b :=
  ⟨h.courses r hr, h.request r hr⟩

section Transaction

variable {C α : Type} {P : Protocol C Db Row Job α} {cb : Callback}
  {incoming : CourseMaterialStatus} {course : MaterialRequestCourse}
  {seen : List MaterialQuestionUsage}

/-- A callback has run its last statement. Its writes amount to `Callback.effect` on
every database that looks to the roll-up like the one at the parent lock. -/
structure RolledUp (cb : Callback) (incoming : CourseMaterialStatus)
    (course : MaterialRequestCourse) (seen : List MaterialQuestionUsage)
    (t u : Context C Db Row Job) (v : Snapshot C Db Job α) : Prop where
  call : u.call = t.call
  since : u.since = t.since
  held : t.held ⊆ u.held
  locked : .request course.materialRequestId ∈ u.held
  log : ∀ db, SameRollUp course.materialRequestId v.db db →
    u.log db = cb.effect incoming course seen db
  out : u.out =
    cb.mergeJobs course.materialRequestId (cb.prepare incoming course seen v.db)

/-- The roll-up only reads what the parent lock protects. -/
theorem coursesOf_prepare_congr {a b : Db} (h : SameRollUp course.materialRequestId a b) :
    (cb.prepare incoming course seen b).coursesOf course.materialRequestId =
      (cb.prepare incoming course seen a).coursesOf course.materialRequestId := by
  rw [coursesOf_prepare, coursesOf_prepare, h.1]

/-- The effect of a callback, with everything that the roll-up reads taken from `a`. -/
theorem effect_of_sameRollUp {a b : Db} (h : SameRollUp course.materialRequestId a b) :
    cb.effect incoming course seen b =
      if allFinished ((cb.prepare incoming course seen a).coursesOf course.materialRequestId) then
        match (a.requests.find course.materialRequestId).bind MaterialRequest.materialId with
        | none => setRequestStatus course.materialRequestId
            (finalStatus
              ((cb.prepare incoming course seen a).coursesOf course.materialRequestId))
            (cb.prepare incoming course seen b)
        | some m => setMaterialStatus m
            (finalStatus
              ((cb.prepare incoming course seen a).coursesOf course.materialRequestId))
            (setRequestStatus course.materialRequestId
              (finalStatus
                ((cb.prepare incoming course seen a).coursesOf course.materialRequestId))
              (cb.prepare incoming course seen b))
      else cb.prepare incoming course seen b := by
  rw [Callback.effect, rollUp, coursesOf_prepare_congr h, prepare_requests, h.2]

/-- The status update of a request does not change its material. -/
theorem materialId_setRequestStatus (r : RequestId) (status : MaterialRequestStatus) (db : Db) :
    ((setRequestStatus r status db).requests.find r).bind MaterialRequest.materialId =
      (db.requests.find r).bind MaterialRequest.materialId := by
  unfold setRequestStatus
  rw [find_updateRequest, if_pos rfl]
  cases db.requests.find r <;> rfl

/-- The material update of the roll-up. -/
theorem wp_updateParentMaterial {Q : Context C Db Row Job → Unit → Snapshot C Db Job α → Prop}
    {request : Option MaterialRequest} {status : MaterialRequestStatus}
    {t : Context C Db Row Job} {s : Snapshot C Db Job α} (hinv : P.Inv s)
    (hquiet : ∀ m, P.Local t (fun _ => [.material m]) s)
    (hQ : ∀ u v, P.After t.held s v → P.Inv v → u.Extends t → u.out = t.out →
      (∀ db, u.log db = match request.bind MaterialRequest.materialId with
        | none => t.log db
        | some m => setMaterialStatus m status (t.log db)) → Q u () v) :
    P.Wp Q (updateParentMaterial request status) t s := by
  unfold updateParentMaterial
  split
  · rename_i hnone
    exact hQ t s .refl hinv ⟨rfl, rfl, fun _ h => h⟩ rfl fun db => by rw [hnone]
  · rename_i m hsome
    refine ⟨hquiet m, fun v hv hinv' _ _ => ?_⟩
    refine hQ _ v hv.after hinv' ⟨rfl, rfl, ?_⟩ rfl fun db => by rw [hsome]; rfl
    exact List.subset_append_left _ _

/-- The dispatch of the merge. -/
theorem wp_dispatchMerge {Q : Context C Db Row Job → Unit → Snapshot C Db Job α → Prop}
    {r : RequestId} {previous : Option MaterialRequest} {siblings : List MaterialRequestCourse}
    {t : Context C Db Row Job} {s : Snapshot C Db Job α} (hinv : P.Inv s)
    (hquiet : ∀ v, P.Local t (fun _ => []) v)
    (hrequest : ∀ v, P.After t.held s v →
      ((t.view v).requests.find r).isSome = previous.isSome)
    (hQ : ∀ u v, P.After t.held s v → P.Inv v → u.Extends t → u.log = t.log →
      u.out = t.out ++ (if mergesParent previous siblings && previous.isSome then
        (cb.companyId.map (Job.mergePdf r)).toList else []) → Q u () v) :
    P.Wp Q (dispatchMerge cb r previous siblings) t s := by
  unfold dispatchMerge
  have hsame : t.Extends t := ⟨rfl, rfl, fun _ h => h⟩
  by_cases hmerges : mergesParent previous siblings = true
  · rw [if_pos hmerges]
    refine wp_select (hquiet s) fun v hafter hinv' => ?_
    have hsome := hrequest v hafter
    cases hfind : (t.view v).requests.find r with
    | none =>
      rw [hfind] at hsome
      exact hQ t v hafter hinv' hsame rfl (by simp [← hsome])
    | some q =>
      rw [hfind] at hsome
      cases hcompany : cb.companyId with
      | none => exact hQ t v hafter hinv' hsame rfl (by simp [hcompany])
      | some tenantId =>
        refine ⟨hquiet v, fun v' hv' hinv'' _ => ?_⟩
        refine hQ _ v' (hafter.trans hv'.after) hinv'' ⟨rfl, rfl, fun _ h => h⟩ rfl ?_
        simp [hmerges, ← hsome, hcompany]
  · rw [if_neg hmerges]
    exact hQ t s .refl hinv hsame rfl (by simp [hmerges])

/-- The roll-up of the parent, from the parent lock at `v₁` to its end at `v`. -/
theorem wp_rollUpParent {Q : Context C Db Row Job → CallbackOutcome → Snapshot C Db Job α → Prop}
    {t : Context C Db Row Job} {s : Snapshot C Db Job α}
    (hguar : ∀ held a b, P.Guar held a b → LockFrame held a.db b.db)
    (hlog : ∀ db, t.log db = cb.prepare incoming course seen db) (hout : t.out = [])
    (hquiet : ∀ u wants v, u.call = t.call → u.out = [] → (∀ v id, .course id ∉ wants v) →
      P.Local u wants v)
    (hQ : ∀ u event v₁ v, P.After t.held s v₁ → P.Inv v₁ →
      P.Local t (fun _ => [.request course.materialRequestId]) v₁ →
      P.Pre t [.request course.materialRequestId] v₁ →
      P.After (t.held ++ [.request course.materialRequestId]) v₁ v → P.Inv v →
      RolledUp cb incoming course seen t u v₁ → Q u (.applied event) v) :
    P.Wp Q (rollUpParent cb incoming course) t s := by
  set r := course.materialRequestId with hr
  refine wp_selectForUpdate (hquiet t _ s rfl hout (by simp)) ?_
  intro v₁ hafter₁ hinv₁ hlocal₁ hpre₁
  set t₁ := t.wrote [Row.request r] fun db => db with ht₁
  have hview : ∀ v : Snapshot C Db Job α, t₁.view v = cb.prepare incoming course seen v.db := by
    intro v
    simp [ht₁, Context.view, hlog]
  have hsame : ∀ v, P.After t₁.held v₁ v → SameRollUp r v₁.db v.db := by
    intro v hv
    exact (protected_of_after hguar hv).sameRollUp (by simp [ht₁])
  have hquiet₁ : ∀ u : Context C Db Row Job, u.call = t.call → u.out = [] →
      ∀ (wants : Db → List Row) v, (∀ v id, .course id ∉ wants v) → P.Local u wants v :=
    fun u hu ho wants v hw => hquiet u wants v hu ho hw
  refine wp_select (hquiet₁ t₁ rfl hout _ _ (by simp)) ?_
  intro v₂ hafter₂ hinv₂
  have hsame₂ := hsame v₂ hafter₂
  -- everything the roll-up reads from here on is as it was at the parent lock
  have hparent : (t.view v₁).requests.find r = v₁.db.requests.find r := by
    simp [Context.view, hlog]
  have hsiblings : (t₁.view v₂).coursesOf r =
      (cb.prepare incoming course seen v₁.db).coursesOf r := by
    rw [hview, coursesOf_prepare_congr hsame₂]
  rw [hparent, hsiblings]
  set siblings := (cb.prepare incoming course seen v₁.db).coursesOf r with hsib
  have hrollUp : ∀ db, SameRollUp r v₁.db db → cb.effect incoming course seen db =
      if allFinished siblings then
        match (v₁.db.requests.find r).bind MaterialRequest.materialId with
        | none => setRequestStatus r (finalStatus siblings) (cb.prepare incoming course seen db)
        | some m => setMaterialStatus m (finalStatus siblings)
            (setRequestStatus r (finalStatus siblings) (cb.prepare incoming course seen db))
      else cb.prepare incoming course seen db := fun db hdb => effect_of_sameRollUp hdb
  by_cases hfinished : allFinished siblings = true
  · rw [if_pos hfinished]
    refine wp_write (hquiet₁ t₁ rfl hout _ _ (by simp)) ?_
    intro v₃ hafter₃ hinv₃ _ _
    set t₂ := t₁.wrote [Row.request r] (setRequestStatus r (finalStatus siblings)) with ht₂
    have hmine : t₁.held ⊆ t₂.held := by simp [ht₂]
    refine wp_select (hquiet₁ t₂ rfl hout _ _ (by simp)) ?_
    intro v₄ hafter₄ hinv₄
    have hlate : P.After t₁.held v₁ v₄ := (hafter₂.trans hafter₃).trans (hafter₄.mono hmine)
    have hmaterial : ((t₂.view v₄).requests.find r).bind MaterialRequest.materialId =
        (v₁.db.requests.find r).bind MaterialRequest.materialId := by
      have hlog₂ : t₂.view v₄ =
          setRequestStatus r (finalStatus siblings) (cb.prepare incoming course seen v₄.db) := by
        rw [← hview]
        rfl
      rw [hlog₂, materialId_setRequestStatus, prepare_requests, (hsame v₄ hlate).2]
    refine (wp_bind _ _ _ _ _).mpr ?_
    refine wp_updateParentMaterial hinv₄
      (fun m => hquiet₁ t₂ rfl hout _ _ (by simp)) ?_
    intro u₃ v₅ hafter₅ hinv₅ hext₃ hout₃ hlog₃
    rw [hmaterial] at hlog₃
    have hfind₅ : ∀ v, P.After u₃.held v₅ v →
        ((u₃.view v).requests.find r).isSome = (v₁.db.requests.find r).isSome := by
      intro v hv
      have hlater : P.After t₁.held v₁ v :=
        (hlate.trans (hafter₅.mono hmine)).trans (hv.mono (List.Subset.trans hmine hext₃.held))
      have hrequests : (u₃.view v).requests = (t₂.view v).requests := by
        simp only [Context.view, hlog₃]
        split <;> rfl
      have hlog₂ : t₂.view v =
          setRequestStatus r (finalStatus siblings) (cb.prepare incoming course seen v.db) := by
        rw [← hview]
        rfl
      rw [hrequests, hlog₂, setRequestStatus, find_updateRequest, if_pos rfl, Option.isSome_map,
        prepare_requests, (hsame v hlater).2]
    refine (wp_bind _ _ _ _ _).mpr ?_
    refine wp_dispatchMerge hinv₅ (fun v => hquiet₁ u₃ ?_ ?_ _ _ (by simp)) hfind₅ ?_
    · rw [hext₃.call]
      rfl
    · rw [hout₃]
      exact hout
    intro u₄ v₆ hafter₆ hinv₆ hext₄ hlog₄ hout₄
    have hend : P.After t₁.held v₁ v₆ :=
      (hlate.trans (hafter₅.mono hmine)).trans
        (hafter₆.mono (List.Subset.trans hmine hext₃.held))
    have hheld : t₁.held ⊆ u₄.held :=
      List.Subset.trans (List.Subset.trans hmine hext₃.held) hext₄.held
    refine hQ u₄ _ v₁ v₆ hafter₁ hinv₁ hlocal₁ hpre₁ hend hinv₆ ⟨?_, ?_, ?_, ?_, ?_, ?_⟩
    · rw [hext₄.call, hext₃.call]
      rfl
    · rw [hext₄.since, hext₃.since]
      rfl
    · exact List.Subset.trans (List.subset_append_left _ _) hheld
    · exact hheld (by simp [ht₁, hr])
    · intro db hdb
      rw [hrollUp db hdb, if_pos hfinished, hlog₄, hlog₃]
      have hlog₂ : t₂.log db =
          setRequestStatus r (finalStatus siblings) (cb.prepare incoming course seen db) := by
        rw [← hlog db]
        rfl
      rw [hlog₂]
    · rw [hout₄, hout₃]
      have hout₂ : t₂.out = [] := hout
      simp only [hout₂, List.nil_append, Callback.mergeJobs, ← hr, ← hsib, prepare_requests,
        hfinished, Bool.true_and]
  · rw [if_neg hfinished]
    refine hQ t₁ _ v₁ v₂ hafter₁ hinv₁ hlocal₁ hpre₁ hafter₂ hinv₂ ⟨rfl, rfl, ?_, ?_, ?_, ?_⟩
    · simp [ht₁]
    · simp [ht₁, hr]
    · intro db hdb
      rw [hrollUp db hdb, if_neg hfinished]
      exact hlog db
    · simp only [Callback.mergeJobs, ← hr, ← hsib, hfinished]
      exact hout

/-- The ledger statements, or none of them. -/
theorem wp_saveUsages {Q : Context C Db Row Job → Unit → Snapshot C Db Job α → Prop}
    {t : Context C Db Row Job} {s : Snapshot C Db Job α} (hinv : P.Inv s)
    (hlog : ∀ db, t.log db = cb.writeCourse incoming course.id db) (hout : t.out = [])
    (hquiet : ∀ u wants v, u.call = t.call → u.out = [] → (∀ v id, .course id ∉ wants v) →
      P.Local u wants v)
    (hQ : ∀ u v seen, P.After t.held s v → P.Inv v → u.Extends t → u.out = [] →
      (∀ x ∈ seen, x.materialRequestId = course.materialRequestId ∧
        x.courseId = course.courseId) →
      (cb.writesLedger incoming = true → ∃ w, P.After t.held w v ∧
        seen = w.db.usagesOf course.materialRequestId course.courseId) →
      (∀ db, u.log db = cb.prepare incoming course seen db) → Q u () v) :
    P.Wp Q (saveUsages cb incoming course) t s := by
  unfold saveUsages
  by_cases hwrites : cb.writesLedger incoming = true
  · rw [if_pos hwrites]
    refine wp_write (hquiet t _ s rfl hout (by simp)) fun v hafter _ _ _ => ?_
    set seen := (t.view v).usagesOf course.materialRequestId course.courseId with hseen
    refine ⟨hquiet _ _ v rfl hout (by simp), fun v' hv' hinv' _ _ => ?_⟩
    have hmine := (hv'.after).mono (List.subset_append_left t.held _)
    refine hQ _ v' seen (hafter.trans hmine) hinv' ⟨rfl, rfl, ?_⟩ hout ?_ (fun _ => ?_) ?_
    · exact List.Subset.trans (List.subset_append_left _ _) (List.subset_append_left _ _)
    · intro x hx
      simpa using (List.mem_filter.mp hx).2
    · -- the own writes so far are no writes to the ledger
      refine ⟨v, hmine, ?_⟩
      rw [hseen, Context.view, hlog]
      rfl
    · intro db
      rw [Callback.prepare, Callback.ledger, if_pos hwrites, ← hlog db]
      rfl
  · rw [if_neg hwrites]
    refine hQ t s [] .refl hinv ⟨rfl, rfl, fun _ h => h⟩ hout (by simp) (fun h => absurd h hwrites)
      fun db => ?_
    rw [Callback.prepare, Callback.ledger, if_neg hwrites, hlog db]

/-- A callback for the course `course`, loaded at `s`, has run its last statement at
`v`. It claimed the course row at `v₀` and locked the parent row at `v₁`. -/
structure Handled (P : Protocol C Db Row Job α) (cb : Callback) (incoming : CourseMaterialStatus)
    (course : MaterialRequestCourse) (seen : List MaterialQuestionUsage)
    (t u : Context C Db Row Job) (s v : Snapshot C Db Job α) : Prop where
  call : u.call = t.call
  since : u.since = t.since
  courseHeld : .course course.id ∈ u.held
  requestHeld : .request course.materialRequestId ∈ u.held
  /-- The ledger rows that were deleted belong to the course. -/
  deleted : ∀ x ∈ seen, x.materialRequestId = course.materialRequestId ∧
    x.courseId = course.courseId
  /-- They were all of its rows when they were deleted. -/
  ledger : cb.writesLedger incoming = true → ∃ w, P.After [.course course.id] w v ∧
    seen = w.db.usagesOf course.materialRequestId course.courseId
  /-- Since the course row was claimed nobody else has written it. -/
  claimed : ∃ v₀, P.After [] s v₀ ∧ P.Local t (fun _ => [.course course.id]) v₀ ∧
    P.Pre t [.course course.id] v₀ ∧ P.After [.course course.id] v₀ v
  /-- Since the parent was locked nobody else has written the request or its courses. -/
  locked : ∃ t₁ v₁, t₁.call = t.call ∧ P.Pre t₁ [.request course.materialRequestId] v₁ ∧
    (∀ db, t₁.log db = cb.prepare incoming course seen db) ∧
    P.After [.request course.materialRequestId] v₁ v
  log : ∀ db, SameRollUp course.materialRequestId v.db db →
    u.log db = cb.effect incoming course seen db
  out : u.out = cb.mergeJobs course.materialRequestId (cb.prepare incoming course seen v.db)

/-- Two databases that look the same to a roll-up have the same merge job. -/
theorem mergeJobs_congr {a b : Db} (h : SameRollUp course.materialRequestId a b) :
    cb.mergeJobs course.materialRequestId (cb.prepare incoming course seen b) =
      cb.mergeJobs course.materialRequestId (cb.prepare incoming course seen a) := by
  rw [Callback.mergeJobs, Callback.mergeJobs, coursesOf_prepare_congr h, prepare_requests,
    prepare_requests, h.2]

/-- What is known of a callback that has run its statements stays true while others commit. -/
theorem Handled.mono (hguar : ∀ held a b, P.Guar held a b → LockFrame held a.db b.db)
    {t u : Context C Db Row Job} {s v v' : Snapshot C Db Job α}
    (h : Handled P cb incoming course seen t u s v) (hafter : P.After u.held v v') :
    Handled P cb incoming course seen t u s v' where
  call := h.call
  since := h.since
  courseHeld := h.courseHeld
  requestHeld := h.requestHeld
  deleted := h.deleted
  ledger := by
    intro hwrites
    obtain ⟨w, hw, hseen⟩ := h.ledger hwrites
    exact ⟨w, hw.trans (hafter.mono (by simpa using h.courseHeld)), hseen⟩
  claimed := by
    obtain ⟨v₀, hs, hlocal, hpre, hv⟩ := h.claimed
    exact ⟨v₀, hs, hlocal, hpre, hv.trans (hafter.mono (by simpa using h.courseHeld))⟩
  locked := by
    obtain ⟨t₁, v₁, hcall, hpre, hlog, hv⟩ := h.locked
    exact ⟨t₁, v₁, hcall, hpre, hlog, hv.trans (hafter.mono (by simpa using h.requestHeld))⟩
  log := by
    intro db hdb
    have hsame := (protected_of_after hguar hafter).sameRollUp h.requestHeld
    exact h.log db ⟨hdb.1.trans hsame.1, hdb.2.trans hsame.2⟩
  out := by
    have hsame := (protected_of_after hguar hafter).sameRollUp h.requestHeld
    rw [mergeJobs_congr hsame]
    exact h.out

/-- A callback that has passed the guard. -/
theorem wp_applyCallback {Q : Context C Db Row Job → CallbackOutcome → Snapshot C Db Job α → Prop}
    {t : Context C Db Row Job} {s : Snapshot C Db Job α}
    (hguar : ∀ held a b, P.Guar held a b → LockFrame held a.db b.db)
    (hlog : ∀ db, t.log db = db) (hheld : t.held = []) (hout : t.out = [])
    (hquiet : ∀ u wants v, u.call = t.call → u.out = [] → (∀ v id, .course id ∉ wants v) →
      P.Local u wants v)
    (hclaim : P.Local t (fun _ => [.course course.id]) s)
    (hQ : ∀ u event seen v, P.Inv v → Handled P cb incoming course seen t u s v →
      Q u (.applied event) v) :
    P.Wp Q (applyCallback cb incoming course) t s := by
  refine wp_write hclaim fun v₀ hafter₀ hinv₀ hlocal₀ hpre₀ => ?_
  set t₁ := t.wrote [Row.course course.id] (cb.writeCourse incoming course.id) with ht₁
  have hlog₁ : ∀ db, t₁.log db = cb.writeCourse incoming course.id db := by
    intro db
    simp [ht₁, hlog]
  have hheld₁ : t₁.held = [.course course.id] := by simp [ht₁, hheld]
  refine (wp_bind _ _ _ _ _).mpr ?_
  refine wp_saveUsages hinv₀ hlog₁ hout hquiet ?_
  intro t₂ v₂ seen hafter₂ hinv₂ hext₂ hout₂ hseen hall hlog₂
  have hcall₂ : t₂.call = t.call := hext₂.call
  have hcourse₂ : .course course.id ∈ t₂.held := hext₂.held (by simp [hheld₁])
  refine wp_rollUpParent hguar hlog₂ hout₂
    (fun u wants v hu => hquiet u wants v (hu.trans hcall₂)) ?_
  intro u event v₁ v hafter₁ _ _ hpre₁ hafter hinv hrolled
  have hsame := (protected_of_after hguar hafter).sameRollUp
    (r := course.materialRequestId) (by simp)
  have hsecond : P.After [.course course.id] v₂ v₁ := hafter₁.mono (by simpa using hcourse₂)
  have hthird : P.After [.course course.id] v₁ v := hafter.mono (by simp [hcourse₂])
  refine hQ u event seen v hinv ⟨?_, ?_, ?_, ?_, hseen, fun hwrites => ?_, ?_, ?_, ?_, ?_⟩
  · rw [hrolled.call, hcall₂]
  · rw [hrolled.since, hext₂.since]
    rfl
  · exact hrolled.held hcourse₂
  · exact hrolled.locked
  · obtain ⟨w, hw, hdeleted⟩ := hall hwrites
    exact ⟨w, ((hw.mono (by simp [hheld₁])).trans hsecond).trans hthird, hdeleted⟩
  · refine ⟨v₀, hafter₀.mono (by simp), hlocal₀, hpre₀, ?_⟩
    have hfirst : P.After [.course course.id] v₀ v₂ := hafter₂.mono (by simp [hheld₁])
    exact (hfirst.trans hsecond).trans hthird
  · exact ⟨t₂, v₁, hcall₂, hpre₁, hlog₂, hafter.mono (by simp)⟩
  · intro db hdb
    exact hrolled.log db ⟨hdb.1.trans hsame.1, hdb.2.trans hsame.2⟩
  · rw [mergeJobs_congr hsame]
    exact hrolled.out

/-- **A callback**, from the moment at which it loads its course. It finds no course,
it is ignored, or it claims the course and ends as `Handled`. -/
theorem wp_handleStatus {Q : Context C Db Row Job → CallbackOutcome → Snapshot C Db Job α → Prop}
    {jobId : CourseRequestId} {t : Context C Db Row Job} {s : Snapshot C Db Job α}
    (hguar : ∀ held a b, P.Guar held a b → LockFrame held a.db b.db)
    (hlog : ∀ db, t.log db = db) (hheld : t.held = []) (hout : t.out = [])
    (hquiet : ∀ u wants v, u.call = t.call → u.out = [] → (∀ v id, .course id ∉ wants v) →
      P.Local u wants v)
    (hnone : ∀ v, P.After [] s v → P.Inv v → v.db.courses.find jobId = none →
      Q t .noCourse v)
    (hignored : ∀ v course, P.After [] s v → P.Inv v → v.db.courses.find jobId = some course →
      ignores course.status incoming = true → Q t .ignored v)
    (hclaim : ∀ v course, P.After [] s v → P.Inv v → v.db.courses.find jobId = some course →
      ignores course.status incoming = false → P.Local t (fun _ => [.course jobId]) v)
    (hQ : ∀ u event course seen v₀ v, P.After [] s v₀ → P.Inv v₀ →
      v₀.db.courses.find jobId = some course → ignores course.status incoming = false →
      P.Inv v → Handled P cb incoming course seen t u v₀ v → Q u (.applied event) v) :
    P.Wp Q (handleStatus cb jobId incoming) t s := by
  refine wp_select (hquiet t _ s rfl hout (by simp)) fun v₀ hafter hinv => ?_
  rw [hheld] at hafter
  have hview : t.view v₀ = v₀.db := hlog v₀.db
  rw [hview]
  cases hfind : v₀.db.courses.find jobId with
  | none => exact hnone v₀ hafter hinv hfind
  | some course =>
    by_cases hguard : ignores course.status incoming = true
    · simp only [hguard, if_true]
      exact hignored v₀ course hafter hinv hfind hguard
    · simp only [hguard]
      have hpass : ignores course.status incoming = false := by simpa using hguard
      have hid : course.id = jobId := Db.course_id_of_find hfind
      refine wp_applyCallback hguar hlog hheld hout hquiet ?_ ?_
      · rw [hid]
        exact hclaim v₀ course hafter hinv hfind hpass
      · intro u event seen v hinv' hhandled
        exact hQ u event course seen v₀ v hafter hinv hfind hpass hinv' hhandled

/-- The course that a callback updates is still the one it loaded, up to the columns
that callbacks write. -/
theorem Handled.current (hguar : ∀ held a b, P.Guar held a b → LockFrame held a.db b.db)
    {t u : Context C Db Row Job} {s v : Snapshot C Db Job α}
    (h : Handled P cb incoming course seen t u s v)
    (hload : s.db.courses.find course.id = some course) :
    ∃ cur, v.db.courses.find course.id = some cur ∧
      cur.materialRequestId = course.materialRequestId ∧ cur.courseId = course.courseId := by
  obtain ⟨v₀, hs, _, _, hv⟩ := h.claimed
  have hafter : P.After [] s v := hs.trans (hv.mono (by simp))
  exact (protected_of_after hguar hafter).course _ _ hload

/-- What a callback has done to the database when it commits. -/
theorem Handled.effect {t u : Context C Db Row Job} {s v : Snapshot C Db Job α}
    (h : Handled P cb incoming course seen t u s v) :
    u.log v.db = cb.effect incoming course seen v.db := h.log v.db ⟨rfl, rfl⟩

/-- The commit of a callback obeys the lock discipline. -/
theorem Handled.lockFrame (hguar : ∀ held a b, P.Guar held a b → LockFrame held a.db b.db)
    {t u : Context C Db Row Job} {s v : Snapshot C Db Job α}
    (h : Handled P cb incoming course seen t u s v)
    (hload : s.db.courses.find course.id = some course) :
    LockFrame u.held v.db (u.log v.db) := by
  obtain ⟨cur, hcur, hr, _⟩ := h.current hguar hload
  rw [h.effect]
  exact lockFrame_effect cb incoming course seen v.db hcur hr h.courseHeld h.requestHeld

end Transaction

/-- The callback is well formed: it reports `incoming` for the course `jobId`. -/
def Callback.Reports (cb : Callback) (jobId : CourseRequestId) (incoming : CourseMaterialStatus) :
    Prop :=
  cb.statusData.jobId = some jobId ∧
    ∃ status, cb.statusData.status = some status ∧ mapStatus status = .ok incoming

/-- A well-formed callback runs its transaction. -/
theorem Callback.execute_of_reports {cb : Callback} {jobId : CourseRequestId}
    {incoming : CourseMaterialStatus} (h : cb.Reports jobId incoming) :
    cb.execute = handleStatus cb jobId incoming := by
  obtain ⟨hjob, status, hstatus, hmap⟩ := h
  simp only [Callback.execute, hjob, hstatus, hmap]

/-- A callback reports one status for one course. -/
theorem Callback.Reports.unique {cb : Callback} {c c' : CourseRequestId}
    {incoming incoming' : CourseMaterialStatus} (h : cb.Reports c incoming)
    (h' : cb.Reports c' incoming') : c = c' ∧ incoming = incoming' := by
  obtain ⟨hc, status, hs, hm⟩ := h
  obtain ⟨hc', status', hs', hm'⟩ := h'
  rw [hc] at hc'
  rw [hs] at hs'
  cases hc'
  cases hs'
  rw [hm] at hm'
  cases hm'
  exact ⟨rfl, rfl⟩

/-- A callback that finds `db` when it loads its course ends without any effect. -/
def Callback.LeavesAlone (cb : Callback) (db : Db) (outcome : CallbackOutcome) : Prop :=
  outcome = .noCourse ∨ outcome = .ignored ∧ ∃ jobId incoming course, cb.Reports jobId incoming ∧
    db.courses.find jobId = some course ∧ ignores course.status incoming = true

/-- What a callback of the module is, for any protocol that keeps the lock discipline:
it commits nothing, or it claims its course and commits `Callback.effect`. -/
theorem wp_webhook {P : Protocol UseCase Db Row Job Outcome} {orm : Orm} {cb : Callback}
    {id since : ℕ} {s : Committed}
    (hguar : ∀ held a b, P.Guar held a b → LockFrame held a.db b.db)
    (hquiet : ∀ (u : Ctx) wants v, u.call = .webhook cb → u.out = [] →
      (∀ v id, .course id ∉ wants v) → P.Local u wants v)
    (hidle : ∀ (t : Ctx) outcome v₀ v, t.call = .webhook cb → t.since = since →
      (∀ db, t.log db = db) → t.held = [] → t.out = [] → P.After [] s v₀ → P.Inv v₀ →
      cb.LeavesAlone v₀.db outcome → P.After [] v₀ v → P.Inv v →
      P.PreCommit t (.callback outcome) v → P.Inv (v.commit t (.callback outcome) []) ∧
        P.Guar t.held v (v.commit t (.callback outcome) []))
    (hclaim : ∀ (t : Ctx) jobId incoming course v, t.call = .webhook cb → t.out = [] →
      cb.Reports jobId incoming → P.Inv v → v.db.courses.find jobId = some course →
      ignores course.status incoming = false → P.Local t (fun _ => [.course jobId]) v)
    (hend : ∀ (t u : Ctx) incoming course seen v₀ v, t.call = .webhook cb → P.Inv v →
      Handled P cb incoming course seen t u v₀ v → P.Local u (fun _ => []) v)
    (hcommit : ∀ (t u : Ctx) event incoming course seen v₀ v, t.call = .webhook cb →
      t.since = since → cb.Reports course.id incoming → P.After [] s v₀ → P.Inv v₀ →
      v₀.db.courses.find course.id = some course → ignores course.status incoming = false →
      P.Inv v → Handled P cb incoming course seen t u v₀ v →
      P.PreCommit u (.callback (.applied event)) v →
      P.Inv (v.commit u (.callback (.applied event)) []) ∧
        P.Guar u.held v (v.commit u (.callback (.applied event)) [])) :
    P.Wp (P.Commits (materials orm)) ((materials orm).program (.webhook cb))
      (Context.opened id (.webhook cb) since) s := by
  set t : Ctx := Context.opened id (.webhook cb) since with ht
  have hlocal : ∀ v, P.Local t (fun _ => []) v := fun v => hquiet t _ v rfl rfl (by simp)
  have hnothing : ∀ outcome v, P.After [] s v → P.Inv v → cb.LeavesAlone v.db outcome →
      P.Commits (materials orm) t (.callback outcome) v := by
    intro outcome v hafter hinv hleaves
    refine commits_of_after (hlocal v) fun v' hv' hinv' _ hpre => ?_
    exact hidle t outcome v v' rfl rfl (fun _ => rfl) rfl rfl hafter hinv hleaves hv' hinv' hpre
  refine (wp_bind _ _ _ _ _).mpr ?_
  unfold Callback.execute
  split
  · rename_i jobId status hjob hstatus
    split
    · exact hlocal s
    · rename_i incoming hmap
      have hreports : cb.Reports jobId incoming := ⟨hjob, status, hstatus, hmap⟩
      refine wp_handleStatus hguar (fun _ => rfl) rfl rfl hquiet ?_ ?_ ?_ ?_
      · intro v hafter hinv _
        exact hnothing .noCourse v hafter hinv (.inl rfl)
      · intro v course hafter hinv hfind hguard
        exact hnothing .ignored v hafter hinv
          (.inr ⟨rfl, jobId, incoming, course, hreports, hfind, hguard⟩)
      · intro v course _ hinv hfind hguard
        exact hclaim t jobId incoming course v rfl rfl hreports hinv hfind hguard
      · intro u event course seen v₀ v hafter hinv₀ hfind hguard hinv hhandled
        have hid : course.id = jobId := Db.course_id_of_find hfind
        refine commits_of_after (hend t u incoming course seen v₀ v rfl hinv hhandled) ?_
        intro v' hv' hinv' _ hpre
        exact hcommit t u event incoming course seen v₀ v' rfl rfl (hid ▸ hreports) hafter hinv₀
          (hid ▸ hfind) hguard hinv' (hhandled.mono hguar hv') hpre
  · exact hlocal s

end Odiseo.Materials
