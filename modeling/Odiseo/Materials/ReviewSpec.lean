import Odiseo.Materials.Rules
import Odiseo.Materials.Machine

/-!
# What review reads, drafts and approvals commit

The rules of the statements that reviews are made of. Each rule says which change of
the database a part of a use case adds to the writes of its transaction, and that
this change stays within the locks held: all of these use cases hold the lock of
their request from their first write to their commit.
-/

namespace Odiseo.Materials

open Database Database.Protocol

variable {C α : Type} {P : Protocol C Db Row Job α}

section Rules

variable {call : C} {r : RequestId} {ids : List CourseRequestId} {t : Context C Db Row Job}
  {s : Snapshot C Db Job α}

variable (ids) in
/-- The slot updates of a draft or an approval. -/
theorem wp_applyEdits {Q : Context C Db Row Job → Unit → Snapshot C Db Job α → Prop}
    {dto : ApproveReview}
    (hquiet : ∀ u wants v, u.call = call → u.out = [] → P.Local u wants v) (hcall : t.call = call)
    (hout : t.out = []) (hheld : .request r ∈ t.held) (hinv : P.Inv s)
    (hQ : ∀ u v, Ran P (Owns r ids) t u s v (editSlots r dto) → Q u () v) :
    P.Wp Q (applyEdits r dto) t s := by
  refine (wp_bind _ _ _ _ _).mpr ?_
  refine wp_forEach (Owns r ids) [.request r] (F := replaceIn r) dto.replacements ?_ hcall hout
    (by simpa using hheld)
    hinv ?_
  · intro item _ t s Q hcall hout hheld _ hQ
    refine wp_update hquiet hcall hout (fun v db howns => howns.keeps ?_) hQ
    have hlocked : .request r ∈ t.held := hheld (List.mem_cons_self ..)
    refine LockFrame.updateSlot (r := r) (by simp [hlocked]) ?_ ?_
    · intro q
      unfold replaceQuestion
      split <;> rfl
    · intro q hq
      simp [replaceQuestion, hq]
  · intro u v hran
    refine wp_forEach (Owns r ids) [.request r] (F := removeIn r) dto.removals ?_
      (hran.extended.call.trans hcall)
      (hran.out.trans hout) (by simpa using hran.extended.held hheld) hran.inv ?_
    · intro id _ t s Q hcall hout hheld _ hQ
      refine wp_update hquiet hcall hout (fun v db howns => howns.keeps ?_) hQ
      have hlocked : .request r ∈ t.held := hheld (List.mem_cons_self ..)
      refine LockFrame.updateSlot (r := r) (by simp [hlocked]) ?_ ?_
      · intro q
        unfold removeQuestion
        split <;> rfl
      · intro q hq
        simp [removeQuestion, hq]
    · intro w x hrest
      exact hQ w x (hran.trans hrest)

variable (ids) in
/-- The optimistic guard. It fails, or it locks the request at a moment at which the
row still has the version of the client. -/
theorem wp_bumpVersion {Q : Context C Db Row Job → Unit → Snapshot C Db Job α → Prop}
    {version : ℕ} (hquiet : ∀ u wants v, u.call = call → u.out = [] → P.Local u wants v)
    (hcall : t.call = call) (hout : t.out = [])
    (hQ : ∀ u v, Ran P (Owns r ids) t u s v (bumpIn r) → .request r ∈ u.held →
      versionMatches r version (t.view v) = true → Q u () v) :
    P.Wp Q (bumpVersion r version) t s := by
  refine wp_write (hquiet t _ s hcall hout) fun v hafter hinv _ _ => ?_
  by_cases hmatch : versionMatches r version (t.view v) = true
  · simp only [hmatch, if_true]
    refine hQ _ v (.wrote hafter hinv fun db howns => howns.keeps ?_) (by simp) hmatch
    exact LockFrame.updateRequest (by simp) fun _ => rfl
  · simp only [hmatch]
    exact hquiet _ _ v hcall hout

variable (ids) in
/-- `UPDATE` of the request by `save`. -/
theorem wp_saveRequestRow {Q : Context C Db Row Job → ℕ → Snapshot C Db Job α → Prop} {orm : Orm}
    {entity reread : MaterialRequest} (hr : entity.id = r)
    (hquiet : ∀ u wants v, u.call = call → u.out = [] → P.Local u wants v) (hcall : t.call = call)
    (hout : t.out = [])
    (hQ : ∀ u n v, Ran P (Owns r ids) t u s v (saveRequestIn entity reread n) → .request r ∈ u.held →
      savedVersion orm entity reread (t.view v) = some n → Q u n v) :
    P.Wp Q (saveRequestRow orm entity reread) t s := by
  refine wp_write (hquiet t _ s hcall hout) fun v hafter hinv _ _ => ?_
  cases hversion : savedVersion orm entity reread (t.view v) with
  | none => exact hquiet _ _ v hcall hout
  | some n =>
    refine hQ _ n v (.wrote hafter hinv fun db howns => howns.keeps ?_) (by simp [hr]) hversion
    exact LockFrame.updateRequest (by simp [hr]) fun _ => rfl

/-- The cascade of `save` to the courses of the request. -/
theorem wp_saveCourses {Q : Context C Db Row Job → Unit → Snapshot C Db Job α → Prop}
    {rows : List (MaterialRequestCourse × Option MaterialRequestCourse)}
    (hids : ∀ p ∈ rows, p.1.id ∈ ids)
    (hquiet : ∀ u wants v, u.call = call → u.out = [] → P.Local u wants v) (hcall : t.call = call)
    (hout : t.out = []) (hheld : .request r ∈ t.held) (hinv : P.Inv s)
    (hQ : ∀ u v, Ran P (Owns r ids) t u s v (fun db => rows.foldl saveCourseIn db) → Q u () v) :
    P.Wp Q (forEach rows saveCourse) t s := by
  refine wp_forEach (Owns r ids) [.request r] (F := saveCourseIn) rows ?_ hcall hout
    (by simpa using hheld) hinv hQ
  rintro ⟨entity, reread⟩ hmem t s Q hcall hout hheld hinv hQ
  cases reread with
  | none => exact hQ t s (.waited .refl hinv)
  | some reread =>
    unfold saveCourse
    by_cases hsame : entity = reread
    · simp only [hsame, if_true]
      refine hQ t s ?_
      simpa [saveCourseIn, hsame] using Ran.waited .refl hinv
    · simp only [hsame, if_false]
      refine wp_update hquiet hcall hout (fun v db howns => howns.keeps ?_) hQ
      have hlocked : .request r ∈ t.held := hheld (List.mem_cons_self ..)
      simp only [saveCourseIn, hsame, if_false]
      refine LockFrame.updateCourse (by simp) (fun _ => rfl) (fun _ => rfl) ?_
      intro c hc
      obtain ⟨c', hc', hr⟩ := howns entity.id (hids _ hmem)
      rw [hc] at hc'
      cases hc'
      simp [hr, hlocked]

/-- What `manager.save(request)` writes: the request with version `n`, then the courses
that differ from what was read again. -/
def saveIn (entity reread : MaterialRequest) (n : ℕ)
    (rows : List (MaterialRequestCourse × Option MaterialRequestCourse)) (db : Db) : Db :=
  rows.foldl saveCourseIn (saveRequestIn entity reread n db)

/-- Between `s` and `v` the transaction has read a request and its courses again, one after
the other. -/
def Rereads (P : Protocol C Db Row Job α) (t : Context C Db Row Job) (entity : MaterialRequest)
    (courses : List MaterialRequestCourse) (reread : MaterialRequest)
    (rows : List (MaterialRequestCourse × Option MaterialRequestCourse))
    (s v : Snapshot C Db Job α) : Prop :=
  ∃ w₁ w₂, P.After t.held s w₁ ∧ P.After t.held w₁ w₂ ∧ P.After t.held w₂ v ∧
    (t.view w₁).requests.find entity.id = some reread ∧
    rows = courses.map fun c => (c, (t.view w₂).courses.find c.id)

/-- Commits of others come first. -/
theorem Rereads.waitedFor {entity reread : MaterialRequest} {courses : List MaterialRequestCourse}
    {rows : List (MaterialRequestCourse × Option MaterialRequestCourse)}
    {s₀ v : Snapshot C Db Job α} (h : Rereads P t entity courses reread rows s v)
    (hafter : P.After t.held s₀ s) : Rereads P t entity courses reread rows s₀ v := by
  obtain ⟨w₁, w₂, hw₁, hw₂, hv, hreread, hrows⟩ := h
  exact ⟨w₁, w₂, hafter.trans hw₁, hw₂, hv, hreread, hrows⟩

variable (ids) in
/-- `manager.save(request)`. Its version was decided under the lock of the request. -/
theorem wp_save {Q : Context C Db Row Job → ℕ → Snapshot C Db Job α → Prop} {orm : Orm}
    {entity : MaterialRequest} {courses : List MaterialRequestCourse} (hr : entity.id = r)
    (hids : ∀ c ∈ courses, c.id ∈ ids)
    (hquiet : ∀ u wants v, u.call = call → u.out = [] → P.Local u wants v) (hcall : t.call = call)
    (hout : t.out = [])
    (hQ : ∀ u n v reread rows v₁, Ran P (Owns r ids) t u s v (saveIn entity reread n rows) →
      .request r ∈ u.held → Rereads P t entity courses reread rows s v₁ →
      P.After t.held s v₁ → P.After [.request r] v₁ v →
      savedVersion orm entity reread (t.view v₁) = some n → Q u n v) :
    P.Wp Q (save orm entity courses) t s := by
  refine wp_select (hquiet t _ s hcall hout) fun v₁ hafter₁ hinv₁ => ?_
  refine wp_select (hquiet t _ v₁ hcall hout) fun v₂ hafter₂ hinv₂ => ?_
  set rows := courses.map fun c => (c, (t.view v₂).courses.find c.id) with hrows
  have hfst : rows.map Prod.fst = courses := by simp [hrows, Function.comp_def]
  cases hreread : (t.view v₁).requests.find entity.id with
  | none => exact hquiet t _ v₂ hcall hout
  | some reread =>
    refine (wp_bind _ _ _ _ _).mpr ?_
    refine wp_saveRequestRow ids hr hquiet hcall hout fun u n v₃ hran hheld hversion => ?_
    have hrowIds : ∀ p ∈ rows, p.1.id ∈ ids := by
      intro p hp
      exact hids p.1 (hfst ▸ List.mem_map_of_mem hp)
    refine (wp_bind _ _ _ _ _).mpr ?_
    refine wp_saveCourses hrowIds hquiet (hran.extended.call.trans hcall) (hran.out.trans hout)
      hheld hran.inv fun w v₄ hrest => ?_
    have hfirst := hran.waitedFor (hafter₁.trans hafter₂)
    have hreads : Rereads P t entity courses reread rows s v₃ :=
      ⟨v₁, v₂, hafter₁, hafter₂, hran.after, hreread, hrows⟩
    refine hQ w n v₄ reread rows v₃ (hfirst.trans hrest) (hrest.extended.held hheld) hreads
      hfirst.after ?_ hversion
    exact hrest.after.mono (by simpa using hheld)

/-- `UPDATE` of the material of the request, when it has one. -/
def materialStatusIn (request : MaterialRequest) (status : MaterialRequestStatus) (db : Db) : Db :=
  match request.materialId with
  | none => db
  | some m => setMaterialStatus m status db

variable (ids) in
/-- The material update of an approval. -/
theorem wp_updateMaterialStatus {Q : Context C Db Row Job → Unit → Snapshot C Db Job α → Prop}
    {request : MaterialRequest} {status : MaterialRequestStatus}
    (hquiet : ∀ u wants v, u.call = call → u.out = [] → P.Local u wants v) (hcall : t.call = call)
    (hout : t.out = []) (hinv : P.Inv s)
    (hQ : ∀ u v, Ran P (Owns r ids) t u s v (materialStatusIn request status) → Q u () v) :
    P.Wp Q (updateMaterialStatus request status) t s := by
  unfold updateMaterialStatus
  unfold materialStatusIn at hQ
  cases hm : request.materialId with
  | none =>
    rw [hm] at hQ
    exact hQ t s (.waited .refl hinv)
  | some m =>
    rw [hm] at hQ
    exact wp_update hquiet hcall hout (fun _ _ howns => howns.keeps .updateMaterial) hQ

/-- The jobs of an approval: one for each course, in their order. -/
def JobsFor (courses : List MaterialRequestCourse) (jobs : List Job) : Prop :=
  List.Forall₂ (fun c job => ∃ data, job = Job.generate data ∧ data.jobId = c.id) courses jobs

/-- The jobs are collected without any write. -/
theorem wp_collectJobs {Q : Context C Db Row Job → List Job → Snapshot C Db Job α → Prop}
    {ctx : MaterialReviewContext} {request : MaterialRequest} {company : Option Company}
    {template : Option CycleMaterialTemplate} {courses : List MaterialRequestCourse}
    (hquiet : ∀ u wants v, u.call = call → u.out = [] → P.Local u wants v) (hcall : t.call = call)
    (hout : t.out = []) (hinv : P.Inv s)
    (hQ : ∀ jobs v, P.After t.held s v → P.Inv v → JobsFor courses jobs → Q t jobs v) :
    P.Wp Q (collectJobs ctx request company template courses) t s := by
  induction courses generalizing s Q with
  | nil => exact hQ [] s .refl hinv .nil
  | cons course courses ih =>
    refine wp_select (hquiet t _ s hcall hout) fun v₁ hafter₁ hinv₁ => ?_
    have hrest : ∀ distributions v₂, P.After t.held s v₂ → P.Inv v₂ →
        P.Wp Q ((collectJobs ctx request company template courses).bind fun jobs =>
          .done (generateJob ctx request company template course distributions :: jobs)) t v₂ := by
      intro distributions v₂ hafter₂ hinv₂
      refine (wp_bind _ _ _ _ _).mpr ?_
      refine ih hinv₂ fun jobs v₃ hafter₃ hinv₃ hjobs => ?_
      exact hQ _ v₃ (hafter₂.trans hafter₃) hinv₃ (.cons ⟨_, rfl, rfl⟩ hjobs)
    split
    · refine wp_select (hquiet t _ v₁ hcall hout) fun v₂ hafter₂ hinv₂ => ?_
      exact hrest _ v₂ (hafter₁.trans hafter₂) hinv₂
    · exact hrest [] v₁ hafter₁ hinv₁

end Rules

/-- `save` writes the request and courses, and nothing else. -/
theorem saveIn_eq (entity reread : MaterialRequest) (n : ℕ)
    (rows : List (MaterialRequestCourse × Option MaterialRequestCourse)) (db : Db) :
    ∃ courses, saveIn entity reread n rows db =
      { saveRequestIn entity reread n db with courses := courses } := by
  have hrow : ∀ (db : Db) p, ∃ courses, saveCourseIn db p = { db with courses := courses } := by
    intro db p
    unfold saveCourseIn
    split
    · exact ⟨db.courses, rfl⟩
    · split
      · exact ⟨db.courses, rfl⟩
      · exact ⟨_, rfl⟩
  have hrows : ∀ db : Db, ∃ courses, rows.foldl saveCourseIn db = { db with courses := courses } := by
    induction rows with
    | nil => exact fun db => ⟨db.courses, rfl⟩
    | cons p rows ih =>
      intro db
      obtain ⟨courses, hcourses⟩ := hrow db p
      obtain ⟨rest, hrest⟩ := ih (saveCourseIn db p)
      exact ⟨rest, by rw [List.foldl_cons, hrest, hcourses]⟩
  exact hrows _

/-- `save` writes no slot. -/
@[simp] theorem saveIn_slots (entity reread : MaterialRequest) (n : ℕ)
    (rows : List (MaterialRequestCourse × Option MaterialRequestCourse)) (db : Db) :
    (saveIn entity reread n rows db).slots = db.slots := by
  obtain ⟨courses, h⟩ := saveIn_eq entity reread n rows db
  rw [h]
  rfl

/-- Of the requests `save` writes the one it saves. -/
@[simp] theorem saveIn_requests (entity reread : MaterialRequest) (n : ℕ)
    (rows : List (MaterialRequestCourse × Option MaterialRequestCourse)) (db : Db) :
    (saveIn entity reread n rows db).requests = (saveRequestIn entity reread n db).requests := by
  obtain ⟨courses, h⟩ := saveIn_eq entity reread n rows db
  rw [h]

/-- Looking a request up after `save`. -/
theorem find_requests_saveIn (entity reread : MaterialRequest) (n : ℕ)
    (rows : List (MaterialRequestCourse × Option MaterialRequestCourse)) (k : RequestId) (db : Db) :
    (saveIn entity reread n rows db).requests.find k =
      if k = entity.id then
        (db.requests.find k).map fun row =>
          { saveRequestColumns entity reread row with version := n }
      else db.requests.find k := by
  rw [saveIn_requests]
  exact find_updateRequest _ _ _ _ _

/-- A use case of the review of request `id` has run its last statement at `v`. Since
`v₁` it holds the lock of the request. -/
structure Reviewed (P : Protocol C Db Row Job α) (id : RequestId) (ids : List CourseRequestId)
    (t u : Context C Db Row Job) (v₁ v : Snapshot C Db Job α) (F : Db → Db) : Prop where
  call : u.call = t.call
  since : u.since = t.since
  out : u.out = []
  held : .request id ∈ u.held
  framed : Framed (Owns id ids) u
  owns : Owns id ids v.db
  locked : P.After [.request id] v₁ v
  log : ∀ db, u.log db = F db

/-- What is known of a review that has run its statements stays true while others commit. -/
theorem Reviewed.mono (hguar : ∀ held a b, P.Guar held a b → LockFrame held a.db b.db)
    {id : RequestId} {ids : List CourseRequestId} {t u : Context C Db Row Job}
    {v₁ v v' : Snapshot C Db Job α} {F : Db → Db} (h : Reviewed P id ids t u v₁ v F)
    (hafter : P.After u.held v v') : Reviewed P id ids t u v₁ v' F :=
  { h with
    owns := h.owns.of_protected (protected_of_after hguar hafter)
    locked := h.locked.trans (hafter.mono (by simpa using h.held)) }

/-- The commit of a review obeys the lock discipline. -/
theorem Reviewed.lockFrame {id : RequestId} {ids : List CourseRequestId}
    {t u : Context C Db Row Job} {v₁ v : Snapshot C Db Job α} {F : Db → Db}
    (h : Reviewed P id ids t u v₁ v F) : LockFrame u.held v.db (u.log v.db) :=
  (h.framed v.db h.owns).1

/-- The courses that are loaded with a request belong to it. -/
theorem owns_coursesOf (id : RequestId) (db : Db) : Owns id ((db.coursesOf id).map (·.id)) db := by
  intro k hk
  obtain ⟨c, hc, rfl⟩ := List.mem_map.mp hk
  obtain ⟨hfind, hr⟩ := Db.mem_coursesOf.mp hc
  exact ⟨c, hfind, hr⟩

/-- The entity of a request that a review read has just opened. -/
def inReview (q : MaterialRequest) : MaterialRequest := { q with status := .inReview }

@[simp] theorem bumpIn_slots (id : RequestId) (db : Db) : (bumpIn id db).slots = db.slots := rfl

@[simp] theorem bumpIn_courses (id : RequestId) (db : Db) :
    (bumpIn id db).courses = db.courses := rfl

/-- What a draft or an approval of request `r` makes of a slot. -/
def editQuestion (r : RequestId) (dto : ApproveReview) (q : MaterialReviewQuestion) :
    MaterialReviewQuestion :=
  dto.removals.foldl (fun q id => if q.id = id then removeQuestion r q else q)
    (dto.replacements.foldl
      (fun q item => if q.id = item.reviewQuestionId then replaceQuestion r item q else q) q)

/-- The slots of a request after the slot updates. -/
theorem slotsOf_editSlots (r k : RequestId) (dto : ApproveReview) (db : Db) :
    (editSlots r dto db).slotsOf k = (db.slotsOf k).map (editQuestion r dto) := by
  have hkeepReplace : ∀ (item : ReplacementItem) q,
      (replaceQuestion r item q).materialRequestId = q.materialRequestId := by
    intro item q
    unfold replaceQuestion
    split <;> rfl
  have hkeepRemove : ∀ q, (removeQuestion r q).materialRequestId = q.materialRequestId := by
    intro q
    unfold removeQuestion
    split <;> rfl
  have hreplace : ∀ db : Db, (dto.replacements.foldl (replaceIn r) db).slotsOf k =
      (db.slotsOf k).map fun q => dto.replacements.foldl
        (fun q item => if q.id = item.reviewQuestionId then replaceQuestion r item q else q) q := by
    induction dto.replacements with
    | nil => simp
    | cons item items ih =>
      intro db
      rw [List.foldl_cons, ih, replaceIn, slotsOf_updateSlot _ _ _ _ _ (hkeepReplace item),
        List.map_map]
      rfl
  have hremove : ∀ db : Db, (dto.removals.foldl (removeIn r) db).slotsOf k =
      (db.slotsOf k).map fun q => dto.removals.foldl
        (fun q id => if q.id = id then removeQuestion r q else q) q := by
    induction dto.removals with
    | nil => simp
    | cons id ids ih =>
      intro db
      rw [List.foldl_cons, ih, removeIn, slotsOf_updateSlot _ _ _ _ _ hkeepRemove, List.map_map]
      rfl
  rw [editSlots, hremove, hreplace, List.map_map]
  rfl

/-- The slot updates write slots, and nothing else. -/
theorem editSlots_eq (id : RequestId) (dto : ApproveReview) (db : Db) :
    ∃ slots, editSlots id dto db = { db with slots := slots } := by
  have hreplace : ∀ db : Db, ∃ slots,
      dto.replacements.foldl (replaceIn id) db = { db with slots := slots } := by
    induction dto.replacements with
    | nil => exact fun db => ⟨db.slots, rfl⟩
    | cons x xs ih => exact fun db => ih (replaceIn id db x)
  have hremove : ∀ db : Db, ∃ slots,
      dto.removals.foldl (removeIn id) db = { db with slots := slots } := by
    induction dto.removals with
    | nil => exact fun db => ⟨db.slots, rfl⟩
    | cons x xs ih => exact fun db => ih (removeIn id db x)
  obtain ⟨slots, hslots⟩ := hreplace db
  obtain ⟨slots', hslots'⟩ := hremove (dto.replacements.foldl (replaceIn id) db)
  exact ⟨slots', by rw [editSlots, hslots', hslots]⟩

/-- The slot updates write no request. -/
@[simp] theorem editSlots_requests (id : RequestId) (dto : ApproveReview) (db : Db) :
    (editSlots id dto db).requests = db.requests := by
  obtain ⟨slots, h⟩ := editSlots_eq id dto db
  rw [h]

/-- The slot updates write no course. -/
@[simp] theorem editSlots_courses (id : RequestId) (dto : ApproveReview) (db : Db) :
    (editSlots id dto db).courses = db.courses := by
  obtain ⟨slots, h⟩ := editSlots_eq id dto db
  rw [h]

/-- The slot updates write no ledger row. -/
@[simp] theorem editSlots_usages (id : RequestId) (dto : ApproveReview) (db : Db) :
    (editSlots id dto db).usages = db.usages := by
  obtain ⟨slots, h⟩ := editSlots_eq id dto db
  rw [h]

/-- The last part of an approval: the request is saved with its new status, its material
follows, and the courses take the statuses of `updates`. -/
def finishIn (entity reread : MaterialRequest) (n : ℕ)
    (rows : List (MaterialRequestCourse × Option MaterialRequestCourse))
    (updates : List (List CourseRequestId × CourseMaterialStatus)) (db : Db) : Db :=
  updates.foldl (fun db p => setCourseStatuses p.1 p.2 db)
    (materialStatusIn entity entity.status (saveIn entity reread n rows db))

/-- The last part of an approval writes the request, its material and courses. -/
theorem finishIn_eq (entity reread : MaterialRequest) (n : ℕ)
    (rows : List (MaterialRequestCourse × Option MaterialRequestCourse))
    (updates : List (List CourseRequestId × CourseMaterialStatus)) (db : Db) :
    ∃ courses materials, finishIn entity reread n rows updates db =
      { saveRequestIn entity reread n db with courses := courses, materials := materials } := by
  have hupdates : ∀ db : Db, ∃ courses,
      updates.foldl (fun db p => setCourseStatuses p.1 p.2 db) db =
        { db with courses := courses } := by
    induction updates with
    | nil => exact fun db => ⟨db.courses, rfl⟩
    | cons p ps ih =>
      intro db
      obtain ⟨courses, hcourses⟩ := setCourseStatuses_eq p.1 p.2 db
      obtain ⟨rest, hrest⟩ := ih (setCourseStatuses p.1 p.2 db)
      exact ⟨rest, by rw [List.foldl_cons, hrest, hcourses]⟩
  have hmaterial : ∀ db : Db, ∃ materials,
      materialStatusIn entity entity.status db = { db with materials := materials } := by
    intro db
    unfold materialStatusIn
    split
    · exact ⟨db.materials, rfl⟩
    · exact ⟨_, rfl⟩
  obtain ⟨saved, hsaved⟩ := saveIn_eq entity reread n rows db
  obtain ⟨materials, hmaterials⟩ := hmaterial (saveIn entity reread n rows db)
  obtain ⟨courses, hcourses⟩ :=
    hupdates (materialStatusIn entity entity.status (saveIn entity reread n rows db))
  exact ⟨courses, materials, by rw [finishIn, hcourses, hmaterials, hsaved]⟩

/-- After its edits an approval writes no slot. -/
@[simp] theorem finishIn_slots (entity reread : MaterialRequest) (n : ℕ)
    (rows : List (MaterialRequestCourse × Option MaterialRequestCourse))
    (updates : List (List CourseRequestId × CourseMaterialStatus)) (db : Db) :
    (finishIn entity reread n rows updates db).slots = db.slots := by
  obtain ⟨courses, materials, h⟩ := finishIn_eq entity reread n rows updates db
  rw [h]
  rfl

/-- An approval writes no ledger row. -/
@[simp] theorem finishIn_usages (entity reread : MaterialRequest) (n : ℕ)
    (rows : List (MaterialRequestCourse × Option MaterialRequestCourse))
    (updates : List (List CourseRequestId × CourseMaterialStatus)) (db : Db) :
    (finishIn entity reread n rows updates db).usages = db.usages := by
  obtain ⟨courses, materials, h⟩ := finishIn_eq entity reread n rows updates db
  rw [h]
  rfl

/-- Of the requests an approval writes the one it saves. -/
@[simp] theorem finishIn_requests (entity reread : MaterialRequest) (n : ℕ)
    (rows : List (MaterialRequestCourse × Option MaterialRequestCourse))
    (updates : List (List CourseRequestId × CourseMaterialStatus)) (db : Db) :
    (finishIn entity reread n rows updates db).requests =
      (saveIn entity reread n rows db).requests := by
  obtain ⟨courses, materials, h⟩ := finishIn_eq entity reread n rows updates db
  rw [h, saveIn_requests]

/-- A course that does not differ from what was read again is left alone. -/
theorem saveCourseColumns_self (entity row : MaterialRequestCourse) :
    saveCourseColumns entity entity row = row := by
  simp [saveCourseColumns, saved]

/-- Looking a course up after the cascade of `save` to one course. -/
theorem find_courses_saveCourseIn (entity : MaterialRequestCourse)
    (reread : Option MaterialRequestCourse) (k : CourseRequestId) (db : Db) :
    (saveCourseIn db (entity, reread)).courses.find k =
      if k = entity.id then
        (db.courses.find k).map fun row =>
          reread.elim row fun reread => saveCourseColumns entity reread row
      else db.courses.find k := by
  cases reread with
  | none =>
    simp only [saveCourseIn, Option.elim_none, Option.map_id_fun', id_eq, ite_self]
  | some reread =>
    by_cases hsame : entity = reread
    · subst hsame
      simp only [saveCourseIn, if_true, Option.elim_some, saveCourseColumns_self,
        Option.map_id_fun', id_eq, ite_self]
    · simp only [saveCourseIn, if_neg hsame, Option.elim_some]
      exact find_updateCourse _ _ _ _ _

/-- The cascade of `save` writes no course that was not loaded into the request. -/
theorem find_courses_saveCourses_of_not_mem
    {rows : List (MaterialRequestCourse × Option MaterialRequestCourse)} {k : CourseRequestId}
    (hk : k ∉ (rows.map Prod.fst).map (·.id)) (db : Db) :
    (rows.foldl saveCourseIn db).courses.find k = db.courses.find k := by
  induction rows generalizing db with
  | nil => rfl
  | cons p rows ih =>
    simp only [List.map_cons, List.mem_cons, not_or] at hk
    rw [List.foldl_cons, ih hk.2, find_courses_saveCourseIn, if_neg hk.1]

/-- The cascade of `save` writes each course that was loaded into the request once. -/
theorem find_courses_saveCourses
    {rows : List (MaterialRequestCourse × Option MaterialRequestCourse)}
    (hnodup : ((rows.map Prod.fst).map (·.id)).Nodup) {c : MaterialRequestCourse}
    {read : Option MaterialRequestCourse} (hc : (c, read) ∈ rows) (db : Db) :
    (rows.foldl saveCourseIn db).courses.find c.id =
      (db.courses.find c.id).map fun row =>
        read.elim row fun read => saveCourseColumns c read row := by
  induction rows generalizing db with
  | nil => cases hc
  | cons p rows ih =>
    obtain ⟨hfirst, hrest⟩ := List.nodup_cons.mp hnodup
    rw [List.foldl_cons]
    rcases List.mem_cons.mp hc with rfl | hc
    · rw [find_courses_saveCourses_of_not_mem hfirst, find_courses_saveCourseIn, if_pos rfl]
    · have hne : c.id ≠ p.1.id := by
        intro heq
        have hmem : c.id ∈ (rows.map Prod.fst).map (·.id) :=
          List.mem_map_of_mem (List.mem_map_of_mem (f := Prod.fst) hc)
        rw [heq] at hmem
        exact hfirst hmem
      rw [ih hrest hc, find_courses_saveCourseIn, if_neg hne]

/-- The request and the catalog course that a course belongs to. -/
def MaterialRequestCourse.place (c : MaterialRequestCourse) : RequestId × CatalogId :=
  (c.materialRequestId, c.courseId)

/-- The cascade of `save` creates and deletes no course, and moves none. -/
theorem place_saveCourses (rows : List (MaterialRequestCourse × Option MaterialRequestCourse))
    (k : CourseRequestId) (db : Db) :
    ((rows.foldl saveCourseIn db).courses.find k).map (·.place) =
      (db.courses.find k).map (·.place) := by
  have hkeep : ∀ (p : MaterialRequestCourse × Option MaterialRequestCourse) row,
      (p.2.elim row fun reread => saveCourseColumns p.1 reread row).place = row.place := by
    rintro ⟨_, _ | _⟩ row <;> rfl
  induction rows generalizing db with
  | nil => rfl
  | cons p rows ih =>
    rw [List.foldl_cons, ih, find_courses_saveCourseIn]
    split
    · simp only [Option.map_map, Function.comp_def, hkeep]
    · rfl

@[simp] theorem saveRequestIn_courses (entity reread : MaterialRequest) (n : ℕ) (db : Db) :
    (saveRequestIn entity reread n db).courses = db.courses := rfl

@[simp] theorem materialStatusIn_courses (request : MaterialRequest)
    (status : MaterialRequestStatus) (db : Db) :
    (materialStatusIn request status db).courses = db.courses := by
  unfold materialStatusIn
  split <;> rfl

/-- What an approval decides for the request in memory with its courses, once the edits
are in: its answer, the entity that it saves and the statuses that the courses take. -/
inductive Decides (dto : ApproveReview) (request : MaterialRequest)
    (courses : List MaterialRequestCourse) (hasEmpty : Bool) :
    ApprovalResult → MaterialRequest → List (List CourseRequestId × CourseMaterialStatus) → Prop
  /-- The PDFs exist and the client sends no edit: nothing is generated. -/
  | bypass (status : MaterialRequestStatus) (hgenerated : alreadyGenerated courses = true)
      (hchanges : dto.noChanges = true)
      (hstatus : status = if hasEmpty then .completedWithWarnings else .completed) :
      Decides dto request courses hasEmpty
        ⟨some status, "Revisión aprobada sin cambios. El documento existente se mantiene.", []⟩
        { request with status := status }
        [((courses.filter fun c => c.warnings.isSome).map (·.id), .completedWithWarnings),
          ((courses.filter fun c => c.warnings.isNone).map (·.id), .completed)]
  /-- Every course is generated again. -/
  | regenerate (jobs : List Job)
      (hneeded : (alreadyGenerated courses && dto.noChanges) = false)
      (hjobs : JobsFor courses jobs) :
      Decides dto request courses hasEmpty
        ⟨some .processing, "Generación de PDFs iniciada", jobs⟩
        { request with status := .processing }
        [(courses.map (·.id), .processing)]

/-- What an approval writes after the edits. -/
structure Approval where
  /-- The entity that `save` writes. -/
  entity : MaterialRequest
  /-- The row that `save` read again. -/
  reread : MaterialRequest
  /-- The version that `save` gives to the request. -/
  version : ℕ
  /-- The courses that `save` writes, each with the row that it read again. -/
  rows : List (MaterialRequestCourse × Option MaterialRequestCourse)
  /-- The statuses that the courses take. -/
  updates : List (List CourseRequestId × CourseMaterialStatus)

/-- The effect of an approval of request `id`. -/
def approveIn (id : RequestId) (dto : ApproveReview) (a : Approval) (db : Db) : Db :=
  finishIn a.entity a.reread a.version a.rows a.updates (editSlots id dto (bumpIn id db))

/-- On the database `db` the approval of request `id`, loaded as `q` with its courses,
answers `result` and writes `a`. -/
structure Approves (orm : Orm) (id : RequestId) (dto : ApproveReview) (q : MaterialRequest)
    (courses : List MaterialRequestCourse) (result : ApprovalResult) (a : Approval) (db : Db) :
    Prop where
  /-- The row had the version of the client. -/
  current : versionMatches id dto.version db = true
  decides : Decides dto { q with version := dto.version + 1 } courses
    (hasEmpty ((editSlots id dto db).slotsOf id)) result a.entity a.updates
  /-- Empty slots are left only with the consent of the client. -/
  consent : hasEmpty ((editSlots id dto db).slotsOf id) = true → dto.continueWithWarnings = true
  saved : savedVersion orm a.entity a.reread (bumpIn id db) = some a.version
  rows : a.rows.map Prod.fst = courses

/-- What the approval of request `id` has read again is what the database `db` holds. -/
structure Approval.Current (id : RequestId) (courses : List MaterialRequestCourse) (a : Approval)
    (db : Db) : Prop where
  reread : (bumpIn id db).requests.find id = some a.reread
  rows : a.rows = courses.map fun c => (c, db.courses.find c.id)

/-- A course of a request is found by its identifier among the courses of the request. -/
theorem find_of_coursesOf {id : RequestId} {ids : List CourseRequestId} {a b : Db}
    {k : CourseRequestId} (howns : Owns id ids a) (hk : k ∈ ids)
    (hcourses : b.coursesOf id = a.coursesOf id) : b.courses.find k = a.courses.find k := by
  obtain ⟨c, hc, hr⟩ := howns k hk
  have hmem : c ∈ b.coursesOf id := by
    rw [hcourses]
    have hkey := Db.course_id_of_find hc
    exact Db.mem_coursesOf.mpr ⟨hkey ▸ hc, hr⟩
  have hfound := (Db.mem_coursesOf.mp hmem).1
  rw [Db.course_id_of_find hc] at hfound
  rw [hfound, hc]

/-- What an approval has read again is protected by the lock of its request. -/
theorem Approval.Current.congr {id : RequestId} {courses : List MaterialRequestCourse}
    {a : Approval} {db db' : Db} (h : a.Current id courses db)
    (howns : Owns id (courses.map (·.id)) db) (hcourses : db'.coursesOf id = db.coursesOf id)
    (hrequest : db'.requests.find id = db.requests.find id) : a.Current id courses db' := by
  refine ⟨?_, ?_⟩
  · rw [← h.reread, bumpIn, find_updateRequest, find_updateRequest, hrequest]
  · rw [h.rows]
    apply List.map_congr_left
    intro c hc
    rw [find_of_coursesOf howns (List.mem_map_of_mem hc) hcourses]

/-- An approval only reads what the lock of its request protects. -/
theorem Approves.congr {orm : Orm} {id : RequestId} {dto : ApproveReview} {q : MaterialRequest}
    {courses : List MaterialRequestCourse} {result : ApprovalResult} {a : Approval} {db db' : Db}
    (h : Approves orm id dto q courses result a db) (hentity : a.entity.id = id)
    (hslots : db'.slotsOf id = db.slotsOf id)
    (hrequest : db'.requests.find id = db.requests.find id) :
    Approves orm id dto q courses result a db' := by
  have hedited : (editSlots id dto db').slotsOf id = (editSlots id dto db).slotsOf id := by
    rw [slotsOf_editSlots, slotsOf_editSlots, hslots]
  have hsaved : savedVersion orm a.entity a.reread (bumpIn id db') =
      savedVersion orm a.entity a.reread (bumpIn id db) := by
    simp only [savedVersion, hentity, bumpIn, find_updateRequest, hrequest]
  refine ⟨?_, ?_, ?_, hsaved.trans h.saved, h.rows⟩
  · rw [versionMatches, hrequest]
    exact h.current
  · rw [hedited]
    exact h.decides
  · rw [hedited]
    exact h.consent

/-- An approval saves the request it was called for. -/
theorem Decides.entity_id {dto : ApproveReview} {request entity : MaterialRequest}
    {courses : List MaterialRequestCourse} {empty : Bool} {result : ApprovalResult}
    {updates : List (List CourseRequestId × CourseMaterialStatus)}
    (h : Decides dto request courses empty result entity updates) : entity.id = request.id := by
  cases h <;> rfl

/-- An approval writes no course that it did not load. -/
theorem Decides.updates_subset {dto : ApproveReview} {request entity : MaterialRequest}
    {courses : List MaterialRequestCourse} {empty : Bool} {result : ApprovalResult}
    {updates : List (List CourseRequestId × CourseMaterialStatus)}
    (h : Decides dto request courses empty result entity updates) :
    ∀ p ∈ updates, p.1 ⊆ courses.map (·.id) := by
  cases h with
  | bypass status hgenerated hchanges hstatus =>
    simp only [List.mem_cons, List.not_mem_nil, or_false, forall_eq_or_imp, forall_eq]
    exact ⟨List.map_subset _ (List.filter_subset_self _),
      List.map_subset _ (List.filter_subset_self _)⟩
  | regenerate jobs hneeded hjobs => simp

/-- An approval leaves the courses of other requests alone. -/
theorem find_courses_approveIn_of_not_mem {orm : Orm} {id : RequestId} {dto : ApproveReview}
    {q : MaterialRequest} {courses : List MaterialRequestCourse} {result : ApprovalResult}
    {a : Approval} {db : Db} {k : CourseRequestId}
    (h : Approves orm id dto q courses result a db) (hk : k ∉ courses.map (·.id)) :
    (approveIn id dto a db).courses.find k = db.courses.find k := by
  have hupdates : ∀ (updates : List (List CourseRequestId × CourseMaterialStatus)) (db : Db),
      (∀ p ∈ updates, p.1 ⊆ courses.map (·.id)) →
      (updates.foldl (fun db p => setCourseStatuses p.1 p.2 db) db).courses.find k =
        db.courses.find k := by
    intro updates
    induction updates with
    | nil => exact fun _ _ => rfl
    | cons p ps ih =>
      intro db hsub
      have hnot : k ∉ p.1 := fun hmem => hk (hsub p (List.mem_cons_self ..) hmem)
      rw [List.foldl_cons, ih _ fun x hx => hsub x (List.mem_cons_of_mem p hx),
        find_courses_setCourseStatuses, if_neg hnot]
  rw [approveIn, finishIn, hupdates _ _ h.decides.updates_subset, materialStatusIn_courses,
    saveIn, find_courses_saveCourses_of_not_mem (by rw [h.rows]; exact hk)]
  rw [saveRequestIn_courses, editSlots_courses, bumpIn_courses]

/-- An approval that dispatches jobs leaves its courses with the worker. -/
theorem status_of_approveIn {orm : Orm} {id : RequestId} {dto : ApproveReview}
    {q : MaterialRequest} {courses : List MaterialRequestCourse} {result : ApprovalResult}
    {a : Approval} {db : Db} {k : CourseRequestId} {row : MaterialRequestCourse}
    (h : Approves orm id dto q courses result a db) (hjobs : result.jobsToDispatch ≠ [])
    (hk : k ∈ courses.map (·.id)) (hrow : (approveIn id dto a db).courses.find k = some row) :
    row.status = .processing := by
  have hdecides := h.decides
  rw [approveIn, finishIn] at hrow
  generalize a.entity = entity at hdecides hrow
  generalize a.updates = updates at hdecides hrow
  cases hdecides with
  | bypass status hgenerated hchanges hstatus => exact absurd rfl hjobs
  | regenerate jobs hneeded _ =>
    rw [List.foldl_cons, List.foldl_nil, find_courses_setCourseStatuses, if_pos hk] at hrow
    obtain ⟨c, _, rfl⟩ := Option.map_eq_some_iff.mp hrow
    rfl

/-- The jobs of an approval are those of its courses. -/
theorem Decides.job_mem {dto : ApproveReview} {request entity : MaterialRequest}
    {courses : List MaterialRequestCourse} {empty : Bool} {result : ApprovalResult}
    {updates : List (List CourseRequestId × CourseMaterialStatus)}
    (h : Decides dto request courses empty result entity updates) {data : GenerateJob}
    (hjob : Job.generate data ∈ result.jobsToDispatch) : data.jobId ∈ courses.map (·.id) := by
  cases h with
  | bypass status hgenerated hchanges hstatus => cases hjob
  | regenerate jobs hneeded hjobs =>
    obtain ⟨n, hn, hget⟩ := List.getElem_of_mem hjob
    obtain ⟨hlength, hall⟩ := List.forall₂_iff_get.mp hjobs
    obtain ⟨data', hdata, hid⟩ := hall n (hlength ▸ hn) hn
    rw [List.get_eq_getElem, hget] at hdata
    cases hdata
    rw [hid]
    exact List.mem_map_of_mem (List.getElem_mem _)

/-- Until an approval commits, the lock of its request keeps everything that it has read. -/
theorem Reviewed.approves_mono (hguar : ∀ held a b, P.Guar held a b → LockFrame held a.db b.db)
    {orm : Orm} {id : RequestId} {dto : ApproveReview} {q : MaterialRequest}
    {courses : List MaterialRequestCourse} {result : ApprovalResult} {a : Approval}
    {t u : Context C Db Row Job} {v₁ v v' : Snapshot C Db Job α} (hid : q.id = id)
    (h : Reviewed P id (courses.map (·.id)) t u v₁ v (approveIn id dto a))
    (happroves : Approves orm id dto q courses result a v.db) (hknown : a.Current id courses v.db)
    (hafter : P.After u.held v v') :
    Approves orm id dto q courses result a v'.db ∧ a.Current id courses v'.db ∧
      Reviewed P id (courses.map (·.id)) t u v₁ v' (approveIn id dto a) := by
  have hentity : a.entity.id = id := happroves.decides.entity_id.trans hid
  have hlocked := protected_of_after hguar hafter
  refine ⟨?_, ?_, h.mono hguar hafter⟩
  · exact happroves.congr hentity (hlocked.slots id h.held) (hlocked.request id h.held)
  · exact hknown.congr h.owns (hlocked.courses id h.held) (hlocked.request id h.held)

section UseCases

variable {t : Context C Db Row Job} {s : Snapshot C Db Job α} {orm : Orm} {id : RequestId}

/-- **A review read** of a request that it loads at `v₀`. It writes nothing, or it saves
the request as being in review, with the version that it answers. -/
theorem wp_getMaterialReview {Q : Context C Db Row Job → ReviewData → Snapshot C Db Job α → Prop}
    (hguar : ∀ held a b, P.Guar held a b → LockFrame held a.db b.db)
    (hlog : ∀ db, t.log db = db) (hheld : t.held = []) (hout : t.out = [])
    (hquiet : ∀ u wants v, u.call = t.call → u.out = [] → P.Local u wants v)
    (hread : ∀ q v₀ v, P.After [] s v₀ → P.Inv v₀ → v₀.db.requests.find id = some q →
      q.status ≠ .reviewRequired → P.After [] v₀ v → P.Inv v →
      Q t ⟨q.id, q.status, q.version, orderByPosition (v.db.slotsOf q.id)⟩ v)
    (hopen : ∀ u q n reread rows v₀ v₁ v, P.After [] s v₀ → P.Inv v₀ →
      v₀.db.requests.find id = some q → q.status = .reviewRequired → P.After [] v₀ v₁ →
      savedVersion orm (inReview q) reread v₁.db = some n → P.Inv v →
      Reviewed P id ((v₀.db.coursesOf id).map (·.id)) t u v₁ v
        (saveIn (inReview q) reread n rows) →
      Rereads P t (inReview q) (v₀.db.coursesOf id) reread rows v₀ v₁ →
      Q u ⟨q.id, .inReview, n, orderByPosition (v.db.slotsOf q.id)⟩ v) :
    P.Wp Q (getMaterialReview orm id) t s := by
  refine wp_select (hquiet t _ s rfl hout) fun v₀ hafter₀ hinv₀ => ?_
  have hview : ∀ v : Snapshot C Db Job α, t.view v = v.db := fun v => hlog v.db
  rw [hheld] at hafter₀
  rw [hview]
  cases hfind : v₀.db.requests.find id with
  | none => exact hquiet t _ v₀ rfl hout
  | some q =>
    have hid : q.id = id := Db.request_id_of_find hfind
    simp only [Option.map_some]
    by_cases hstatus : q.status = .reviewRequired
    · rw [if_pos hstatus]
      refine (wp_bind _ _ _ _ _).mpr ?_
      refine wp_save ((v₀.db.coursesOf id).map (·.id)) (r := id) hid
        (fun c hc => List.mem_map_of_mem hc) hquiet rfl hout ?_
      intro u n v₂ reread rows v₁ hran hheld₂ hreads hafter₁ hlocked hversion
      have hcall : u.call = t.call := hran.extended.call
      refine wp_select (hquiet u _ v₂ hcall (hran.out.trans hout)) fun v₃ hafter₃ hinv₃ => ?_
      rw [hheld] at hafter₁
      rw [hview] at hversion
      have hlogu : ∀ db, u.log db = saveIn (inReview q) reread n rows db := by
        intro db
        rw [hran.log, hlog]
        rfl
      have hslots : (u.view v₃).slotsOf q.id = v₃.db.slotsOf q.id := by
        simp only [Context.view, hlogu, Db.slotsOf, saveIn_slots]
      have hmine : P.After [] v₀ v₃ :=
        (hran.after.mono (by simp)).trans (hafter₃.mono (by simp))
      have howns := (owns_coursesOf id v₀.db).of_protected (protected_of_after hguar hmine)
      have hframed : Framed (Owns id ((v₀.db.coursesOf id).map (·.id))) t := .of_log hlog
      have hreviewed : Reviewed P id ((v₀.db.coursesOf id).map (·.id)) t u v₁ v₃
          (saveIn (inReview q) reread n rows) :=
        { call := hcall
          since := hran.extended.since
          out := hran.out.trans hout
          held := hheld₂
          framed := hran.framed hframed
          owns := howns
          locked := hlocked.trans (hafter₃.mono (by simpa using hheld₂))
          log := hlogu }
      have hanswer := hopen u q n reread rows v₀ v₁ v₃ hafter₀ hinv₀ hfind hstatus hafter₁ hversion
        hinv₃ hreviewed hreads
      rw [← hslots] at hanswer
      exact hanswer
    · rw [if_neg hstatus]
      refine wp_select (hquiet t _ v₀ rfl hout) fun v hafter hinv => ?_
      rw [hheld] at hafter
      rw [hview]
      exact hread q v₀ v hafter₀ hinv₀ hfind hstatus hafter hinv

/-- **A draft.** It bumps the version of the client under the lock of the request, and
edits the slots. -/
theorem wp_saveDraft {Q : Context C Db Row Job → ApprovalResult → Snapshot C Db Job α → Prop}
    {dto : ApproveReview} (hlog : ∀ db, t.log db = db) (hheld : t.held = []) (hout : t.out = [])
    (hquiet : ∀ u wants v, u.call = t.call → u.out = [] → P.Local u wants v)
    (hQ : ∀ u v₁ v, versionMatches id dto.version v₁.db = true → P.After [] s v₁ → P.Inv v →
      Reviewed P id [] t u v₁ v (fun db => editSlots id dto (bumpIn id db)) →
      Q u ⟨none, "Borrador guardado exitosamente", []⟩ v) :
    P.Wp Q (saveDraft id dto) t s := by
  refine wp_select (hquiet t _ s rfl hout) fun v₀ hafter₀ _ => ?_
  have hview : ∀ v : Snapshot C Db Job α, t.view v = v.db := fun v => hlog v.db
  rw [hheld] at hafter₀
  cases (t.view v₀).requests.find id with
  | none => exact hquiet t _ v₀ rfl hout
  | some _ =>
    refine (wp_bind _ _ _ _ _).mpr ?_
    refine wp_bumpVersion [] (r := id) hquiet rfl hout fun u v₁ hbump hheld₁ hmatch => ?_
    have hafter₁ := hbump.after
    rw [hheld] at hafter₁
    rw [hview] at hmatch
    refine (wp_bind _ _ _ _ _).mpr ?_
    refine wp_applyEdits [] hquiet hbump.extended.call (hbump.out.trans hout) hheld₁ hbump.inv ?_
    intro w v hedit
    have hran := hbump.trans hedit
    refine hQ w v₁ v hmatch (hafter₀.trans hafter₁) hran.inv
      { call := hran.extended.call
        since := hran.extended.since
        out := hran.out.trans hout
        held := hedit.extended.held hheld₁
        framed := hran.framed (.of_log hlog)
        owns := fun _ h => absurd h (by simp)
        locked := hedit.after.mono (by simpa using hheld₁)
        log := ?_ }
    intro db
    rw [hran.log, hlog]

/-- The last part of an approval. -/
theorem wp_decideApproval
    {Q : Context C Db Row Job → ApprovalResult → Snapshot C Db Job α → Prop}
    {dto : ApproveReview} {ctx : MaterialReviewContext} {request : MaterialRequest}
    {courses : List MaterialRequestCourse} {ids : List CourseRequestId} (hid : request.id = id)
    (hids : ∀ c ∈ courses, c.id ∈ ids)
    (hquiet : ∀ u wants v, u.call = t.call → u.out = [] → P.Local u wants v)
    (hout : t.out = [])
    (hQ : ∀ u result entity updates reread rows n w v₁ v, P.After t.held s w →
      Decides dto request courses (hasEmpty ((t.view w).slotsOf id)) result entity updates →
      (hasEmpty ((t.view w).slotsOf id) = true → dto.continueWithWarnings = true) →
      P.After t.held s v₁ → savedVersion orm entity reread (t.view v₁) = some n →
      Rereads P t entity courses reread rows s v₁ →
      Ran P (Owns id ids) t u s v (finishIn entity reread n rows updates) → Q u result v) :
    P.Wp Q (decideApproval orm dto ctx request courses) t s := by
  refine wp_select (hquiet t _ s rfl hout) fun w hafter hinv => ?_
  rw [hid]
  by_cases hrefused : (hasEmpty ((t.view w).slotsOf id) && !dto.continueWithWarnings) = true
  · rw [if_pos hrefused]
    exact hquiet t _ w rfl hout
  rw [if_neg hrefused]
  have hcontinue : hasEmpty ((t.view w).slotsOf id) = true → dto.continueWithWarnings = true := by
    intro hempty
    simpa [hempty] using hrefused
  have hall : courses.map (·.id) ⊆ ids := by
    intro k hk
    obtain ⟨c, hc, rfl⟩ := List.mem_map.mp hk
    exact hids c hc
  have hwarned : (courses.filter fun c => c.warnings.isSome).map (·.id) ⊆ ids :=
    List.Subset.trans (List.map_subset _ (List.filter_subset_self _)) hall
  have hclean : (courses.filter fun c => c.warnings.isNone).map (·.id) ⊆ ids :=
    List.Subset.trans (List.map_subset _ (List.filter_subset_self _)) hall
  by_cases hbypass : (alreadyGenerated courses && dto.noChanges) = true
  · rw [if_pos hbypass]
    obtain ⟨hgenerated, hchanges⟩ := Bool.and_eq_true_iff.mp hbypass
    set status : MaterialRequestStatus :=
      if hasEmpty ((t.view w).slotsOf id) then .completedWithWarnings else .completed with hstatus
    refine (wp_bind _ _ _ _ _).mpr ?_
    refine wp_save ids (r := id) hid hids hquiet rfl hout ?_
    intro u n v reread rows v₁ hsave hheld₁ hreads hafter₁ _ hversion
    refine (wp_bind _ _ _ _ _).mpr ?_
    refine wp_updateMaterialStatus ids (r := id) hquiet hsave.extended.call (hsave.out.trans hout)
      hsave.inv fun u₂ v₂ hmaterial => ?_
    have hran₂ := hsave.trans hmaterial
    have hheld₂ := hmaterial.extended.held hheld₁
    refine (wp_bind _ _ _ _ _).mpr ?_
    refine wp_updateCourseStatuses (fun _ (h : Owns id ids _) => h.belong hwarned)
      (fun _ h => h.setCourseStatuses hwarned) hquiet hran₂.extended.call
      (hran₂.out.trans hout) hheld₂ hran₂.inv fun u₃ v₃ hfirst => ?_
    have hran₃ := hran₂.trans hfirst
    refine (wp_bind _ _ _ _ _).mpr ?_
    refine wp_updateCourseStatuses (fun _ (h : Owns id ids _) => h.belong hclean)
      (fun _ h => h.setCourseStatuses hclean) hquiet hran₃.extended.call
      (hran₃.out.trans hout) (hfirst.extended.held hheld₂) hran₃.inv fun u₄ v₄ hsecond => ?_
    have hran := (hran₃.trans hsecond).waitedFor hafter
    exact hQ u₄ _ _ _ reread rows n w v₁ v₄ hafter (.bypass status hgenerated hchanges hstatus)
      hcontinue (hafter.trans hafter₁) hversion (hreads.waitedFor hafter) hran
  · rw [if_neg hbypass]
    have hneeded : (alreadyGenerated courses && dto.noChanges) = false := by simpa using hbypass
    refine (wp_bind _ _ _ _ _).mpr ?_
    refine wp_save ids (r := id) hid hids hquiet rfl hout ?_
    intro u n v reread rows v₁ hsave hheld₁ hreads hafter₁ _ hversion
    refine (wp_bind _ _ _ _ _).mpr ?_
    refine wp_updateMaterialStatus ids (r := id) hquiet hsave.extended.call (hsave.out.trans hout)
      hsave.inv fun u₂ v₂ hmaterial => ?_
    have hran₂ := hsave.trans hmaterial
    have hcall₂ := hran₂.extended.call
    have hout₂ := hran₂.out.trans hout
    refine wp_select (hquiet u₂ _ v₂ hcall₂ hout₂) fun v₃ hafter₃ hinv₃ => ?_
    refine wp_select (hquiet u₂ _ v₃ hcall₂ hout₂) fun v₄ hafter₄ hinv₄ => ?_
    have hran₄ := hran₂.trans (Ran.waited (hafter₃.trans hafter₄) hinv₄)
    refine (wp_bind _ _ _ _ _).mpr ?_
    refine wp_updateCourseStatuses (fun _ (h : Owns id ids _) => h.belong hall)
      (fun _ h => h.setCourseStatuses hall) hquiet hcall₂ hout₂
      (hmaterial.extended.held hheld₁) hinv₄ fun u₅ v₅ hstatuses => ?_
    have hran₅ := hran₄.trans hstatuses
    refine (wp_bind _ _ _ _ _).mpr ?_
    refine wp_collectJobs hquiet hran₅.extended.call (hran₅.out.trans hout) hran₅.inv
      fun jobs v₆ hafter₆ hinv₆ hjobs => ?_
    have hran := (hran₅.trans (Ran.waited hafter₆ hinv₆)).waitedFor hafter
    exact hQ u₅ _ _ _ reread rows n w v₁ v₆ hafter (.regenerate jobs hneeded hjobs) hcontinue
      (hafter.trans hafter₁) hversion (hreads.waitedFor hafter) hran

/-- What an approval does once it has passed the version check. -/
def approveLoaded (orm : Orm) (id : RequestId) (dto : ApproveReview) (ctx : MaterialReviewContext)
    (request : MaterialRequest) (courses : List MaterialRequestCourse) : Tx ApprovalResult := do
  applyEdits id dto
  decideApproval orm dto ctx { request with version := dto.version + 1 } courses

/-- An approval of a request that it has loaded at `v₀`, from its version check at `v₁` on. -/
theorem wp_approveLoaded
    {Q : Context C Db Row Job → ApprovalResult → Snapshot C Db Job α → Prop}
    {dto : ApproveReview} {ctx : MaterialReviewContext} {q : MaterialRequest}
    {u₁ : Context C Db Row Job} {v₀ v₁ : Snapshot C Db Job α}
    (hguar : ∀ held a b, P.Guar held a b → LockFrame held a.db b.db)
    (hquiet : ∀ u wants v, u.call = t.call → u.out = [] → P.Local u wants v)
    (hext : u₁.Extends t) (hlog : ∀ db, u₁.log db = bumpIn id db) (hout : u₁.out = [])
    (hheld : .request id ∈ u₁.held) (hframed : Framed (Owns id ((v₀.db.coursesOf id).map (·.id))) u₁)
    (hfind : v₀.db.requests.find id = some q) (hafter : P.After [] v₀ v₁) (hinv : P.Inv v₁)
    (hmatch : versionMatches id dto.version v₁.db = true)
    (hQ : ∀ u result a v, P.Inv v →
      Approves orm id dto q (v₀.db.coursesOf id) result a v.db →
      a.Current id (v₀.db.coursesOf id) v.db →
      Reviewed P id ((v₀.db.coursesOf id).map (·.id)) t u v₁ v (approveIn id dto a) →
      Q u result v) :
    P.Wp Q (approveLoaded orm id dto ctx q (v₀.db.coursesOf id)) u₁ v₁ := by
  have hid : q.id = id := Db.request_id_of_find hfind
  set courses := v₀.db.coursesOf id with hcourses
  set ids := courses.map (·.id) with hids
  refine (wp_bind _ _ _ _ _).mpr ?_
  refine wp_applyEdits ids hquiet hext.call hout hheld hinv ?_
  intro u₂ v₂ hedit
  have hcall₂ := hedit.extended.call.trans hext.call
  have hlog₂ : ∀ db, u₂.log db = editSlots id dto (bumpIn id db) := by
    intro db
    rw [hedit.log, hlog]
  have hheld₂ : [.request id] ⊆ u₂.held := by simpa using hedit.extended.held hheld
  have hlocked₂ : P.After [.request id] v₁ v₂ := hedit.after.mono (by simpa using hheld)
  refine wp_decideApproval hid
    (fun c hc => List.mem_map_of_mem hc)
    (fun u wants v hu => hquiet u wants v (hu.trans hcall₂)) (hedit.out.trans hout) ?_
  intro u result entity updates reread rows n w v₃ v hw hdecides hconsent hv₃ hversion hreads hfinish
  have hran := hedit.trans hfinish
  have hlocked : P.After [.request id] v₁ v := hlocked₂.trans (hfinish.after.mono hheld₂)
  -- the slots and the request are locked, so what was read on the way holds at the end
  have hprotected : ∀ x, P.After u₂.held v₂ x → Protected [.request id] v₂.db x.db :=
    fun x hx => protected_of_after hguar (hx.mono hheld₂)
  have hatEnd := hprotected v hfinish.after
  have hslots : (u₂.view w).slotsOf id = (editSlots id dto v.db).slotsOf id := by
    rw [Context.view, hlog₂, slotsOf_editSlots, slotsOf_editSlots,
      hatEnd.slots id (by simp), ← (hprotected w hw).slots id (by simp)]
    rfl
  have hentity : entity.id = id := hdecides.entity_id.trans hid
  have howns : Owns id ids v.db := by
    have hlater : P.After [] v₀ v := hafter.trans (hlocked.mono (by simp))
    exact (owns_coursesOf id v₀.db).of_protected (protected_of_after hguar hlater)
  have hsaved : savedVersion orm entity reread (bumpIn id v.db) = some n := by
    rw [← hversion, Context.view, hlog₂]
    simp only [savedVersion, hentity, editSlots_requests, bumpIn, find_updateRequest,
      hatEnd.request id (by simp), (hprotected v₃ hv₃).request id (by simp)]
  have hcurrent : versionMatches id dto.version v.db = true := by
    have hrequest := (protected_of_after hguar hlocked).request id (by simp)
    rw [versionMatches, hrequest]
    exact hmatch
  have hknown : Approval.Current id courses ⟨entity, reread, n, rows, updates⟩ v.db := by
    obtain ⟨w₁, w₂, hw₁, hw₂, _, hreread, hrows⟩ := hreads
    rw [hentity, Context.view, hlog₂, editSlots_requests] at hreread
    refine ⟨?_, ?_⟩
    · rw [← hreread, bumpIn, find_updateRequest, find_updateRequest,
        hatEnd.request id (by simp), (hprotected w₁ hw₁).request id (by simp)]
    · rw [hrows]
      apply List.map_congr_left
      intro c hc
      have hcourses : v.db.coursesOf id = w₂.db.coursesOf id := by
        rw [hatEnd.courses id (by simp), (hprotected w₂ (hw₁.trans hw₂)).courses id (by simp)]
      rw [Context.view, hlog₂, editSlots_courses, bumpIn_courses,
        find_of_coursesOf howns (List.mem_map_of_mem hc) hcourses.symm]
  have hrows : rows.map Prod.fst = courses := by
    have hread := hknown.rows
    simp only at hread
    simp [hread, Function.comp_def]
  rw [hslots] at hdecides hconsent
  refine hQ u result ⟨entity, reread, n, rows, updates⟩ v
    hran.inv ⟨hcurrent, hdecides, hconsent, hsaved, hrows⟩ hknown
    { call := hran.extended.call.trans hext.call
      since := hran.extended.since.trans hext.since
      out := hran.out.trans hout
      held := hfinish.extended.held (hheld₂ (by simp))
      framed := hran.framed hframed
      owns := howns
      locked := hlocked
      log := ?_ }
  intro db
  rw [hran.log, hlog]
  rfl

/-- **An approval** of a request that it loads at `v₀`. It bumps the version of the client
at `v₁` and holds the lock of the request from there on. -/
theorem wp_approve {Q : Context C Db Row Job → ApprovalResult → Snapshot C Db Job α → Prop}
    {dto : ApproveReview} {ctx : MaterialReviewContext}
    (hguar : ∀ held a b, P.Guar held a b → LockFrame held a.db b.db)
    (hlog : ∀ db, t.log db = db) (hheld : t.held = []) (hout : t.out = [])
    (hquiet : ∀ u wants v, u.call = t.call → u.out = [] → P.Local u wants v)
    (hQ : ∀ u q result a v₀ v₁ v, P.After [] s v₀ → P.Inv v₀ →
      v₀.db.requests.find id = some q → P.After [] v₀ v₁ → P.Inv v →
      Approves orm id dto q (v₀.db.coursesOf id) result a v.db →
      a.Current id (v₀.db.coursesOf id) v.db →
      Reviewed P id ((v₀.db.coursesOf id).map (·.id)) t u v₁ v (approveIn id dto a) →
      Q u result v) :
    P.Wp Q (approve orm id dto ctx) t s := by
  refine wp_select (hquiet t _ s rfl hout) fun v₀ hafter₀ hinv₀ => ?_
  have hview : ∀ v : Snapshot C Db Job α, t.view v = v.db := fun v => hlog v.db
  rw [hheld] at hafter₀
  rw [hview]
  cases hfind : v₀.db.requests.find id with
  | none => exact hquiet t _ v₀ rfl hout
  | some q =>
    refine (wp_bind _ _ _ _ _).mpr ?_
    refine wp_bumpVersion ((v₀.db.coursesOf id).map (·.id)) (r := id) hquiet rfl hout ?_
    intro u₁ v₁ hbump hheld₁ hmatch
    have hafter₁ := hbump.after
    rw [hheld] at hafter₁
    rw [hview] at hmatch
    refine wp_approveLoaded hguar hquiet hbump.extended (fun db => ?_) (hbump.out.trans hout) hheld₁
      (hbump.framed (.of_log hlog)) hfind hafter₁ hbump.inv hmatch ?_
    · rw [hbump.log, hlog]
    · intro u result a v hinv happroves hknown hreviewed
      exact hQ u q result a v₀ v₁ v hafter₀ hinv₀ hfind hafter₁ hinv happroves hknown hreviewed

end UseCases

section Calls

variable {P : Protocol UseCase Db Row Job Outcome} {orm : Orm} {r : RequestId} {id since : ℕ}
  {s : Committed}

/-- A review read of the module, for any protocol that keeps the lock discipline. It
commits nothing, or the request as being in review. -/
theorem wp_review (hguar : ∀ held a b, P.Guar held a b → LockFrame held a.db b.db)
    (hquiet : ∀ (u : Ctx) wants v, u.call = .review r → u.out = [] → P.Local u wants v)
    (hread : ∀ (t : Ctx) q v₀ v₁ v data, t.call = .review r → t.since = since →
      (∀ db, t.log db = db) → t.out = [] → v₀.db.requests.find r = some q →
      q.status ≠ .reviewRequired → P.After [] v₀ v₁ → P.After [] v₁ v → P.Inv v →
      data = ⟨q.id, q.status, q.version, orderByPosition (v₁.db.slotsOf q.id)⟩ →
      P.PreCommit t (.review data) v →
      P.Inv (v.commit t (.review data) []) ∧ P.Guar t.held v (v.commit t (.review data) []))
    (hopen : ∀ (t u : Ctx) q n reread rows v₀ v₁ v data, t.call = .review r → t.since = since →
      v₀.db.requests.find r = some q → q.status = .reviewRequired → P.After [] v₀ v₁ → P.Inv v →
      savedVersion orm (inReview q) reread v.db = some n →
      Reviewed P r ((v₀.db.coursesOf r).map (·.id)) t u v₁ v
        (saveIn (inReview q) reread n rows) →
      (∃ w, P.After [] v₀ w ∧ P.After [] w v₁ ∧ w.db.requests.find r = some reread) →
      data = ⟨q.id, .inReview, n, orderByPosition (v.db.slotsOf q.id)⟩ →
      P.PreCommit u (.review data) v →
      P.Inv (v.commit u (.review data) []) ∧ P.Guar u.held v (v.commit u (.review data) [])) :
    P.Wp (P.Commits (materials orm)) ((materials orm).program (.review r))
      (Context.opened id (.review r) since) s := by
  refine (wp_bind _ _ _ _ _).mpr ?_
  refine wp_getMaterialReview hguar (fun _ => rfl) rfl rfl hquiet ?_ ?_
  · intro q v₀ v₁ _ _ hfind hstatus hafter₁ _
    refine commits_of_after (hquiet _ _ v₁ rfl rfl) fun v hafter hinv _ hpre => ?_
    exact hread _ q v₀ v₁ v _ rfl rfl (fun _ => rfl) rfl hfind hstatus hafter₁ hafter hinv rfl hpre
  · intro u q n reread rows v₀ v₁ v₂ _ _ hfind hstatus hafter₁ hversion _ hreviewed hreads
    refine commits_of_after (hquiet u _ v₂ hreviewed.call hreviewed.out) ?_
    intro v hafter hinv _ hpre
    have hid : q.id = r := Db.request_id_of_find hfind
    have hlater := hreviewed.mono hguar hafter
    -- the version and the slots are protected by the lock of the request
    have hlocked := protected_of_after hguar hlater.locked
    have hsaved : savedVersion orm (inReview q) reread v.db = some n := by
      rw [← hversion]
      simp only [savedVersion, inReview, hid, hlocked.request r (by simp)]
    have hslots : v.db.slotsOf q.id = v₂.db.slotsOf q.id := by
      rw [hid]
      exact (protected_of_after hguar hafter).slots r hreviewed.held
    have hreread : ∃ w, P.After [] v₀ w ∧ P.After [] w v₁ ∧ w.db.requests.find r = some reread := by
      obtain ⟨w₁, w₂, hw₁, hw₂, hw, hfound, _⟩ := hreads
      have hentity : (inReview q).id = r := hid
      rw [hentity] at hfound
      exact ⟨w₁, hw₁, hw₂.trans hw, hfound⟩
    exact hopen _ u q n reread rows v₀ v₁ v _ rfl rfl hfind hstatus hafter₁ hinv hsaved hlater
      hreread (by rw [hslots]) hpre

/-- A draft of the module, for any protocol that keeps the lock discipline. -/
theorem wp_saveDraftCall {dto : ApproveReview}
    (hguar : ∀ held a b, P.Guar held a b → LockFrame held a.db b.db)
    (hquiet : ∀ (u : Ctx) wants v, u.call = .saveDraft r dto → u.out = [] → P.Local u wants v)
    (hcommit : ∀ (t u : Ctx) v₁ v result, t.call = .saveDraft r dto → t.since = since →
      P.Inv v → versionMatches r dto.version v.db = true →
      Reviewed P r [] t u v₁ v (fun db => editSlots r dto (bumpIn r db)) →
      result = ⟨none, "Borrador guardado exitosamente", []⟩ →
      P.PreCommit u (.approval result) v →
      P.Inv (v.commit u (.approval result) []) ∧ P.Guar u.held v (v.commit u (.approval result) [])) :
    P.Wp (P.Commits (materials orm)) ((materials orm).program (.saveDraft r dto))
      (Context.opened id (.saveDraft r dto) since) s := by
  refine (wp_bind _ _ _ _ _).mpr ?_
  refine wp_saveDraft (fun _ => rfl) rfl rfl hquiet ?_
  intro u v₁ v₂ hmatch _ _ hreviewed
  refine commits_of_after (hquiet u _ v₂ hreviewed.call hreviewed.out) fun v hafter hinv _ hpre => ?_
  have hlater := hreviewed.mono hguar hafter
  have hrequest := (protected_of_after hguar hlater.locked).request r (by simp)
  have hcurrent : versionMatches r dto.version v.db = true := by
    rw [versionMatches, hrequest]
    exact hmatch
  exact hcommit _ u v₁ v _ rfl rfl hinv hcurrent hlater rfl hpre

/-- An approval of the module, for any protocol that keeps the lock discipline. -/
theorem wp_approveCall {dto : ApproveReview} {ctx : MaterialReviewContext}
    (hguar : ∀ held a b, P.Guar held a b → LockFrame held a.db b.db)
    (hquiet : ∀ (u : Ctx) wants v, u.call = .approve r dto ctx → u.out = [] → P.Local u wants v)
    (hcommit : ∀ (t u : Ctx) q result a v₀ v₁ v, t.call = .approve r dto ctx → t.since = since →
      v₀.db.requests.find r = some q → P.After [] v₀ v₁ → P.Inv v →
      Approves orm r dto q (v₀.db.coursesOf r) result a v.db →
      a.Current r (v₀.db.coursesOf r) v.db →
      Reviewed P r ((v₀.db.coursesOf r).map (·.id)) t u v₁ v (approveIn r dto a) →
      P.PreCommit u (.approval result) v →
      P.Inv (v.commit u (.approval result) result.jobsToDispatch) ∧
        P.Guar u.held v (v.commit u (.approval result) result.jobsToDispatch)) :
    P.Wp (P.Commits (materials orm)) ((materials orm).program (.approve r dto ctx))
      (Context.opened id (.approve r dto ctx) since) s := by
  refine (wp_bind _ _ _ _ _).mpr ?_
  refine wp_approve hguar (fun _ => rfl) rfl rfl hquiet ?_
  intro u q result a v₀ v₁ v₂ _ _ hfind hafter₁ _ happroves hknown hreviewed
  refine commits_of_after (hquiet u _ v₂ hreviewed.call hreviewed.out) fun v hafter hinv _ hpre => ?_
  have hid : q.id = r := Db.request_id_of_find hfind
  obtain ⟨hlater, hcurrent, hreviewed'⟩ :=
    hreviewed.approves_mono hguar hid happroves hknown hafter
  exact hcommit _ u q result a v₀ v₁ v rfl rfl hfind hafter₁ hinv hlater hcurrent hreviewed' hpre

end Calls

end Odiseo.Materials
