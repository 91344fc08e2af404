import Odiseo.Materials.Rules
import Odiseo.Materials.Machine

/-!
# What a generation commits

The write transaction of a generation inserts rows under identifiers that nobody else
uses: it locks each key and finds it free. Until its commit nobody else can take them,
so what it commits is one change of the database, whatever commits in between. The
material that it points at the new request ends with that request as its latest one,
or keeps the one it had.
-/

namespace Odiseo.Materials

open Database Database.Protocol

/-- The database after a request has been inserted. -/
def insertRequestIn (q : MaterialRequest) (db : Db) : Db :=
  { db with requests := db.requests.insert q }

/-- The database after a course has been inserted. -/
def insertCourseIn (db : Db) (c : MaterialRequestCourse) : Db :=
  { db with courses := db.courses.insert c }

/-- The database after a slot has been inserted. -/
def insertSlotIn (db : Db) (q : MaterialReviewQuestion) : Db :=
  { db with slots := db.slots.insert q }

/-- `save` keeps the key of the row. -/
theorem key_saveMaterial (entity reread : Material) : ∀ row : Material,
    key ({ row with
      status := saved entity.status reread.status row.status
      latestRequestId :=
        saved entity.latestRequestId reread.latestRequestId row.latestRequestId } : Material) =
      key row :=
  fun _ => rfl

/-- The database after `save` has written a material. -/
def saveMaterialIn (entity reread : Material) : Db → Db :=
  updateMaterial entity.id
    (fun row =>
      { row with
        status := saved entity.status reread.status row.status
        latestRequestId :=
          saved entity.latestRequestId reread.latestRequestId row.latestRequestId })
    (key_saveMaterial entity reread)

/-- What a generation writes besides its inputs. -/
structure Creation where
  /-- The generation inserted the material. -/
  inserted : Bool
  /-- The entity in memory when the material had been found or created. -/
  material : Material
  /-- The ledger rows of earlier requests. -/
  cleared : List MaterialQuestionUsage
  /-- The row that the first `save` of the material read again. -/
  opened : Material
  /-- The row that the second `save` of the material read again. -/
  linked : Material

/-- The material is there. -/
def GenerateInputs.materialIn (g : GenerateInputs) (inserted : Bool) (db : Db) : Db :=
  if inserted then { db with materials := db.materials.insert g.newMaterial } else db

/-- The statuses that the new courses take before the commit. -/
def GenerateInputs.startIn (g : GenerateInputs) (db : Db) : Db :=
  if g.requiresReview then db
  else setCourseStatuses (g.createdCourses.map (·.id)) .processing db

/-- The effect of a generation up to the insert of its request. -/
def GenerateInputs.openIn (g : GenerateInputs) (c : Creation) (db : Db) : Db :=
  insertRequestIn (g.newRequest c.material.id)
    (saveMaterialIn { c.material with status := g.initialStatus } c.opened
      (deleteUsages c.cleared (g.materialIn c.inserted db)))

/-- The effect of a generation up to the link from its material. -/
def GenerateInputs.linkIn (g : GenerateInputs) (c : Creation) (db : Db) : Db :=
  saveMaterialIn
    { c.material with status := g.initialStatus, latestRequestId := some g.newRequestId } c.linked
    (g.openIn c db)

/-- The whole effect of a generation. -/
def GenerateInputs.createIn (g : GenerateInputs) (c : Creation) (db : Db) : Db :=
  g.startIn (g.reviewQuestions.foldl insertSlotIn
    (g.createdCourses.foldl insertCourseIn (g.linkIn c db)))

/-- The answer of a generation. -/
def GenerateInputs.result (g : GenerateInputs) : GenerateResult where
  materialRequestId := g.newRequestId
  status := g.initialStatus
  jobsToDispatch := if g.requiresReview then [] else [.generatePdf g.jobPayload]

section Effect

variable (g : GenerateInputs) (c : Creation) (db : Db)

/-- `save` leaves a row alone that does not differ from what it read again. -/
theorem saveMaterialIn_self (entity : Material) : saveMaterialIn entity entity db = db := by
  have hfixed : db.materials.modify entity.id (fun row : Material =>
      { row with
        status := saved entity.status entity.status row.status
        latestRequestId :=
          saved entity.latestRequestId entity.latestRequestId row.latestRequestId })
      (by intro; rfl) = db.materials :=
    Table.modify_of_fixed _ _ _ _ fun r => by simp [saved]
  unfold saveMaterialIn updateMaterial
  rw [hfixed]

/-- Looking a material up after `save`. -/
theorem find_saveMaterialIn (entity reread : Material) (m : MaterialId) :
    (saveMaterialIn entity reread db).materials.find m =
      if m = entity.id then
        (db.materials.find m).map fun row =>
          { row with
            status := saved entity.status reread.status row.status
            latestRequestId :=
              saved entity.latestRequestId reread.latestRequestId row.latestRequestId }
      else db.materials.find m :=
  find_updateMaterial _ _ _ _ _

/-- The inserts of the courses in one change. -/
theorem foldl_insertCourseIn (cs : List MaterialRequestCourse) :
    cs.foldl insertCourseIn db = { db with courses := cs.foldl Table.insert db.courses } := by
  induction cs generalizing db with
  | nil => rfl
  | cons c cs ih => exact ih _

/-- The inserts of the slots in one change. -/
theorem foldl_insertSlotIn (qs : List MaterialReviewQuestion) :
    qs.foldl insertSlotIn db = { db with slots := qs.foldl Table.insert db.slots } := by
  induction qs generalizing db with
  | nil => rfl
  | cons q qs ih => exact ih _

@[simp] theorem createIn_materials :
    (g.createIn c db).materials = (g.linkIn c db).materials := by
  have hstart : ∀ db : Db, (g.startIn db).materials = db.materials := by
    intro db
    unfold GenerateInputs.startIn
    split
    · rfl
    · obtain ⟨courses, h⟩ := setCourseStatuses_eq (g.createdCourses.map (·.id)) .processing db
      rw [h]
  rw [GenerateInputs.createIn, hstart, foldl_insertSlotIn, foldl_insertCourseIn]

/-- Before its courses a generation writes a material, a request and ledger rows. -/
theorem linkIn_eq : ∃ materials, g.linkIn c db =
    { db with
      materials := materials
      requests := db.requests.insert (g.newRequest c.material.id)
      usages := (deleteUsages c.cleared db).usages } := by
  unfold GenerateInputs.linkIn GenerateInputs.openIn GenerateInputs.materialIn
  split
  · exact ⟨_, rfl⟩
  · exact ⟨_, rfl⟩

/-- What a generation writes. -/
theorem createIn_eq : ∃ materials courses, g.createIn c db =
    { db with
      materials := materials
      courses := courses
      requests := db.requests.insert (g.newRequest c.material.id)
      usages := (deleteUsages c.cleared db).usages
      slots := g.reviewQuestions.foldl Table.insert db.slots } := by
  obtain ⟨materials, hlink⟩ := linkIn_eq g c db
  have hstart : ∀ db : Db, ∃ courses, g.startIn db = { db with courses := courses } := by
    intro db
    unfold GenerateInputs.startIn
    split
    · exact ⟨db.courses, rfl⟩
    · exact setCourseStatuses_eq _ _ _
  unfold GenerateInputs.createIn
  rw [foldl_insertSlotIn, foldl_insertCourseIn, hlink]
  obtain ⟨courses, h⟩ := hstart _
  exact ⟨materials, courses, h⟩

@[simp] theorem createIn_requests :
    (g.createIn c db).requests = db.requests.insert (g.newRequest c.material.id) := by
  obtain ⟨materials, courses, h⟩ := createIn_eq g c db
  rw [h]

@[simp] theorem createIn_usages :
    (g.createIn c db).usages = (deleteUsages c.cleared db).usages := by
  obtain ⟨materials, courses, h⟩ := createIn_eq g c db
  rw [h]

@[simp] theorem createIn_slots :
    (g.createIn c db).slots = g.reviewQuestions.foldl Table.insert db.slots := by
  obtain ⟨materials, courses, h⟩ := createIn_eq g c db
  rw [h]

@[simp] theorem createIn_catalog : (g.createIn c db).catalog = db.catalog := by
  obtain ⟨materials, courses, h⟩ := createIn_eq g c db
  rw [h]

/-- The material is kept when another one is inserted. -/
theorem find_materialIn {inserted : Bool} {m : MaterialId} {mat : Material}
    (h : db.materials.find m = some mat) :
    (g.materialIn inserted db).materials.find m = some mat := by
  unfold GenerateInputs.materialIn
  split
  · exact Table.find_insert_of_some _ _ _ _ h
  · exact h

/-- Looking a material up after the first `save`. -/
theorem find_materials_openIn (m : MaterialId) :
    (g.openIn c db).materials.find m =
      ((g.materialIn c.inserted db).materials.find m).map fun row =>
        if m = c.material.id then
          { row with
            status := saved g.initialStatus c.opened.status row.status
            latestRequestId :=
              saved c.material.latestRequestId c.opened.latestRequestId row.latestRequestId }
        else row := by
  have hsave := find_saveMaterialIn (deleteUsages c.cleared (g.materialIn c.inserted db))
    { c.material with status := g.initialStatus } c.opened m
  refine hsave.trans ?_
  by_cases hm : m = c.material.id
  · simp [hm, deleteUsages]
  · simp [hm, deleteUsages]

/-- The latest request of the material, as the second `save` reads it. -/
theorem latest_openIn {linked : Material}
    (h : (g.openIn c db).materials.find c.material.id = some linked) :
    ∃ row, linked.latestRequestId =
      saved c.material.latestRequestId c.opened.latestRequestId row := by
  rw [find_materials_openIn] at h
  obtain ⟨row, _, rfl⟩ := Option.map_eq_some_iff.mp h
  exact ⟨row.latestRequestId, by simp⟩

/-- **The latest request of a material** only moves to the new request: a generation with
a stale entity in memory does not bring an older one back. -/
theorem latest_createIn {m : MaterialId} {mat : Material} {x : RequestId}
    (hlinked : ∃ row, c.linked.latestRequestId =
      saved c.material.latestRequestId c.opened.latestRequestId row)
    (h : db.materials.find m = some mat) (hx : mat.latestRequestId = some x) :
    ∃ mat' y, (g.createIn c db).materials.find m = some mat' ∧ mat'.latestRequestId = some y ∧
      (y = x ∨ y = g.newRequestId) := by
  rw [createIn_materials]
  unfold GenerateInputs.linkIn
  rw [find_saveMaterialIn, find_materials_openIn, find_materialIn g db h, Option.map_some]
  by_cases hm : m = c.material.id
  · obtain ⟨row, hrow⟩ := hlinked
    subst hm
    simp only [if_true, Option.map_some, Option.some.injEq]
    by_cases hnew : some g.newRequestId = c.linked.latestRequestId
    · -- the second save finds the link in place, so the row keeps what the first one left
      have hkept : ∀ y, saved (some g.newRequestId) c.linked.latestRequestId y = y := by
        simp [saved, hnew]
      rw [hkept]
      by_cases hstale : c.material.latestRequestId = c.opened.latestRequestId
      · exact ⟨_, x, rfl, by simp [saved, hstale, hx], .inl rfl⟩
      · refine ⟨_, g.newRequestId, rfl, ?_, .inr rfl⟩
        rw [saved, if_neg hstale] at hrow
        simp only [saved, if_neg hstale]
        rw [← hrow, ← hnew]
    · exact ⟨_, g.newRequestId, rfl, by simp [saved, hnew], .inr rfl⟩
  · exact ⟨mat, x, by simp [hm], hx, .inl rfl⟩

end Effect

section Rules

variable {C α : Type} {P : Protocol C Db Row Job α} {call : C} {r : RequestId}
  {ids : List CourseRequestId} {t : Context C Db Row Job} {s : Snapshot C Db Job α}

/-- An `INSERT` of a row that keeps within its key. It fails, or it locks the key at a
moment at which the key is free. -/
theorem wp_insertRow {Q : Context C Db Row Job → Unit → Snapshot C Db Job α → Prop}
    (Φ : Db → Prop) {row : Row} {taken : Db → Bool} {insert : Db → Db}
    (hquiet : ∀ u wants v, u.call = call → u.out = [] → P.Local u wants v) (hcall : t.call = call)
    (hout : t.out = [])
    (hframe : ∀ db, Φ db → LockFrame (t.held ++ [row]) db (insert db) ∧ Φ (insert db))
    (hQ : ∀ u v, Ran P Φ t u s v insert → row ∈ u.held → taken (t.view v) = false → Q u () v) :
    P.Wp Q (insertRow row taken insert) t s := by
  refine wp_write (hquiet t _ s hcall hout) fun v hafter hinv _ _ => ?_
  cases htaken : taken (t.view v) with
  | true =>
    simp only [if_true]
    exact hquiet _ _ v hcall hout
  | false =>
    simp only [Bool.false_eq_true, if_false]
    exact hQ _ v (.wrote hafter hinv hframe) (by simp) htaken

variable (ids) in
/-- The row that `save` read again is a row of the database, as the transaction saw it. -/
theorem wp_saveMaterial {Q : Context C Db Row Job → Unit → Snapshot C Db Job α → Prop}
    {entity : Material}
    (hquiet : ∀ u wants v, u.call = call → u.out = [] → P.Local u wants v) (hcall : t.call = call)
    (hout : t.out = [])
    (hQ : ∀ u v (v₁ : Snapshot C Db Job α) reread,
      Ran P (Belong r ids) t u s v (saveMaterialIn entity reread) →
      (t.view v₁).materials.find entity.id = some reread → Q u () v) :
    P.Wp Q (saveMaterial entity) t s := by
  refine wp_select (hquiet t _ s hcall hout) fun v₁ hafter₁ hinv₁ => ?_
  cases hreread : (t.view v₁).materials.find entity.id with
  | none => exact hquiet t _ v₁ hcall hout
  | some reread =>
    by_cases hsame : entity = reread
    · simp only [hsame, if_true]
      refine hQ t v₁ v₁ reread ?_ hreread
      have hnothing : saveMaterialIn entity reread = fun db => db := by
        subst hsame
        exact funext fun db => saveMaterialIn_self db entity
      rw [hnothing]
      exact .waited hafter₁ hinv₁
    · simp only [hsame, if_false]
      refine wp_update hquiet hcall hout
        (fun v db (h : Belong r ids db) => ⟨.updateMaterial, h⟩) fun u v hran => ?_
      exact hQ u v v₁ reread (hran.waitedFor hafter₁) hreread

variable (ids) in
/-- The material is found, or inserted and found. -/
theorem wp_findOrCreateMaterial {g : GenerateInputs}
    {Q : Context C Db Row Job → Option Material → Snapshot C Db Job α → Prop}
    (hquiet : ∀ u wants v, u.call = call → u.out = [] → P.Local u wants v) (hcall : t.call = call)
    (hout : t.out = [])
    (hQ : ∀ u v material inserted, Ran P (Belong r ids) t u s v (g.materialIn inserted) →
      Q u material v) :
    P.Wp Q (findOrCreateMaterial g) t s := by
  refine wp_select (hquiet t _ s hcall hout) fun v₁ hafter₁ hinv₁ => ?_
  cases (t.view v₁).materials.rows.find? g.isMaterial with
  | some material => exact hQ t v₁ (some material) false (.waited hafter₁ hinv₁)
  | none =>
    refine wp_write (hquiet t _ v₁ hcall hout) fun v₂ hafter₂ hinv₂ _ _ => ?_
    set taken := (t.view v₂).materials.rows.any g.isMaterial
    have hchange : (fun db => if taken then db
        else { db with materials := db.materials.insert g.newMaterial }) = g.materialIn !taken := by
      funext db
      unfold GenerateInputs.materialIn
      cases taken <;> rfl
    rw [hchange]
    set locks := [Row.naturalKey g.tenantId g.profileId g.weekNumber, Row.material g.newMaterialId]
    have hwrote : Ran P (Belong r ids) t (t.wrote locks (g.materialIn !taken)) v₁ v₂
        (g.materialIn !taken) := by
      refine .wrote hafter₂ hinv₂ fun db hbelong => ?_
      unfold GenerateInputs.materialIn
      split
      · exact ⟨.of_eq rfl rfl rfl, hbelong⟩
      · exact ⟨.refl _ db, hbelong⟩
    refine ⟨hquiet _ _ v₂ hcall hout, fun v₃ hv₃ hinv₃ _ _ => ?_⟩
    rw [Context.wrote_select]
    have hran := (hwrote.waitedFor hafter₁).trans (.waited hv₃.after hinv₃)
    exact hQ _ v₃ _ (!taken) hran

variable (ids) in
/-- The ledger rows of the earlier requests are deleted. -/
theorem wp_clearUsages {Q : Context C Db Row Job → Unit → Snapshot C Db Job α → Prop}
    {prevRequestIds : List RequestId}
    (hquiet : ∀ u wants v, u.call = call → u.out = [] → P.Local u wants v) (hcall : t.call = call)
    (hout : t.out = []) (hinv : P.Inv s)
    (hQ : ∀ u v cleared, Ran P (Belong r ids) t u s v (deleteUsages cleared) → Q u () v) :
    P.Wp Q (clearUsages prevRequestIds) t s := by
  unfold clearUsages
  split
  · refine hQ t s [] ?_
    have hnothing : deleteUsages [] = fun db : Db => db := by
      funext db
      have hrows : db.usages.delete (fun u => decide (u ∈ ([] : List MaterialQuestionUsage))) =
          db.usages := Table.ext_rows (by simp [Table.delete])
      unfold deleteUsages
      rw [hrows]
    rw [hnothing]
    exact .waited .refl hinv
  · exact wp_update hquiet hcall hout
      (fun v db (h : Belong r ids db) => ⟨.of_eq rfl rfl rfl, h⟩) fun u v hran => hQ u v _ hran

variable (ids) in
/-- The courses are inserted one after the other. Their keys are free, and as they are
locked they stay free for everybody else. -/
theorem wp_insertCourses {Q : Context C Db Row Job → Unit → Snapshot C Db Job α → Prop}
    {courses : List MaterialRequestCourse}
    (hguar : ∀ held a b, P.Guar held a b → LockFrame held a.db b.db)
    (hquiet : ∀ u wants v, u.call = call → u.out = [] → P.Local u wants v) (hcall : t.call = call)
    (hout : t.out = []) (hinv : P.Inv s) (hheld : .request r ∈ t.held)
    (hbelong : ∀ c ∈ courses, c.materialRequestId = r)
    (hkeep : ∀ db k, (t.log db).courses.find k = none → db.courses.find k = none)
    (hQ : ∀ u v, Ran P (Belong r ids) t u s v (fun db => courses.foldl insertCourseIn db) →
      (∀ c ∈ courses, .course c.id ∈ u.held ∧ v.db.courses.find c.id = none) → Q u () v) :
    P.Wp Q (forEach courses insertCourse) t s := by
  induction courses generalizing t s with
  | nil => exact hQ t s (.waited .refl hinv) (by simp)
  | cons c courses ih =>
    have hc : c.materialRequestId = r := hbelong c (List.mem_cons_self ..)
    refine (wp_bind _ _ _ _ _).mpr ?_
    refine wp_insertRow (Belong r ids) hquiet hcall hout ?_ ?_
    · intro db hdb
      refine ⟨LockFrame.insertCourse (by simp) (by simp [hc, hheld]), ?_⟩
      intro k hk x hx
      by_cases hfree : db.courses.find (key c) = none
      · rw [Table.find_insert _ _ _ hfree] at hx
        split at hx
        · cases hx
          exact hc
        · exact hdb k hk x hx
      · obtain ⟨y, hy⟩ := Option.ne_none_iff_exists'.mp hfree
        by_cases hkc : k = key c
        · rw [hkc, Table.find_insert_of_some _ _ _ _ hy] at hx
          exact hdb k hk x (by rw [hkc, hy, hx])
        · rw [Table.find_insert_of_ne _ _ _ hkc] at hx
          exact hdb k hk x hx
    · intro u v hran hlocked htaken
      have hfree : v.db.courses.find c.id = none :=
        hkeep v.db c.id (by simpa [Context.view] using htaken)
      refine ih (hran.extended.call.trans hcall) (hran.out.trans hout) hran.inv
        (hran.extended.held hheld) (fun x hx => hbelong x (List.mem_cons_of_mem c hx)) ?_ ?_
      · intro db k hk
        rw [hran.log] at hk
        refine hkeep db k ?_
        cases hold : (t.log db).courses.find k with
        | none => rfl
        | some x => rw [Table.find_insert_of_some _ _ _ _ hold] at hk; cases hk
      · intro w x hrest hfresh
        refine hQ w x (hran.trans hrest) ?_
        intro y hy
        rcases List.mem_cons.mp hy with rfl | hy
        · exact hrest.lockedCourse hguar ⟨hlocked, hfree⟩
        · exact hfresh y hy

variable (ids) in
/-- The slots are inserted one after the other. -/
theorem wp_insertSlots {Q : Context C Db Row Job → Unit → Snapshot C Db Job α → Prop}
    {slots : List MaterialReviewQuestion}
    (hquiet : ∀ u wants v, u.call = call → u.out = [] → P.Local u wants v) (hcall : t.call = call)
    (hout : t.out = []) (hinv : P.Inv s) (hheld : .request r ∈ t.held)
    (hbelong : ∀ q ∈ slots, q.materialRequestId = r)
    (hQ : ∀ u v, Ran P (Belong r ids) t u s v (fun db => slots.foldl insertSlotIn db) →
      Q u () v) :
    P.Wp Q (forEach slots insertSlot) t s := by
  refine wp_forEach (Belong r ids) [.request r] (F := insertSlotIn) slots ?_ hcall hout
    (by simpa using hheld) hinv hQ
  intro q hq t s Q hcall hout hheld _ hQ
  have hlocked : .request r ∈ t.held := hheld (List.mem_cons_self ..)
  refine wp_insertRow (Belong r ids) hquiet hcall hout ?_ fun u v hran _ _ => hQ u v hran
  intro db hdb
  exact ⟨LockFrame.insertSlot (by simp [hbelong q hq, hlocked]), hdb⟩

end Rules

/-- A generation has run its last statement at `v`. Its keys are locked, and free for
everybody else. -/
structure Generated {C α : Type} (g : GenerateInputs) (c : Creation) (t u : Context C Db Row Job)
    (v : Snapshot C Db Job α) : Prop where
  call : u.call = t.call
  since : u.since = t.since
  out : u.out = []
  framed : Framed (Belong g.newRequestId (g.createdCourses.map (·.id))) u
  request : .request g.newRequestId ∈ u.held ∧ v.db.requests.find g.newRequestId = none
  courses : ∀ x ∈ g.createdCourses, .course x.id ∈ u.held ∧ v.db.courses.find x.id = none
  linked : ∃ row, c.linked.latestRequestId =
    saved c.material.latestRequestId c.opened.latestRequestId row
  log : ∀ db, u.log db = g.createIn c db

section UseCase

variable {C α : Type} {P : Protocol C Db Row Job α} {g : GenerateInputs} {c : Creation}
  {t u : Context C Db Row Job} {s v v' : Snapshot C Db Job α}

/-- What is known of a generation that has run its statements stays true while others commit. -/
theorem Generated.mono (hguar : ∀ held a b, P.Guar held a b → LockFrame held a.db b.db)
    (h : Generated g c t u v) (hafter : P.After u.held v v') : Generated g c t u v' := by
  have hprotected := protected_of_after hguar hafter
  refine { h with request := ?_, courses := ?_ }
  · exact ⟨h.request.1, (hprotected.request _ h.request.1).trans h.request.2⟩
  · intro x hx
    obtain ⟨hheld, hfree⟩ := h.courses x hx
    exact ⟨hheld, (hprotected.courseRow _ hheld).trans hfree⟩

/-- The commit of a generation obeys the lock discipline. -/
theorem Generated.lockFrame (h : Generated g c t u v) : LockFrame u.held v.db (u.log v.db) := by
  refine (h.framed v.db ?_).1
  intro id hid x hx
  obtain ⟨y, hy, rfl⟩ := List.mem_map.mp hid
  rw [(h.courses y hy).2] at hx
  cases hx

/-- The new courses belong to the new request. -/
theorem request_of_mem_createdCourses {x : MaterialRequestCourse} (h : x ∈ g.createdCourses) :
    x.materialRequestId = g.newRequestId := by
  obtain ⟨dist, _, rfl⟩ := List.mem_map.mp h
  rfl

/-- The new slots belong to the new request. -/
theorem request_of_mem_reviewQuestions {q : MaterialReviewQuestion} (h : q ∈ g.reviewQuestions) :
    q.materialRequestId = g.newRequestId := by
  obtain ⟨slot, _, rfl⟩ := List.mem_map.mp h
  rfl

/-- Before its courses are inserted a generation writes no course. -/
theorem linkIn_courses (db : Db) : (g.linkIn c db).courses = db.courses := by
  have hmaterial : (g.materialIn c.inserted db).courses = db.courses := by
    unfold GenerateInputs.materialIn
    split <;> rfl
  exact hmaterial

/-- Each new course is inserted, and belongs to its catalog course and the new request. -/
theorem find_courses_createIn (hnodup : (g.createdCourses.map (·.id)).Nodup) {db : Db}
    (hfree : ∀ x ∈ g.createdCourses, db.courses.find x.id = none) {x : MaterialRequestCourse}
    (hx : x ∈ g.createdCourses) : ∃ y, (g.createIn c db).courses.find x.id = some y ∧
      y.materialRequestId = x.materialRequestId ∧ y.courseId = x.courseId := by
  have hinserted : (g.createdCourses.foldl Table.insert db.courses).find x.id = some x :=
    Table.find_insertAll_of_mem _ _ hfree hnodup hx
  unfold GenerateInputs.createIn
  rw [foldl_insertSlotIn, foldl_insertCourseIn, linkIn_courses]
  unfold GenerateInputs.startIn
  split
  · exact ⟨x, hinserted, rfl, rfl⟩
  · rw [find_courses_setCourseStatuses, hinserted]
    split
    · exact ⟨_, rfl, rfl, rfl⟩
    · exact ⟨x, rfl, rfl, rfl⟩

/-- Before its request is inserted a generation writes no request. -/
theorem materialIn_requests (inserted : Bool) (db : Db) :
    (g.materialIn inserted db).requests = db.requests := by
  unfold GenerateInputs.materialIn
  split <;> rfl

/-- **A generation** ends with its keys locked and with the effect `createIn`. -/
theorem wp_generateMaterial
    {Q : Context C Db Row Job → GenerateResult → Snapshot C Db Job α → Prop}
    (hguar : ∀ held a b, P.Guar held a b → LockFrame held a.db b.db)
    (hlog : ∀ db, t.log db = db) (hout : t.out = [])
    (hquiet : ∀ u wants v, u.call = t.call → u.out = [] → P.Local u wants v)
    (hQ : ∀ u c v, P.Inv v → Generated g c t u v → Q u g.result v) :
    P.Wp Q (generateMaterial g) t s := by
  set ids := g.createdCourses.map (·.id) with hids
  refine (wp_bind _ _ _ _ _).mpr ?_
  refine wp_findOrCreateMaterial ids (r := g.newRequestId) hquiet rfl hout ?_
  intro u₁ v₁ found inserted hran₁
  cases found with
  | none => exact hquiet u₁ _ v₁ hran₁.extended.call (hran₁.out.trans hout)
  | some material =>
    have hcall₁ := hran₁.extended.call
    have hout₁ := hran₁.out.trans hout
    refine wp_select (hquiet u₁ _ v₁ hcall₁ hout₁) fun w hw hinvw => ?_
    refine (wp_bind _ _ _ _ _).mpr ?_
    refine wp_clearUsages ids (r := g.newRequestId) hquiet hcall₁ hout₁ hinvw ?_
    intro u₂ v₂ cleared hclear
    have hran₂ := hran₁.trans (hclear.waitedFor hw)
    refine (wp_bind _ _ _ _ _).mpr ?_
    refine wp_saveMaterial ids (r := g.newRequestId) hquiet hran₂.extended.call
      (hran₂.out.trans hout) fun u₃ v₃ w₃ opened hopen _ => ?_
    have hran₃ := hran₂.trans hopen
    -- the request is inserted under a key that is free and locked from here on
    refine (wp_bind _ _ _ _ _).mpr ?_
    refine wp_insertRow (Belong g.newRequestId ids) hquiet hran₃.extended.call
      (hran₃.out.trans hout) (fun db hbelong => ⟨LockFrame.insertRequest (by simp), hbelong⟩) ?_
    intro u₄ v₄ hinsert hlocked htaken
    have hran₄ := hran₃.trans hinsert
    have hfree : v₄.db.requests.find g.newRequestId = none := by
      have hview : (u₃.view v₄).requests = v₄.db.requests := by
        rw [Context.view, hran₃.log, hlog]
        exact materialIn_requests inserted v₄.db
      rw [hview] at htaken
      simpa [GenerateInputs.newRequest] using htaken
    refine (wp_bind _ _ _ _ _).mpr ?_
    refine wp_saveMaterial ids (r := g.newRequestId) hquiet hran₄.extended.call
      (hran₄.out.trans hout) fun u₅ v₅ w₅ linked hlink hread => ?_
    have hran₅ := hran₄.trans hlink
    have hrequest₅ := hlink.lockedRequest hguar (r := g.newRequestId) ⟨hlocked, hfree⟩
    set c : Creation := ⟨inserted, material, cleared, opened, linked⟩ with hc
    have hlog₄ : ∀ db, u₄.log db = g.openIn c db := by
      intro db
      rw [hran₄.log, hlog]
      rfl
    have hlog₅ : ∀ db, u₅.log db = g.linkIn c db := by
      intro db
      rw [hran₅.log, hlog]
      rfl
    rw [Context.view, hlog₄] at hread
    have hlinked := latest_openIn g c w₅.db hread
    refine (wp_bind _ _ _ _ _).mpr ?_
    refine wp_insertCourses ids hguar hquiet hran₅.extended.call (hran₅.out.trans hout)
      hran₅.inv hrequest₅.1 (fun _ => request_of_mem_createdCourses) ?_ ?_
    · intro db k hk
      rwa [hlog₅, linkIn_courses] at hk
    intro u₆ v₆ hcourses hfresh
    have hran₆ := hran₅.trans hcourses
    have hrequest₆ := hcourses.lockedRequest hguar hrequest₅
    refine (wp_bind _ _ _ _ _).mpr ?_
    refine wp_insertSlots ids hquiet hran₆.extended.call (hran₆.out.trans hout)
      hran₆.inv hrequest₆.1 (fun _ => request_of_mem_reviewQuestions) ?_
    intro u₇ v₇ hslots
    have hran₇ := hran₆.trans hslots
    have hrequest₇ := hslots.lockedRequest hguar hrequest₆
    have hend : ∀ u v, Ran P (Belong g.newRequestId ids) u₇ u v₇ v g.startIn →
        Generated g c t u v := by
      intro u v hstart
      have hran := hran₇.trans hstart
      refine
        { call := hran.extended.call
          since := hran.extended.since
          out := hran.out.trans hout
          framed := hran.framed (.of_log hlog)
          request := hstart.lockedRequest hguar hrequest₇
          courses := ?_
          linked := hlinked
          log := ?_ }
      · intro x hx
        exact hstart.lockedCourse hguar (hslots.lockedCourse hguar (hfresh x hx))
      · intro db
        rw [hran.log, hlog]
        rfl
    have hcall₇ := hran₇.extended.call
    have hout₇ := hran₇.out.trans hout
    by_cases hreview : g.requiresReview = true
    · rw [if_pos hreview]
      have hstart : g.startIn = fun db => db := by
        funext db
        simp [GenerateInputs.startIn, hreview]
      have hresult : g.result = ⟨g.newRequestId, g.initialStatus, []⟩ := by
        simp [GenerateInputs.result, hreview]
      rw [hstart] at hend
      have hgenerated := hend u₇ v₇ (.waited .refl hran₇.inv)
      exact hresult ▸ hQ u₇ c v₇ hran₇.inv hgenerated
    · rw [if_neg hreview]
      have hstart : g.startIn = setCourseStatuses ids .processing := by
        funext db
        simp [GenerateInputs.startIn, hreview, hids]
      have hresult : g.result = ⟨g.newRequestId, g.initialStatus, [.generatePdf g.jobPayload]⟩ := by
        simp [GenerateInputs.result, hreview]
      rw [hstart] at hend
      refine (wp_bind _ _ _ _ _).mpr ?_
      refine wp_updateCourseStatuses (fun _ (h : Belong g.newRequestId ids _) => h)
        (fun _ h => h.setCourseStatuses) hquiet hcall₇ hout₇ hrequest₇.1 hran₇.inv
        fun u v hstatuses => ?_
      exact hresult ▸ hQ u c v hstatuses.inv (hend u v hstatuses)

end UseCase

/-- A generation of the module, for any protocol that keeps the lock discipline. -/
theorem wp_generateCall {P : Protocol UseCase Db Row Job Outcome} {orm : Orm}
    {g : GenerateInputs} {id since : ℕ} {s : Committed}
    (hguar : ∀ held a b, P.Guar held a b → LockFrame held a.db b.db)
    (hquiet : ∀ (u : Ctx) wants v, u.call = .generate g → u.out = [] → P.Local u wants v)
    (hcommit : ∀ (t u : Ctx) c v, t.call = .generate g → t.since = since → P.Inv v →
      Generated g c t u v → P.PreCommit u (.generated g.result) v →
      P.Inv (v.commit u (.generated g.result) g.result.jobsToDispatch) ∧
        P.Guar u.held v (v.commit u (.generated g.result) g.result.jobsToDispatch)) :
    P.Wp (P.Commits (materials orm)) ((materials orm).program (.generate g))
      (Context.opened id (.generate g) since) s := by
  refine (wp_bind _ _ _ _ _).mpr ?_
  refine wp_generateMaterial hguar (fun _ => rfl) rfl hquiet ?_
  intro u c v₁ _ hgenerated
  refine commits_of_after (hquiet u _ v₁ hgenerated.call hgenerated.out) ?_
  intro v hafter hinv _ hpre
  exact hcommit _ u c v rfl rfl hinv (hgenerated.mono hguar hafter) hpre

end Odiseo.Materials
