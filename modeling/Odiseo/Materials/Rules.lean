import Odiseo.Database.Protocol
import Odiseo.Materials.Review

/-!
# Rules for the parts of a use case

A part of a use case adds a change of the database to the writes of its transaction.
`Ran` says which one, and that the writes still stay within the locks held, on every
database with a property that the change keeps.
-/

namespace Odiseo.Materials

open Database Database.Protocol

variable {C α : Type} {P : Protocol C Db Row Job α}

/-- On a database that satisfies `Φ` the writes of the transaction stay within its locks
and keep `Φ`. -/
def Framed (Φ : Db → Prop) (t : Context C Db Row Job) : Prop :=
  ∀ db, Φ db → LockFrame t.held db (t.log db) ∧ Φ (t.log db)

/-- A transaction that has not written anything. -/
theorem Framed.of_log {Φ : Db → Prop} {t : Context C Db Row Job} (h : ∀ db, t.log db = db) :
    Framed Φ t := by
  intro db hdb
  rw [h]
  exact ⟨.refl _ db, hdb⟩

/-- From `t` at `s` to `u` at `v` the transaction has added the change `F`. -/
structure Ran (P : Protocol C Db Row Job α) (Φ : Db → Prop)
    (t u : Context C Db Row Job) (s v : Snapshot C Db Job α) (F : Db → Db) : Prop where
  after : P.After t.held s v
  inv : P.Inv v
  extended : u.Extends t
  out : u.out = t.out
  framed : Framed Φ t → Framed Φ u
  log : ∀ db, u.log db = F (t.log db)

namespace Ran

variable {Φ : Db → Prop} {t u w : Context C Db Row Job}
  {s v x : Snapshot C Db Job α} {F G : Db → Db}

/-- Nothing but commits of others has happened. -/
theorem waited (hafter : P.After t.held s v) (hinv : P.Inv v) : Ran P Φ t t s v fun db => db :=
  ⟨hafter, hinv, .refl t, rfl, fun h => h, fun _ => rfl⟩

/-- Commits of others come first. -/
theorem waitedFor (h : Ran P Φ t u v x F) (hafter : P.After t.held s v) :
    Ran P Φ t u s x F where
  after := hafter.trans h.after
  inv := h.inv
  extended := h.extended
  out := h.out
  framed := h.framed
  log := h.log

/-- One part of a use case after another. -/
theorem trans (hF : Ran P Φ t u s v F) (hG : Ran P Φ u w v x G) :
    Ran P Φ t w s x fun db => G (F db) where
  after := hF.after.trans (hG.after.mono hF.extended.held)
  inv := hG.inv
  extended := hG.extended.trans hF.extended
  out := hG.out.trans hF.out
  framed := fun h => hG.framed (hF.framed h)
  log := fun db => by rw [hG.log, hF.log]

/-- A statement that writes within its locks. -/
theorem wrote {locks : List Row} {change : Db → Db} (hafter : P.After t.held s v)
    (hinv : P.Inv v)
    (hframe : ∀ db, Φ db → LockFrame (t.held ++ locks) db (change db) ∧ Φ (change db)) :
    Ran P Φ t (t.wrote locks change) s v change where
  after := hafter
  inv := hinv
  extended := t.extends_wrote locks change
  out := rfl
  framed := by
    intro h db hdb
    obtain ⟨hfirst, hmid⟩ := h db hdb
    obtain ⟨hsecond, hlast⟩ := hframe _ hmid
    exact ⟨(hfirst.mono (List.subset_append_left _ _)).trans hsecond, hlast⟩
  log := fun _ => rfl

/-- The row of a locked request stays as it is, and locked. -/
theorem lockedRequest (hguar : ∀ held a b, P.Guar held a b → LockFrame held a.db b.db)
    (h : Ran P Φ t u s v F) {r : RequestId} {row : Option MaterialRequest}
    (hrow : .request r ∈ t.held ∧ s.db.requests.find r = row) :
    .request r ∈ u.held ∧ v.db.requests.find r = row :=
  ⟨h.extended.held hrow.1,
    ((protected_of_after hguar h.after).request r hrow.1).trans hrow.2⟩

/-- The row of a locked course stays as it is, and locked. -/
theorem lockedCourse (hguar : ∀ held a b, P.Guar held a b → LockFrame held a.db b.db)
    (h : Ran P Φ t u s v F) {id : CourseRequestId} {row : Option MaterialRequestCourse}
    (hrow : .course id ∈ t.held ∧ s.db.courses.find id = row) :
    .course id ∈ u.held ∧ v.db.courses.find id = row :=
  ⟨h.extended.held hrow.1,
    ((protected_of_after hguar h.after).courseRow id hrow.1).trans hrow.2⟩

end Ran

section Rules

variable {call : C} {Φ : Db → Prop} {t : Context C Db Row Job} {s : Snapshot C Db Job α}

/-- A statement that writes within its locks. -/
theorem wp_update {Q : Context C Db Row Job → Unit → Snapshot C Db Job α → Prop}
    {locks : Db → List Row} {change : Db → Db → Db}
    (hquiet : ∀ u wants v, u.call = call → u.out = [] → P.Local u wants v) (hcall : t.call = call)
    (hout : t.out = [])
    (hframe : ∀ v db, Φ db → LockFrame (t.held ++ locks v) db (change v db) ∧ Φ (change v db))
    (hQ : ∀ u v, Ran P Φ t u s v (change (t.view v)) → Q u () v) :
    P.Wp Q (Program.write locks change fun _ => () : Tx Unit) t s := by
  refine ⟨hquiet t _ s hcall hout, fun v hv hinv _ _ => ?_⟩
  exact hQ _ v (.wrote hv.after hinv (hframe _))

/-- The rule of a loop over a list, whose body runs under the locks `mine`. -/
theorem wp_forEach (Φ : Db → Prop) (mine : List Row) {β : Type} {f : β → Tx Unit}
    {F : Db → β → Db} (xs : List β)
    (hf : ∀ x ∈ xs, ∀ (t : Context C Db Row Job) (s : Snapshot C Db Job α)
      (Q : Context C Db Row Job → Unit → Snapshot C Db Job α → Prop), t.call = call →
      t.out = [] → mine ⊆ t.held → P.Inv s →
      (∀ u v, Ran P Φ t u s v (fun db => F db x) → Q u () v) → P.Wp Q (f x) t s)
    {Q : Context C Db Row Job → Unit → Snapshot C Db Job α → Prop} (hcall : t.call = call)
    (hout : t.out = []) (hheld : mine ⊆ t.held) (hinv : P.Inv s)
    (hQ : ∀ u v, Ran P Φ t u s v (fun db => xs.foldl F db) → Q u () v) :
    P.Wp Q (forEach xs f) t s := by
  induction xs generalizing t s with
  | nil => exact hQ t s (.waited .refl hinv)
  | cons x xs ih =>
    refine (wp_bind _ _ _ _ _).mpr ?_
    refine hf x (List.mem_cons_self ..) t s _ hcall hout hheld hinv fun u v hran => ?_
    refine ih (fun y hy => hf y (List.mem_cons_of_mem x hy)) (hran.extended.call.trans hcall)
      (hran.out.trans hout) (List.Subset.trans hheld hran.extended.held) hran.inv
      fun w z hrest => ?_
    exact hQ w z (hran.trans hrest)

/-- Setting the status of courses writes courses, and nothing else. -/
theorem setCourseStatuses_eq (ids : List CourseRequestId) (status : CourseMaterialStatus)
    (db : Db) : ∃ courses, setCourseStatuses ids status db = { db with courses := courses } := by
  unfold setCourseStatuses
  induction ids generalizing db with
  | nil => exact ⟨db.courses, rfl⟩
  | cons id ids ih => exact ih (updateCourse id (fun c => { c with status := status }) _ db)

/-- Looking a course up after a status update of several courses. -/
theorem find_courses_setCourseStatuses (ids : List CourseRequestId)
    (status : CourseMaterialStatus) (k : CourseRequestId) (db : Db) :
    (setCourseStatuses ids status db).courses.find k =
      if k ∈ ids then (db.courses.find k).map fun c => { c with status := status }
      else db.courses.find k := by
  unfold setCourseStatuses
  induction ids generalizing db with
  | nil => rfl
  | cons id ids ih =>
    rw [List.foldl_cons, ih, find_updateCourse]
    by_cases hid : k = id
    · cases db.courses.find k <;> simp [hid]
    · by_cases hk : k ∈ ids <;> simp [hid, hk]

/-- Setting the status of courses of a locked request stays within the locks. -/
theorem lockFrame_setCourseStatuses {r : RequestId} {held : List Row}
    {ids : List CourseRequestId} {status : CourseMaterialStatus}
    (hlocks : ∀ id ∈ ids, .course id ∈ held) (hheld : .request r ∈ held) {db : Db}
    (hbelong : Belong r ids db) : LockFrame held db (setCourseStatuses ids status db) := by
  unfold setCourseStatuses
  induction ids generalizing db with
  | nil => exact .refl held db
  | cons id rest ih =>
    have hfirst : LockFrame held db (updateCourse id (fun c => { c with status := status })
        (by intro; rfl) db) := by
      refine LockFrame.updateCourse (hlocks id (List.mem_cons_self ..)) (fun _ => rfl)
        (fun _ => rfl) ?_
      intro c hc
      rw [hbelong id (List.mem_cons_self ..) c hc]
      exact hheld
    have hnext : Belong r rest (updateCourse id (fun c => { c with status := status })
        (by intro; rfl) db) := by
      refine Belong.updateCourse (fun _ => rfl) ?_
      exact fun k hk => hbelong k (List.mem_cons_of_mem id hk)
    exact hfirst.trans (ih (fun k hk => hlocks k (List.mem_cons_of_mem id hk)) hnext)

/-- Setting the status of any courses keeps courses with their request. -/
theorem Belong.setCourseStatuses {r : RequestId} {ids some : List CourseRequestId}
    {status : CourseMaterialStatus} {db : Db} (h : Belong r ids db) :
    Belong r ids (setCourseStatuses some status db) := by
  unfold Materials.setCourseStatuses
  induction some generalizing db with
  | nil => exact h
  | cons id rest ih => exact ih (h.updateCourse fun _ => rfl)

/-- Setting the status of courses leaves them with their request. -/
theorem Owns.setCourseStatuses {r : RequestId} {ids some : List CourseRequestId}
    {status : CourseMaterialStatus} {db : Db} (h : Owns r ids db) (hsome : some ⊆ ids) :
    Owns r ids (setCourseStatuses some status db) := by
  have hframe : LockFrame (.request r :: some.map .course) db
      (Materials.setCourseStatuses some status db) :=
    lockFrame_setCourseStatuses
      (fun id hid => List.mem_cons_of_mem _ (List.mem_map_of_mem hid)) (List.mem_cons_self ..)
      (h.belong hsome)
  exact (h.keeps hframe).2

/-- The status update of several courses of a locked request. -/
theorem wp_updateCourseStatuses {Q : Context C Db Row Job → Unit → Snapshot C Db Job α → Prop}
    {r : RequestId} {ids : List CourseRequestId} {status : CourseMaterialStatus}
    (hbelong : ∀ db, Φ db → Belong r ids db)
    (hkeep : ∀ db, Φ db → Φ (setCourseStatuses ids status db))
    (hquiet : ∀ u wants v, u.call = call → u.out = [] → P.Local u wants v) (hcall : t.call = call)
    (hout : t.out = []) (hheld : .request r ∈ t.held) (hinv : P.Inv s)
    (hQ : ∀ u v, Ran P Φ t u s v (setCourseStatuses ids status) → Q u () v) :
    P.Wp Q (updateCourseStatuses ids status) t s := by
  unfold updateCourseStatuses
  by_cases hempty : ids.isEmpty = true
  · rw [if_pos hempty]
    obtain rfl : ids = [] := by simpa using hempty
    exact hQ t s (.waited .refl hinv)
  · rw [if_neg hempty]
    refine wp_update hquiet hcall hout (fun v db hdb => ⟨?_, hkeep db hdb⟩) hQ
    exact lockFrame_setCourseStatuses
      (fun id hid => List.mem_append_right _ (List.mem_map_of_mem hid)) (by simp [hheld])
      (hbelong db hdb)

end Rules

end Odiseo.Materials
