import Odiseo.Database.Protocol
import Odiseo.Materials.Entities
import Mathlib.Data.List.Lattice

/-!
# Row updates and what row locks protect

The statements of the use cases change single rows by primary key. The lemmas
here say what each change leaves alone. `Protected` lists what cannot change
while a transaction holds row locks: besides the row itself, the lock of a
request protects its courses and its review slots, because every use case that
writes one of them holds the lock of the request when it commits.
-/

namespace Odiseo.Materials

open Database

/-- `UPDATE` of a course by its primary key. -/
def updateCourse (id : CourseRequestId) (change : MaterialRequestCourse → MaterialRequestCourse)
    (hchange : ∀ c, key (change c) = key c := by intro; rfl) (db : Db) : Db :=
  { db with courses := db.courses.modify id change hchange }

/-- `UPDATE` of a request by its primary key. -/
def updateRequest (id : RequestId) (change : MaterialRequest → MaterialRequest)
    (hchange : ∀ r, key (change r) = key r := by intro; rfl) (db : Db) : Db :=
  { db with requests := db.requests.modify id change hchange }

/-- `UPDATE` of a material by its primary key. -/
def updateMaterial (id : MaterialId) (change : Material → Material)
    (hchange : ∀ m, key (change m) = key m := by intro; rfl) (db : Db) : Db :=
  { db with materials := db.materials.modify id change hchange }

/-- `UPDATE` of a review slot by its primary key. -/
def updateSlot (id : SlotId) (change : MaterialReviewQuestion → MaterialReviewQuestion)
    (hchange : ∀ q, key (change q) = key q := by intro; rfl) (db : Db) : Db :=
  { db with slots := db.slots.modify id change hchange }

/-- `manager.update(Material, id, { status })`. -/
def setMaterialStatus (m : MaterialId) (status : MaterialRequestStatus) : Db → Db :=
  updateMaterial m fun q => { q with status := status }

/-- `DELETE` of the ledger rows that the statement saw. -/
def deleteUsages (seen : List MaterialQuestionUsage) (db : Db) : Db :=
  { db with usages := db.usages.delete fun u => u ∈ seen }

/-- `INSERT ... ON CONFLICT DO NOTHING` of ledger rows. -/
def insertUsages (rows : List MaterialQuestionUsage) (db : Db) : Db :=
  { db with usages := rows.foldl Table.insert db.usages }

section Frame

variable (id : ℕ) (db : Db)

@[simp] theorem updateCourse_requests (change) (hchange) :
    (updateCourse id change hchange db).requests = db.requests := rfl

@[simp] theorem updateCourse_materials (change) (hchange) :
    (updateCourse id change hchange db).materials = db.materials := rfl

@[simp] theorem updateCourse_slots (change) (hchange) :
    (updateCourse id change hchange db).slots = db.slots := rfl

@[simp] theorem updateCourse_usages (change) (hchange) :
    (updateCourse id change hchange db).usages = db.usages := rfl

@[simp] theorem updateCourse_catalog (change) (hchange) :
    (updateCourse id change hchange db).catalog = db.catalog := rfl

@[simp] theorem updateRequest_courses (change) (hchange) :
    (updateRequest id change hchange db).courses = db.courses := rfl

@[simp] theorem updateRequest_materials (change) (hchange) :
    (updateRequest id change hchange db).materials = db.materials := rfl

@[simp] theorem updateRequest_slots (change) (hchange) :
    (updateRequest id change hchange db).slots = db.slots := rfl

@[simp] theorem updateRequest_usages (change) (hchange) :
    (updateRequest id change hchange db).usages = db.usages := rfl

@[simp] theorem updateRequest_catalog (change) (hchange) :
    (updateRequest id change hchange db).catalog = db.catalog := rfl

@[simp] theorem updateMaterial_courses (change) (hchange) :
    (updateMaterial id change hchange db).courses = db.courses := rfl

@[simp] theorem updateMaterial_requests (change) (hchange) :
    (updateMaterial id change hchange db).requests = db.requests := rfl

@[simp] theorem updateMaterial_slots (change) (hchange) :
    (updateMaterial id change hchange db).slots = db.slots := rfl

@[simp] theorem updateMaterial_usages (change) (hchange) :
    (updateMaterial id change hchange db).usages = db.usages := rfl

@[simp] theorem updateMaterial_catalog (change) (hchange) :
    (updateMaterial id change hchange db).catalog = db.catalog := rfl

@[simp] theorem updateSlot_courses (change) (hchange) :
    (updateSlot id change hchange db).courses = db.courses := rfl

@[simp] theorem updateSlot_requests (change) (hchange) :
    (updateSlot id change hchange db).requests = db.requests := rfl

@[simp] theorem updateSlot_materials (change) (hchange) :
    (updateSlot id change hchange db).materials = db.materials := rfl

@[simp] theorem updateSlot_usages (change) (hchange) :
    (updateSlot id change hchange db).usages = db.usages := rfl

@[simp] theorem updateSlot_catalog (change) (hchange) :
    (updateSlot id change hchange db).catalog = db.catalog := rfl

end Frame

/-- Looking a course up after an update of course `id`. -/
theorem find_updateCourse (id k : CourseRequestId) (change) (hchange) (db : Db) :
    (updateCourse id change hchange db).courses.find k =
      if k = id then (db.courses.find k).map change else db.courses.find k :=
  Table.find_modify _ _ _ _ hchange

/-- Looking a request up after an update of request `id`. -/
theorem find_updateRequest (id k : RequestId) (change) (hchange) (db : Db) :
    (updateRequest id change hchange db).requests.find k =
      if k = id then (db.requests.find k).map change else db.requests.find k :=
  Table.find_modify _ _ _ _ hchange

/-- Looking a material up after an update of material `id`. -/
theorem find_updateMaterial (id k : MaterialId) (change) (hchange) (db : Db) :
    (updateMaterial id change hchange db).materials.find k =
      if k = id then (db.materials.find k).map change else db.materials.find k :=
  Table.find_modify _ _ _ _ hchange

/-- The courses of a request after an update that moves no course to another request. -/
theorem coursesOf_updateCourse (id : CourseRequestId) (r : RequestId) (change) (hchange) (db : Db)
    (hr : ∀ c, (change c).materialRequestId = c.materialRequestId) :
    (updateCourse id change hchange db).coursesOf r =
      (db.coursesOf r).map fun c => if c.id = id then change c else c :=
  Table.filter_modify _ _ _ hchange _ (by simp [hr])

/-- An update of a course does not touch the courses of other requests. -/
theorem coursesOf_updateCourse_of_ne (id : CourseRequestId) (r : RequestId) (change) (hchange)
    (db : Db) (hr : ∀ c, (change c).materialRequestId = c.materialRequestId)
    (hne : ∀ c, db.courses.find id = some c → c.materialRequestId ≠ r) :
    (updateCourse id change hchange db).coursesOf r = db.coursesOf r :=
  Table.filter_modify_of_not_mem _ _ _ hchange _ (by simp [hr]) (by simpa using hne)

/-- The slots of a request after an update that moves no slot to another request. -/
theorem slotsOf_updateSlot (id : SlotId) (r : RequestId) (change) (hchange) (db : Db)
    (hr : ∀ q, (change q).materialRequestId = q.materialRequestId) :
    (updateSlot id change hchange db).slotsOf r =
      (db.slotsOf r).map fun q => if q.id = id then change q else q :=
  Table.filter_modify _ _ _ hchange _ (by simp [hr])

@[simp] theorem coursesOf_updateRequest (id r : RequestId) (change) (hchange) (db : Db) :
    (updateRequest id change hchange db).coursesOf r = db.coursesOf r := rfl

@[simp] theorem coursesOf_updateMaterial (id : MaterialId) (r : RequestId) (change) (hchange)
    (db : Db) : (updateMaterial id change hchange db).coursesOf r = db.coursesOf r := rfl

@[simp] theorem coursesOf_updateSlot (id : SlotId) (r : RequestId) (change) (hchange) (db : Db) :
    (updateSlot id change hchange db).coursesOf r = db.coursesOf r := rfl

@[simp] theorem slotsOf_updateCourse (id : CourseRequestId) (r : RequestId) (change) (hchange)
    (db : Db) : (updateCourse id change hchange db).slotsOf r = db.slotsOf r := rfl

@[simp] theorem slotsOf_updateRequest (id r : RequestId) (change) (hchange) (db : Db) :
    (updateRequest id change hchange db).slotsOf r = db.slotsOf r := rfl

@[simp] theorem slotsOf_updateMaterial (id : MaterialId) (r : RequestId) (change) (hchange)
    (db : Db) : (updateMaterial id change hchange db).slotsOf r = db.slotsOf r := rfl

/-- What is the same in two committed states, the second of which comes after
commits of others while a transaction holds the rows `mine`. -/
structure Protected (mine : List Row) (a b : Db) : Prop where
  /-- A course is never deleted and never moves to another request or catalog course. -/
  course : ∀ id c, a.courses.find id = some c → ∃ c', b.courses.find id = some c' ∧
    c'.materialRequestId = c.materialRequestId ∧ c'.courseId = c.courseId
  /-- A request is never deleted and never moves to another material. -/
  material : ∀ r q, a.requests.find r = some q →
    ∃ q', b.requests.find r = some q' ∧ q'.materialId = q.materialId
  /-- A locked course does not change. -/
  courseRow : ∀ id, .course id ∈ mine → b.courses.find id = a.courses.find id
  /-- A locked request does not change. -/
  request : ∀ r, .request r ∈ mine → b.requests.find r = a.requests.find r
  /-- The courses of a locked request do not change. -/
  courses : ∀ r, .request r ∈ mine → b.coursesOf r = a.coursesOf r
  /-- The slots of a locked request do not change. -/
  slots : ∀ r, .request r ∈ mine → b.slotsOf r = a.slotsOf r

/-- A commit under the locks `held` spares everything that other locks protect. -/
def LockFrame (held : List Row) (a b : Db) : Prop :=
  ∀ mine : List Row, mine.Disjoint held → Protected mine a b

namespace Protected

/-- Nothing has happened. -/
theorem refl (mine : List Row) (a : Db) : Protected mine a a where
  course := fun _ c h => ⟨c, h, rfl, rfl⟩
  material := fun _ q h => ⟨q, h, rfl⟩
  courseRow := fun _ _ => rfl
  request := fun _ _ => rfl
  courses := fun _ _ => rfl
  slots := fun _ _ => rfl

/-- One change after another. -/
theorem trans {mine : List Row} {a b c : Db} (hab : Protected mine a b)
    (hbc : Protected mine b c) : Protected mine a c where
  course := by
    intro id x hx
    obtain ⟨y, hy, hr, hk⟩ := hab.course id x hx
    obtain ⟨z, hz, hr', hk'⟩ := hbc.course id y hy
    exact ⟨z, hz, hr'.trans hr, hk'.trans hk⟩
  material := by
    intro r x hx
    obtain ⟨y, hy, hm⟩ := hab.material r x hx
    obtain ⟨z, hz, hm'⟩ := hbc.material r y hy
    exact ⟨z, hz, hm'.trans hm⟩
  courseRow := fun id h => (hbc.courseRow id h).trans (hab.courseRow id h)
  request := fun r h => (hbc.request r h).trans (hab.request r h)
  courses := fun r h => (hbc.courses r h).trans (hab.courses r h)
  slots := fun r h => (hbc.slots r h).trans (hab.slots r h)

end Protected

namespace LockFrame

/-- Nothing has happened. -/
theorem refl (held : List Row) (a : Db) : LockFrame held a a :=
  fun mine _ => Protected.refl mine a

/-- One change after another, under the same locks. -/
theorem trans {held : List Row} {a b c : Db} (hab : LockFrame held a b)
    (hbc : LockFrame held b c) : LockFrame held a c :=
  fun mine hdisj => (hab mine hdisj).trans (hbc mine hdisj)

/-- More locks allow at least the same changes. -/
theorem mono {held more : List Row} (hmore : held ⊆ more) {a b : Db} (h : LockFrame held a b) :
    LockFrame more a b :=
  fun mine hdisj => h mine fun _ hk hheld => hdisj hk (hmore hheld)

/-- An update of a course under its lock and the lock of its request. -/
theorem updateCourse {held : List Row} {id : CourseRequestId} {change} {hchange} {db : Db}
    (hid : .course id ∈ held) (hr : ∀ c, (change c).materialRequestId = c.materialRequestId)
    (hk : ∀ c, (change c).courseId = c.courseId)
    (howner : ∀ c, db.courses.find id = some c → .request c.materialRequestId ∈ held) :
    LockFrame held db (updateCourse id change hchange db) := by
  intro mine hdisj
  refine ⟨?_, fun r q hq => ⟨q, hq, rfl⟩, ?_, fun _ _ => rfl, ?_, fun _ _ => rfl⟩
  · intro k c hc
    rw [find_updateCourse, hc]
    split
    · exact ⟨change c, rfl, hr c, hk c⟩
    · exact ⟨c, rfl, rfl, rfl⟩
  · intro k hmine
    have hne : k ≠ id := fun heq => hdisj (heq ▸ hmine) hid
    rw [find_updateCourse, if_neg hne]
  · intro r hmine
    refine coursesOf_updateCourse_of_ne _ _ _ _ _ hr ?_
    intro c hc heq
    exact hdisj (heq ▸ hmine) (howner c hc)

/-- An update of a request under its lock. -/
theorem updateRequest {held : List Row} {id : RequestId} {change} {hchange} {db : Db}
    (hid : .request id ∈ held) (hm : ∀ q, (change q).materialId = q.materialId) :
    LockFrame held db (updateRequest id change hchange db) := by
  intro mine hdisj
  refine ⟨fun _ c hc => ⟨c, hc, rfl, rfl⟩, ?_, fun _ _ => rfl, ?_, fun _ _ => rfl, fun _ _ => rfl⟩
  · intro r q hq
    rw [find_updateRequest, hq]
    split
    · exact ⟨change q, rfl, hm q⟩
    · exact ⟨q, rfl, rfl⟩
  · intro r hmine
    have hne : r ≠ id := fun heq => hdisj (heq ▸ hmine) hid
    rw [find_updateRequest, if_neg hne]

/-- An update of a material. -/
theorem updateMaterial {held : List Row} {id : MaterialId} {change} {hchange} {db : Db} :
    LockFrame held db (updateMaterial id change hchange db) := by
  intro mine _
  exact ⟨fun _ c hc => ⟨c, hc, rfl, rfl⟩, fun _ q hq => ⟨q, hq, rfl⟩, fun _ _ => rfl,
    fun _ _ => rfl, fun _ _ => rfl, fun _ _ => rfl⟩

/-- An update of a slot that only changes slots of a locked request. -/
theorem updateSlot {held : List Row} {id : SlotId} {r : RequestId} {change} {hchange} {db : Db}
    (hr : .request r ∈ held) (hkeep : ∀ q, (change q).materialRequestId = q.materialRequestId)
    (hother : ∀ q, q.materialRequestId ≠ r → change q = q) :
    LockFrame held db (updateSlot id change hchange db) := by
  intro mine hdisj
  refine ⟨fun _ c hc => ⟨c, hc, rfl, rfl⟩, fun _ q hq => ⟨q, hq, rfl⟩, fun _ _ => rfl,
    fun _ _ => rfl, fun _ _ => rfl, ?_⟩
  intro k hmine
  have hne : k ≠ r := fun heq => hdisj (heq ▸ hmine) hr
  rw [slotsOf_updateSlot _ _ _ _ _ hkeep]
  conv_rhs => rw [← List.map_id (db.slotsOf k)]
  apply List.map_congr_left
  intro q hq
  have hq : q.materialRequestId = k := by simpa using (List.mem_filter.mp hq).2
  have hsame : change q = q := hother q fun heq => hne (hq.symm.trans heq)
  simp [hsame]

/-- A change of nothing but materials and ledger rows. -/
theorem of_eq {held : List Row} {a b : Db} (hcourses : b.courses = a.courses)
    (hrequests : b.requests = a.requests) (hslots : b.slots = a.slots) : LockFrame held a b := by
  intro mine _
  refine ⟨fun id c hc => ⟨c, by rw [hcourses, hc], rfl, rfl⟩,
    fun r q hq => ⟨q, by rw [hrequests, hq], rfl⟩, fun _ _ => by rw [hcourses],
    fun _ _ => by rw [hrequests], ?_, ?_⟩
  · intro r _
    simp only [Db.coursesOf, hcourses]
  · intro r _
    simp only [Db.slotsOf, hslots]

/-- An insert of a request under its lock. -/
theorem insertRequest {held : List Row} {q : MaterialRequest} {db : Db}
    (hid : .request q.id ∈ held) :
    LockFrame held db { db with requests := db.requests.insert q } := by
  intro mine hdisj
  refine ⟨fun _ c hc => ⟨c, hc, rfl, rfl⟩, fun r x hx => ⟨x, ?_, rfl⟩, fun _ _ => rfl, ?_,
    fun _ _ => rfl, fun _ _ => rfl⟩
  · exact Table.find_insert_of_some _ _ _ _ hx
  · intro r hmine
    have hne : r ≠ q.id := fun heq => hdisj (heq ▸ hmine) hid
    exact Table.find_insert_of_ne _ _ _ hne

/-- An insert of a course under its lock and the lock of its request. -/
theorem insertCourse {held : List Row} {c : MaterialRequestCourse} {db : Db}
    (hid : .course c.id ∈ held) (hr : .request c.materialRequestId ∈ held) :
    LockFrame held db { db with courses := db.courses.insert c } := by
  intro mine hdisj
  refine ⟨fun k x hx => ⟨x, ?_, rfl, rfl⟩, fun _ q hq => ⟨q, hq, rfl⟩, ?_, fun _ _ => rfl, ?_,
    fun _ _ => rfl⟩
  · exact Table.find_insert_of_some _ _ _ _ hx
  · intro k hmine
    have hne : k ≠ c.id := fun heq => hdisj (heq ▸ hmine) hid
    exact Table.find_insert_of_ne _ _ _ hne
  · intro r hmine
    have hne : c.materialRequestId ≠ r := fun heq => hdisj (heq ▸ hmine) hr
    exact Table.filter_insert_of_not _ _ _ (by simpa using hne)

/-- An insert of a slot of a locked request. -/
theorem insertSlot {held : List Row} {q : MaterialReviewQuestion} {db : Db}
    (hr : .request q.materialRequestId ∈ held) :
    LockFrame held db { db with slots := db.slots.insert q } := by
  intro mine hdisj
  refine ⟨fun _ c hc => ⟨c, hc, rfl, rfl⟩, fun _ q hq => ⟨q, hq, rfl⟩, fun _ _ => rfl,
    fun _ _ => rfl, fun _ _ => rfl, ?_⟩
  intro r hmine
  have hne : q.materialRequestId ≠ r := fun heq => hdisj (heq ▸ hmine) hr
  exact Table.filter_insert_of_not _ _ _ (by simpa using hne)

end LockFrame

/-- The courses `ids` belong to request `r`. -/
def Owns (r : RequestId) (ids : List CourseRequestId) (db : Db) : Prop :=
  ∀ id ∈ ids, ∃ c, db.courses.find id = some c ∧ c.materialRequestId = r

/-- Courses stay with their request. -/
theorem Owns.of_protected {r : RequestId} {ids : List CourseRequestId} {mine : List Row}
    {a b : Db} (h : Owns r ids a) (hab : Protected mine a b) : Owns r ids b := by
  intro id hid
  obtain ⟨c, hc, hr⟩ := h id hid
  obtain ⟨c', hc', hr', _⟩ := hab.course id c hc
  exact ⟨c', hc', hr'.trans hr⟩

/-- A change within the locks leaves courses with their request. -/
theorem Owns.keeps {r : RequestId} {ids : List CourseRequestId} {held : List Row} {a b : Db}
    (h : Owns r ids a) (hab : LockFrame held a b) : LockFrame held a b ∧ Owns r ids b :=
  ⟨hab, h.of_protected (hab [] (by simp))⟩

/-- The courses `ids`, as far as they exist, belong to request `r`. -/
def Belong (r : RequestId) (ids : List CourseRequestId) (db : Db) : Prop :=
  ∀ id ∈ ids, ∀ c, db.courses.find id = some c → c.materialRequestId = r

/-- Courses of a request belong to it. -/
theorem Owns.belong {r : RequestId} {ids some : List CourseRequestId} {db : Db}
    (h : Owns r ids db) (hsome : some ⊆ ids) : Belong r some db := by
  intro id hid c hc
  obtain ⟨c', hc', hr⟩ := h id (hsome hid)
  rw [hc] at hc'
  cases hc'
  exact hr

/-- An update that moves no course keeps courses with their request. -/
theorem Belong.updateCourse {r : RequestId} {ids : List CourseRequestId} {id : CourseRequestId}
    {change} {hchange} {db : Db}
    (hr : ∀ c, (change c).materialRequestId = c.materialRequestId) (h : Belong r ids db) :
    Belong r ids (updateCourse id change hchange db) := by
  intro k hk c hc
  rw [find_updateCourse] at hc
  split at hc
  · obtain ⟨c', hc', rfl⟩ := Option.map_eq_some_iff.mp hc
    rw [hr, h k hk c' hc']
  · exact h k hk c hc

/-- Commits that obey the lock discipline spare what the rows `mine` protect. -/
theorem protected_of_after {C E α : Type} {P : Protocol C Db Row E α}
    (hguar : ∀ held a b, P.Guar held a b → LockFrame held a.db b.db) {mine : List Row}
    {s s' : Snapshot C Db E α} (h : P.After mine s s') : Protected mine s.db s'.db :=
  h.of_guar (fun a => Protected.refl mine a.db) (fun _ _ _ hab hbc => hab.trans hbc)
    fun held a b hdisj hg _ => hguar held a b hg mine hdisj

end Odiseo.Materials
