import Odiseo.Database.Draws
import Odiseo.Database.Outline
import Odiseo.Materials.Superseded

/-!
# Concurrent generations of one material

Generations of the same tenant, profile and week find or create their material behind
the unique index, and then reconcile it by two `save`s: the first one realigns the
status, the second one points the material at the new request. A `save` only writes
columns that differ from the row that it reads again, so the second one leaves a status
alone that another generation changes between this read and the update. Where that does
not happen, the generations serialise: the material ends with the status of the request
that it points at.
-/

namespace Odiseo.Materials

open Database Database.Protocol

/-- The natural identity of a material: its tenant, its profile and its week. -/
def Material.naturalKey (m : Material) : Uuid × Uuid × ℕ := (m.tenantId, m.profileId, m.weekNumber)

/-- The natural identity of the material that is generated. -/
def GenerateInputs.naturalKey (g : GenerateInputs) : Uuid × Uuid × ℕ :=
  (g.tenantId, g.profileId, g.weekNumber)

/-- The entry of this identity in the unique index. -/
def GenerateInputs.indexEntry (g : GenerateInputs) : Row :=
  .naturalKey g.tenantId g.profileId g.weekNumber

/-- The materials of a tenant, profile and week. -/
def Db.materialsOf (db : Db) (k : Uuid × Uuid × ℕ) : List Material :=
  db.materials.filter fun m => m.naturalKey = k

/-- The identifiers that the database draws for the rows of a generation. -/
def GenerateInputs.draws (g : GenerateInputs) : List Row :=
  .material g.newMaterialId :: .request g.newRequestId ::
    (g.createdCourses.map fun c => .course c.id) ++ g.reviewQuestions.map fun q => .slot q.id

/-- A row with the identifier is there. -/
def Db.Mentions (db : Db) : Row → Prop
  | .material id => (db.materials.find id).isSome
  | .request id => (db.requests.find id).isSome
  | .course id => (db.courses.find id).isSome
  | .slot id => (db.slots.find id).isSome
  | _ => False

instance (db : Db) : DecidablePred db.Mentions
  | .material id => inferInstanceAs (Decidable ((db.materials.find id).isSome = true))
  | .request id => inferInstanceAs (Decidable ((db.requests.find id).isSome = true))
  | .course id => inferInstanceAs (Decidable ((db.courses.find id).isSome = true))
  | .slot id => inferInstanceAs (Decidable ((db.slots.find id).isSome = true))
  | .usage _ | .naturalKey _ _ _ => inferInstanceAs (Decidable False)

/-- The unique index on the natural identity of materials, and the foreign key of their
latest request. -/
structure Db.MaterialConstraints (db : Db) : Prop where
  naturalKey : ∀ a ∈ db.materials.rows, ∀ b ∈ db.materials.rows,
    a.naturalKey = b.naturalKey → a.id = b.id
  latestRequest : ∀ m ∈ db.materials.rows, ∀ r, m.latestRequestId = some r →
    (db.requests.find r).isSome

/-- Only generations of one material are started. -/
def Generates (k : Uuid × Uuid × ℕ) (call : UseCase) : Prop :=
  ∃ g : GenerateInputs, call = .generate g ∧ g.naturalKey = k

/-- The identifiers that are drawn for the rows of a call. -/
def UseCase.draws : UseCase → List Row
  | .generate g => g.draws
  | _ => []

/-- In the runs under a condition the generations of one material serialise: none fails,
there is one material, and in the end it has the status that belongs to its latest request. -/
def Serialises (orm : Orm) (cond : State → Event UseCase → Prop) : Prop :=
  ∀ (k : Uuid × Uuid × ℕ) (db : Db) (s : State), db.MaterialConstraints →
    (materials orm).Reaches
      (fun s e => (Machine.StartsOnly (Generates k) s e ∧ Draws UseCase.draws Db.Mentions s e) ∧
        cond s e)
      (System.idle db) s →
    (∀ t ∈ s.active, ∀ e, t.program ≠ .fail e) ∧ (s.db.materialsOf k).length ≤ 1 ∧
      (s.active = [] → s.commits ≠ [] → ∃ m g, s.db.materialsOf k = [m] ∧
        .generate g ∈ s.commits.map (·.call) ∧ m.latestRequestId = some g.newRequestId ∧
        m.status = g.initialStatus)

/-- The `UPDATE` of a material by `save`. -/
def saveMaterialRow (entity reread : Material) : Tx Unit :=
  Program.write (fun _ => [.material entity.id]) (fun _ => saveMaterialIn entity reread) fun _ => ()

/-- The next statement of the program is the update of the material by `save`, which has read
the row `reread` again. -/
def UpdatesMaterialNext (entity reread : Material) (p : Tx Outcome) : Prop :=
  ∃ rest : Unit → Tx Outcome, p = (saveMaterialRow entity reread).bind rest

/-- A generation that points the material at its request, and has found its own status when it
read the row again, updates a row that still has this status. -/
def LinksInTime (t : Ctx) (p : Tx Outcome) (s : Committed) : Prop :=
  ∀ g entity reread row, t.call = .generate g → UpdatesMaterialNext entity reread p →
    entity.latestRequestId = some g.newRequestId → reread.status = entity.status →
    (t.view s).materials.find entity.id = some row → row.status = entity.status

/-- No generation points a material at its request whose status has moved on. -/
def NoLateLink (s : State) (e : Event UseCase) : Prop :=
  ∀ t ∈ s.active, e = .exec t.id → LinksInTime t.toContext t.program s.toSnapshot

/-- What a commit under the locks `held` leaves of the materials and requests: rows stay, a
material whose row is not locked does not change, and none appears under an identity whose
entry in the unique index is not locked. -/
structure MaterialFrame (held : List Row) (a b : Db) : Prop where
  stays : ∀ m row, a.materials.find m = some row →
    ∃ row', b.materials.find m = some row' ∧ row'.naturalKey = row.naturalKey
  locked : ∀ m, .material m ∉ held → b.materials.find m = a.materials.find m
  appears : ∀ tenantId profileId weekNumber, .naturalKey tenantId profileId weekNumber ∉ held →
    ∀ row ∈ b.materials.rows, row.naturalKey = (tenantId, profileId, weekNumber) →
      ∃ row₀ ∈ a.materials.rows, row₀.naturalKey = (tenantId, profileId, weekNumber)
  requests : ∀ r, (a.requests.find r).isSome → (b.requests.find r).isSome

/-- A change of a generation under the locks `held`: it keeps within them, and the rows that it
inserts carry the identifiers that were drawn for them. -/
def GenerateInputs.Changes (g : GenerateInputs) (held : List Row) (change : Db → Db) : Prop :=
  ∀ db, MaterialFrame held db (change db) ∧
    ∀ k, (change db).Mentions k → db.Mentions k ∨ k ∈ g.draws

namespace MaterialFrame

variable {held more : List Row} {a b c : Db}

/-- Materials and requests are as they were. -/
theorem of_eq (hmaterials : b.materials = a.materials)
    (hrequests : ∀ r, (a.requests.find r).isSome → (b.requests.find r).isSome) :
    MaterialFrame held a b where
  stays := fun m row h => ⟨row, by rw [hmaterials, h], rfl⟩
  locked := fun _ _ => by rw [hmaterials]
  appears := fun _ _ _ _ row h hkey => ⟨row, by rwa [hmaterials] at h, hkey⟩
  requests := hrequests

/-- One change after another. -/
theorem trans (hab : MaterialFrame held a b) (hbc : MaterialFrame held b c) :
    MaterialFrame held a c where
  stays := by
    intro m x hx
    obtain ⟨y, hy, hkey⟩ := hab.stays m x hx
    obtain ⟨z, hz, hkey'⟩ := hbc.stays m y hy
    exact ⟨z, hz, hkey'.trans hkey⟩
  locked := fun m hm => (hbc.locked m hm).trans (hab.locked m hm)
  appears := by
    intro tenantId profileId weekNumber hfree z hz hkey
    obtain ⟨y, hy, hkey'⟩ := hbc.appears _ _ _ hfree z hz hkey
    exact hab.appears _ _ _ hfree y hy hkey'
  requests := fun r h => hbc.requests r (hab.requests r h)

/-- More locks allow at least the same changes. -/
theorem mono (hmore : held ⊆ more) (h : MaterialFrame held a b) : MaterialFrame more a b where
  stays := h.stays
  locked := fun m hm => h.locked m fun hheld => hm (hmore hheld)
  appears := fun _ _ _ hfree => h.appears _ _ _ fun hheld => hfree (hmore hheld)
  requests := h.requests

end MaterialFrame

section Changes

variable {g : GenerateInputs} {held : List Row}

/-- A change within the frame, whose new rows carry identifiers that were drawn. -/
theorem changes_of_frame {change : Db → Db} (hframe : ∀ db, MaterialFrame held db (change db))
    (hmaterials : ∀ db k, ((change db).materials.find k).isSome →
      (db.materials.find k).isSome ∨ .material k ∈ g.draws)
    (hrequests : ∀ db k, ((change db).requests.find k).isSome →
      (db.requests.find k).isSome ∨ .request k ∈ g.draws)
    (hcourses : ∀ db k, ((change db).courses.find k).isSome →
      (db.courses.find k).isSome ∨ .course k ∈ g.draws)
    (hslots : ∀ db k, ((change db).slots.find k).isSome →
      (db.slots.find k).isSome ∨ .slot k ∈ g.draws) : g.Changes held change := by
  refine fun db => ⟨hframe db, fun k h => ?_⟩
  cases k with
  | material id => exact hmaterials db id h
  | request id => exact hrequests db id h
  | course id => exact hcourses db id h
  | slot id => exact hslots db id h
  | usage id => exact h.elim
  | naturalKey _ _ _ => exact h.elim

/-- Nothing changes. -/
theorem changes_nothing : g.Changes held fun db => db :=
  fun _ => ⟨.of_eq rfl fun _ h => h, fun _ h => .inl h⟩

/-- A key that is found after an insert was there before, or is the new one. -/
theorem isSome_find_insert {κ ρ : Type} [Keyed κ ρ] [DecidableEq κ] {t : Table κ ρ} {r : ρ} {k : κ}
    (h : ((t.insert r).find k).isSome) : (t.find k).isSome ∨ k = key r := by
  by_cases hk : k = key r
  · exact .inr hk
  · rw [Table.find_insert_of_ne _ _ _ hk] at h
    exact .inl h

/-- The insert of the material. -/
theorem changes_insertMaterial :
    g.Changes [g.indexEntry, .material g.newMaterialId]
      fun db => { db with materials := db.materials.insert g.newMaterial } := by
  refine changes_of_frame (fun db => ⟨?_, ?_, ?_, fun _ h => h⟩) ?_ (fun _ _ h => .inl h)
    (fun _ _ h => .inl h) fun _ _ h => .inl h
  · exact fun m row h => ⟨row, Table.find_insert_of_some _ _ _ _ h, rfl⟩
  · intro m hfree
    refine Table.find_insert_of_ne _ _ _ ?_
    rintro rfl
    exact hfree (by simp [key, GenerateInputs.newMaterial])
  · intro tenantId profileId weekNumber hfree row hrow hkey
    rcases Table.mem_insert hrow with hold | rfl
    · exact ⟨row, hold, hkey⟩
    · cases hkey
      exact absurd (List.mem_cons_self ..) hfree
  · intro db k h
    refine (isSome_find_insert h).imp_right ?_
    rintro rfl
    exact List.mem_cons_self ..

/-- A change of the ledger only. -/
theorem changes_deleteUsages (seen : List MaterialQuestionUsage) :
    g.Changes held (deleteUsages seen) :=
  changes_of_frame (fun _ => .of_eq rfl fun _ h => h) (fun _ _ h => .inl h) (fun _ _ h => .inl h)
    (fun _ _ h => .inl h) fun _ _ h => .inl h

/-- The update of a locked material. -/
theorem changes_saveMaterialIn {entity reread : Material} :
    g.Changes [.material entity.id] (saveMaterialIn entity reread) := by
  refine changes_of_frame (fun db => ⟨?_, ?_, ?_, fun _ h => h⟩) ?_ (fun _ _ h => .inl h)
    (fun _ _ h => .inl h) fun _ _ h => .inl h
  · intro m row hrow
    rw [find_saveMaterialIn, hrow]
    split
    · exact ⟨_, rfl, rfl⟩
    · exact ⟨row, rfl, rfl⟩
  · intro m hfree
    rw [find_saveMaterialIn, if_neg fun heq => hfree (by simp [heq])]
  · intro _ _ _ _ row hrow hkey
    obtain ⟨row₀, hrow₀, rfl⟩ := List.mem_map.mp hrow
    refine ⟨row₀, hrow₀, ?_⟩
    split at hkey
    · exact hkey
    · exact hkey
  · intro db k h
    rw [find_saveMaterialIn] at h
    split at h
    · exact .inl (by simpa using h)
    · exact .inl h

/-- The insert of the request. -/
theorem changes_insertRequest (m : MaterialId) :
    g.Changes held fun db => { db with requests := db.requests.insert (g.newRequest m) } := by
  refine changes_of_frame (fun db => .of_eq rfl fun r h => ?_) (fun _ _ h => .inl h) ?_
    (fun _ _ h => .inl h) fun _ _ h => .inl h
  · obtain ⟨q, hq⟩ := Option.isSome_iff_exists.mp h
    exact Option.isSome_iff_exists.mpr ⟨q, Table.find_insert_of_some _ _ _ _ hq⟩
  · intro db k h
    refine (isSome_find_insert h).imp_right ?_
    rintro rfl
    exact List.mem_cons_of_mem _ (List.mem_cons_self ..)

/-- The insert of a course. -/
theorem changes_insertCourse {c : MaterialRequestCourse} (hc : c ∈ g.createdCourses) :
    g.Changes held fun db => { db with courses := db.courses.insert c } := by
  refine changes_of_frame (fun _ => .of_eq rfl fun _ h => h) (fun _ _ h => .inl h)
    (fun _ _ h => .inl h) ?_ fun _ _ h => .inl h
  intro db k h
  refine (isSome_find_insert h).imp_right ?_
  rintro rfl
  have hmem : Row.course c.id ∈ g.createdCourses.map fun c => Row.course c.id :=
    List.mem_map_of_mem hc
  exact List.mem_append_left _ (List.mem_cons_of_mem _ (List.mem_cons_of_mem _ hmem))

/-- The insert of a slot. -/
theorem changes_insertSlot {q : MaterialReviewQuestion} (hq : q ∈ g.reviewQuestions) :
    g.Changes held fun db => { db with slots := db.slots.insert q } := by
  refine changes_of_frame (fun _ => .of_eq rfl fun _ h => h) (fun _ _ h => .inl h)
    (fun _ _ h => .inl h) (fun _ _ h => .inl h) ?_
  intro db k h
  refine (isSome_find_insert h).imp_right ?_
  rintro rfl
  have hmem : Row.slot q.id ∈ g.reviewQuestions.map fun q => Row.slot q.id :=
    List.mem_map_of_mem hq
  exact List.mem_append_right _ hmem

/-- The statuses of courses. -/
theorem changes_setCourseStatuses (ids : List CourseRequestId) (status : CourseMaterialStatus) :
    g.Changes held (setCourseStatuses ids status) := by
  have htables : ∀ db, (setCourseStatuses ids status db).materials = db.materials ∧
      (setCourseStatuses ids status db).requests = db.requests ∧
      (setCourseStatuses ids status db).slots = db.slots := by
    intro db
    obtain ⟨courses, h⟩ := setCourseStatuses_eq ids status db
    simp [h]
  refine changes_of_frame (fun db => .of_eq (htables db).1 fun r h => (htables db).2.1 ▸ h) ?_ ?_ ?_ ?_
  · exact fun db k h => .inl ((htables db).1 ▸ h)
  · exact fun db k h => .inl ((htables db).2.1 ▸ h)
  · intro db k h
    rw [find_courses_setCourseStatuses] at h
    split at h
    · exact .inl (by simpa using h)
    · exact .inl h
  · exact fun db k h => .inl ((htables db).2.2 ▸ h)

end Changes

section Writes

variable {g : GenerateInputs}

/-- The statements of a generation write changes of it. -/
def GenerateInputs.Statement (g : GenerateInputs) (_ : Db) (locks : List Row)
    (change : Db → Db) : Prop := g.Changes locks change

/-- A `SELECT` changes nothing. -/
theorem statement_select {β : Type} (f : Db → β) : (Program.select f : Tx β).Writes g.Statement :=
  Program.writes_select (fun _ => changes_nothing) f

/-- An `INSERT` of a row changes nothing when it is refused. -/
theorem statement_insertRow {row : Row} {taken : Db → Bool} {insert : Db → Db}
    (h : g.Changes [row] insert) : (insertRow row taken insert).Writes g.Statement := by
  intro v
  refine ⟨?_, ?_⟩
  · by_cases htaken : taken v = true
    · have hnothing : g.Changes [row] fun db => db := changes_nothing
      simpa [GenerateInputs.Statement, htaken] using hnothing
    · simpa [GenerateInputs.Statement, htaken] using h
  · dsimp only [Program.bind]
    split <;> trivial

/-- The statements of a loop are those of its body. -/
theorem statement_forEach {β : Type} {f : β → Tx Unit} (xs : List β)
    (h : ∀ x ∈ xs, (f x).Writes g.Statement) : (forEach xs f).Writes g.Statement := by
  induction xs with
  | nil => trivial
  | cons x xs ih =>
    refine (h x (List.mem_cons_self ..)).bind fun _ => ?_
    exact ih fun y hy => h y (List.mem_cons_of_mem x hy)

/-- The statements of `save`. -/
theorem statement_saveMaterial (entity : Material) : (saveMaterial entity).Writes g.Statement := by
  refine (statement_select _).bind fun reread => ?_
  cases reread with
  | none => trivial
  | some reread =>
    dsimp only
    split
    · trivial
    · exact fun v => ⟨changes_saveMaterialIn, trivial⟩

/-- The statements of the deletion of the ledger. -/
theorem statement_clearUsages (prevRequestIds : List RequestId) :
    (clearUsages prevRequestIds).Writes g.Statement := by
  unfold clearUsages
  split
  · trivial
  · exact fun v => ⟨changes_deleteUsages _, trivial⟩

/-- The statements of finding or creating the material. -/
theorem statement_findOrCreateMaterial : (findOrCreateMaterial g).Writes g.Statement := by
  refine (statement_select _).bind fun material => ?_
  cases material with
  | some material => trivial
  | none =>
    refine Program.Writes.bind ?_ fun _ => statement_select _
    refine fun v => ⟨?_, trivial⟩
    by_cases htaken : v.materials.rows.any g.isMaterial = true
    · simpa [GenerateInputs.Statement, htaken] using changes_nothing (g := g)
    · simpa [GenerateInputs.Statement, GenerateInputs.indexEntry, htaken] using
        changes_insertMaterial (g := g)

/-- **The statements of a generation** keep the frame, and insert rows under the identifiers
that were drawn for them. -/
theorem statement_generateMaterial : (generateMaterial g).Writes g.Statement := by
  refine statement_findOrCreateMaterial.bind fun material => ?_
  cases material with
  | none => trivial
  | some material =>
    refine (statement_select _).bind fun _ => ?_
    refine (statement_clearUsages _).bind fun _ => ?_
    refine (statement_saveMaterial _).bind fun _ => ?_
    refine (statement_insertRow (changes_insertRequest _)).bind fun _ => ?_
    refine (statement_saveMaterial _).bind fun _ => ?_
    refine (statement_forEach _ fun c hc => ?_).bind fun _ => ?_
    · exact statement_insertRow (changes_insertCourse hc)
    refine (statement_forEach _ fun q hq => ?_).bind fun _ => ?_
    · exact statement_insertRow (changes_insertSlot hq)
    split
    · trivial
    · refine Program.Writes.bind ?_ fun _ => trivial
      unfold updateCourseStatuses
      split
      · trivial
      · exact fun v => ⟨changes_setCourseStatuses _ _, trivial⟩

end Writes

/-- The protocol of generations: each commit keeps the frame, and inserts rows under the
identifiers that were drawn for them. -/
def generationProtocol : Protocol UseCase Db Row Job Outcome where
  Inv := fun _ => True
  Guar := fun held a b => ∃ c g, b.commits = a.commits ++ [c] ∧ c.call = .generate g ∧
    MaterialFrame held a.db b.db ∧ ∀ k, b.db.Mentions k → a.db.Mentions k ∨ k ∈ c.call.draws
  Local := fun _ _ _ => True
  Pre := fun _ _ _ => True
  PreCommit := fun _ _ _ => True

/-- The commits of others keep a frame under locks that leave the own rows alone. -/
theorem frame_of_after {mine : List Row} {a b : Committed}
    (h : generationProtocol.After mine a b) :
    ∃ held, mine.Disjoint held ∧ MaterialFrame held a.db b.db := by
  refine After.of_guar (R := fun a b => ∃ held, mine.Disjoint held ∧ MaterialFrame held a.db b.db)
    ?_ ?_ ?_ h
  · exact fun a => ⟨[], List.disjoint_nil_right _, .of_eq rfl fun _ h => h⟩
  · rintro a b c ⟨held, hdisj, hab⟩ ⟨more, hdisj', hbc⟩
    refine ⟨held ++ more, List.disjoint_append_right.mpr ⟨hdisj, hdisj'⟩, ?_⟩
    exact (hab.mono (List.subset_append_left _ _)).trans (hbc.mono (List.subset_append_right _ _))
  · rintro held a b hdisj ⟨_, _, _, _, hframe, _⟩ _
    exact ⟨held, hdisj, hframe⟩

/-- Generations follow the protocol. -/
theorem generationProtocol_sound (orm : Orm) {k : Uuid × Uuid × ℕ}
    {cond : State → Event UseCase → Prop}
    (hcond : ∀ s e, cond s e → Machine.StartsOnly (Generates k) s e) :
    generationProtocol.Sound (materials orm) cond where
  starts := by
    intro s call _ hstart
    obtain ⟨g, rfl, _⟩ := hcond _ _ hstart call rfl
    have hcomp : ∀ held (f f' : Db → Db), g.Changes held f → g.Changes held f' →
        g.Changes held fun db => f' (f db) := by
      intro held f f' hf hf' db
      refine ⟨(hf db).1.trans (hf' (f db)).1, fun x hx => ?_⟩
      rcases (hf' (f db)).2 x hx with hmid | hnew
      · exact (hf db).2 x hmid
      · exact .inr hnew
    have hwrites : ((generateMaterial g).bind fun r => .done (.generated r) : Tx Outcome).Writes
        g.Statement := statement_generateMaterial.bind fun _ => trivial
    refine wp_of_frame (F := g.Changes) (fun _ _ _ => trivial) ?_ hcomp hwrites changes_nothing ?_
    · exact fun held more change hmore h db => ⟨(h db).1.mono hmore, (h db).2⟩
    · intro u a v hcall hlog
      refine commits_of_after trivial fun w _ _ _ _ => ⟨trivial, ?_⟩
      refine ⟨_, g, rfl, hcall, (hlog w.db).1, fun k hk => ?_⟩
      have hdraws : u.call.draws = g.draws := congrArg UseCase.draws hcall
      rw [hdraws]
      exact (hlog w.db).2 k hk
  pre := fun _ _ _ _ _ _ _ _ _ => trivial
  preCommit := fun _ _ _ _ _ _ _ => trivial
  stable := fun _ _ _ _ _ _ _ _ _ _ _ _ => trivial

/-- The material of a generation is there, or has been inserted and is nobody else's. -/
structure Placed (g : GenerateInputs) (inserted : Bool) (m : MaterialId) (held : List Row)
    (db : Db) : Prop where
  found : inserted = false → ∃ row, db.materials.find m = some row ∧
    row.naturalKey = g.naturalKey
  created : inserted = true → m = g.newMaterialId ∧ .material m ∈ held ∧ g.indexEntry ∈ held ∧
    db.materials.find m = none ∧ ∀ row ∈ db.materials.rows, row.naturalKey ≠ g.naturalKey

namespace Placed

variable {g : GenerateInputs} {inserted : Bool} {m : MaterialId} {held mine : List Row} {a b db : Db}

/-- The material stays where it is while others commit. -/
theorem mono (h : Placed g inserted m held a) (hmine : held ⊆ mine)
    (hframe : ∃ others, held.Disjoint others ∧ MaterialFrame others a b) :
    Placed g inserted m mine b := by
  obtain ⟨others, hdisj, hframe⟩ := hframe
  refine ⟨fun hfound => ?_, fun hcreated => ?_⟩
  · obtain ⟨row, hrow, hkey⟩ := h.found hfound
    obtain ⟨row', hrow', hkey'⟩ := hframe.stays m row hrow
    exact ⟨row', hrow', hkey'.trans hkey⟩
  · obtain ⟨hm, hheld, hentry, hnone, hfree⟩ := h.created hcreated
    refine ⟨hm, hmine hheld, hmine hentry, ?_, fun row hrow hkey => ?_⟩
    · rw [hframe.locked m fun hother => hdisj hheld hother, hnone]
    · obtain ⟨row₀, hrow₀, hkey₀⟩ :=
        hframe.appears _ _ _ (fun hother => hdisj hentry hother) row hrow hkey
      exact hfree row₀ hrow₀ hkey₀

/-- The row of the material, as its generation sees it. -/
theorem row (h : Placed g inserted m held db) : ∃ row,
    (g.materialIn inserted db).materials.find m = some row ∧ row.naturalKey = g.naturalKey := by
  cases inserted with
  | false =>
    obtain ⟨row, hrow, hkey⟩ := h.found rfl
    exact ⟨row, hrow, hkey⟩
  | true =>
    obtain ⟨rfl, _, _, hnone, _⟩ := h.created rfl
    refine ⟨g.newMaterial, ?_, rfl⟩
    have hinsert := Table.find_insert db.materials g.newMaterial g.newMaterialId hnone
    exact hinsert.trans (if_pos rfl)

/-- A generation inserts no other material. -/
theorem other (h : Placed g inserted m held db) {k : MaterialId} (hk : k ≠ m) :
    (g.materialIn inserted db).materials.find k = db.materials.find k := by
  cases inserted with
  | false => rfl
  | true =>
    obtain ⟨rfl, _⟩ := h.created rfl
    exact Table.find_insert_of_ne _ _ _ hk

/-- There is no other material with the natural identity. -/
theorem id_eq (h : Placed g inserted m held db) (hdb : db.MaterialConstraints) {row : Material}
    (hrow : row ∈ db.materials.rows) (hkey : row.naturalKey = g.naturalKey) : row.id = m := by
  cases inserted with
  | false =>
    obtain ⟨row', hrow', hkey'⟩ := h.found rfl
    have hid : row'.id = m := Table.key_of_find hrow'
    rw [← hid]
    exact hdb.naturalKey row hrow row' (Table.mem_of_find hrow') (hkey.trans hkey'.symm)
  | true =>
    obtain ⟨_, _, _, _, hfree⟩ := h.created rfl
    exact absurd hkey (hfree row hrow)

end Placed

/-- The row of the material, after a generation has pointed it at its request. -/
theorem find_linkIn (g : GenerateInputs) (c : Creation) (db : Db) :
    (g.linkIn c db).materials.find c.material.id =
      ((g.openIn c db).materials.find c.material.id).map fun row =>
        { row with
          status := saved g.initialStatus c.linked.status row.status
          latestRequestId :=
            saved (some g.newRequestId) c.linked.latestRequestId row.latestRequestId } := by
  unfold GenerateInputs.linkIn
  rw [find_saveMaterialIn, if_pos rfl]

/-- The other materials, after a generation has pointed its material at its request. -/
theorem find_linkIn_of_ne {g : GenerateInputs} {c : Creation} {db : Db} {k : MaterialId}
    (hk : k ≠ c.material.id) :
    (g.linkIn c db).materials.find k = (g.materialIn c.inserted db).materials.find k := by
  unfold GenerateInputs.linkIn
  rw [find_saveMaterialIn, if_neg hk, find_materials_openIn]
  simp [hk]

/-- The row of the material depends on the row that it had before. -/
theorem find_linkIn_congr {g : GenerateInputs} {c : Creation} {a b : Db}
    (h : b.materials.find c.material.id = a.materials.find c.material.id) :
    (g.linkIn c b).materials.find c.material.id = (g.linkIn c a).materials.find c.material.id := by
  have hmaterial : (g.materialIn c.inserted b).materials.find c.material.id =
      (g.materialIn c.inserted a).materials.find c.material.id := by
    cases c.inserted with
    | false => exact h
    | true =>
      cases hrow : a.materials.find c.material.id with
      | some row =>
        rw [hrow] at h
        exact (find_materialIn g b h).trans (find_materialIn g a hrow).symm
      | none =>
        rw [hrow] at h
        by_cases hm : c.material.id = key g.newMaterial
        · rw [hm] at h hrow ⊢
          have hb := Table.find_insert b.materials g.newMaterial (key g.newMaterial) h
          have ha := Table.find_insert a.materials g.newMaterial (key g.newMaterial) hrow
          rw [if_pos rfl] at hb ha
          exact hb.trans ha.symm
        · have hb := Table.find_insert_of_ne b.materials g.newMaterial _ hm
          have ha := Table.find_insert_of_ne a.materials g.newMaterial _ hm
          exact (hb.trans h).trans (ha.trans hrow).symm
  rw [find_linkIn, find_linkIn, find_materials_openIn, find_materials_openIn, hmaterial]

/-- A material has the natural identity and points at the request of the generation, whose
status it has. -/
structure LinkedTo (g : GenerateInputs) (db : Db) (m : Material) : Prop where
  find : db.materials.find m.id = some m
  naturalKey : m.naturalKey = g.naturalKey
  latestRequest : m.latestRequestId = some g.newRequestId
  status : m.status = g.initialStatus

/-- A generation has pointed its material at its request. Its row is locked. -/
structure Links (g : GenerateInputs) (c : Creation) (t : Ctx) (s : Committed) : Prop where
  call : t.call = .generate g
  held : .material c.material.id ∈ t.held
  placed : Placed g c.inserted c.material.id t.held s.db
  linked : ∃ m, m.id = c.material.id ∧ LinkedTo g (g.linkIn c s.db) m

namespace Links

variable {g : GenerateInputs} {c : Creation} {t u : Ctx} {s v : Committed}

/-- The material stays linked until the commit. -/
theorem mono (h : Links g c t s) (hcall : u.call = t.call) (hheld : t.held ⊆ u.held)
    (hafter : generationProtocol.After t.held s v) : Links g c u v := by
  obtain ⟨others, hdisj, hframe⟩ := frame_of_after hafter
  refine ⟨hcall.trans h.call, hheld h.held, h.placed.mono hheld ⟨others, hdisj, hframe⟩, ?_⟩
  obtain ⟨m, hid, hlinked⟩ := h.linked
  have hsame : v.db.materials.find c.material.id = s.db.materials.find c.material.id :=
    hframe.locked _ fun hother => hdisj h.held hother
  refine ⟨m, hid, { hlinked with find := ?_ }⟩
  rw [hid, find_linkIn_congr hsame, ← hid]
  exact hlinked.find

/-- **The commit of a generation** keeps the constraints, and leaves a material with the status
of its latest request. -/
theorem reconciled {db : Db} (h : Links g c t s) (hdb : s.db.MaterialConstraints)
    (hmaterials : db.materials = (g.linkIn c s.db).materials)
    (hrequests : db.requests = (g.linkIn c s.db).requests) :
    db.MaterialConstraints ∧ ∃ m, LinkedTo g db m := by
  obtain ⟨m, hid, hlinked⟩ := h.linked
  have hfind : db.materials.find m.id = some m := by
    rw [hmaterials]
    exact hlinked.find
  -- a row of the database is this one, or was there before
  have hrows : ∀ row ∈ db.materials.rows, row = m ∨ row.id ≠ m.id ∧ row ∈ s.db.materials.rows := by
    intro row hrow
    have hself : db.materials.find row.id = some row := Table.find_of_mem hrow
    by_cases hrowid : row.id = m.id
    · rw [hrowid, hfind] at hself
      exact .inl (Option.some.inj hself).symm
    · refine .inr ⟨hrowid, ?_⟩
      have hother : row.id ≠ c.material.id := by rwa [← hid]
      rw [hmaterials, find_linkIn_of_ne hother, h.placed.other hother] at hself
      exact Table.mem_of_find hself
  refine ⟨⟨?_, ?_⟩, m, { hlinked with find := hfind }⟩
  · have hunique : ∀ row, row ∈ s.db.materials.rows → row.naturalKey = m.naturalKey →
        row.id = m.id := by
      intro row hrow hkey
      rw [hid]
      exact h.placed.id_eq hdb hrow (hkey.trans hlinked.naturalKey)
    intro x hx y hy hkey
    rcases hrows x hx with rfl | ⟨_, hx⟩ <;> rcases hrows y hy with rfl | ⟨_, hy⟩
    · rfl
    · exact (hunique y hy hkey.symm).symm
    · exact hunique x hx hkey
    · exact hdb.naturalKey x hx y hy hkey
  · intro row hrow r hr
    have hinserted : ∀ k, (db.requests.find k).isSome =
        ((s.db.requests.insert (g.newRequest c.material.id)).find k).isSome := by
      intro k
      have hlink : (g.linkIn c s.db).requests =
          s.db.requests.insert (g.newRequest c.material.id) := by
        change (g.materialIn c.inserted s.db).requests.insert _ = _
        rw [materialIn_requests]
      rw [hrequests, hlink]
    rw [hinserted]
    rcases hrows row hrow with rfl | ⟨_, hold⟩
    · obtain rfl : g.newRequestId = r := Option.some.inj (hlinked.latestRequest.symm.trans hr)
      cases hfree : s.db.requests.find g.newRequestId with
      | none =>
        have hnew := Table.find_insert s.db.requests (g.newRequest c.material.id) g.newRequestId hfree
        rw [hnew]
        simp [key, GenerateInputs.newRequest]
      | some q => simp [Table.find_insert_of_some _ _ _ _ hfree]
    · obtain ⟨q, hq⟩ := Option.isSome_iff_exists.mp (hdb.latestRequest row hold r hr)
      simp [Table.find_insert_of_some _ _ _ _ hq]

end Links

/-- The outline of generations: none of them fails, and each leaves a material with the status
of its latest request. -/
def generationOutline : Outline UseCase Db Row Job HttpError Outcome where
  Pre := fun t p s => LinksInTime t p s ∧ s.db.MaterialConstraints ∧
    ∀ k ∈ t.call.draws, ¬s.db.Mentions k
  Throws := fun _ => False
  Post := fun t _ s => ∀ g, t.call = .generate g → s.db.MaterialConstraints →
    (t.log s.db).MaterialConstraints ∧ ∃ m, LinkedTo g (t.log s.db) m

section Walk

variable {g : GenerateInputs} {t : Ctx} {s : Committed}

/-- The generation follows the outline. -/
abbrev FollowsOutline (p : Tx Outcome) (t : Ctx) (s : Committed) : Prop :=
  generationOutline.Follows generationProtocol p t s

/-- The condition `materialWhere`. -/
theorem isMaterial_iff {m : Material} : g.isMaterial m = true ↔ m.naturalKey = g.naturalKey := by
  simp [GenerateInputs.isMaterial, Material.naturalKey, GenerateInputs.naturalKey, and_assoc]

/-- The deletion of no rows. -/
theorem deleteUsages_nil : deleteUsages [] = fun db : Db => db := by
  funext db
  have hrows : db.usages.delete (fun u => decide (u ∈ ([] : List MaterialQuestionUsage))) =
      db.usages := Table.ext_rows (by simp [Table.delete])
  unfold deleteUsages
  rw [hrows]

/-- An `INSERT` of a row whose key is free is not refused. -/
theorem follows_insertRow {row : Row} {taken : Db → Bool} {insert : Db → Db}
    {k : Unit → Tx Outcome} (hcall : t.call = .generate g)
    (hfree : ∀ v : Committed, (∀ k ∈ g.draws, ¬v.db.Mentions k) → taken (t.view v) = false)
    (h : ∀ v, generationProtocol.After t.held s v → FollowsOutline (k ()) (t.wrote [row] insert) v) :
    FollowsOutline ((insertRow row taken insert).bind k) t s := by
  intro v hafter _ hpre
  obtain ⟨_, _, hdrawn⟩ := hpre
  have hdraws : t.call.draws = g.draws := congrArg UseCase.draws hcall
  rw [hdraws] at hdrawn
  have htaken := hfree v hdrawn
  simp only [htaken, Bool.false_eq_true, if_false]
  exact h v hafter

/-- The inserts of rows whose keys are free are not refused. -/
theorem follows_inserts {β : Type} {f : β → Tx Unit} (row : β → Row) (taken : β → Db → Bool)
    (insert : β → Db → Db) (hf : ∀ x, f x = insertRow (row x) (taken x) (insert x))
    (hother : ∀ x y db, row x ≠ row y → taken y (insert x db) = taken y db) {xs : List β}
    {k : Unit → Tx Outcome} (hcall : t.call = .generate g) (hnodup : (xs.map row).Nodup)
    (hfree : ∀ x ∈ xs, ∀ v : Committed, (∀ k ∈ g.draws, ¬v.db.Mentions k) →
      taken x (t.view v) = false)
    (h : ∀ u v, u.Extends t → generationProtocol.After t.held s v →
      (∀ db, u.log db = xs.foldl (fun db x => insert x db) (t.log db)) →
      FollowsOutline (k ()) u v) :
    FollowsOutline ((forEach xs f).bind k) t s := by
  induction xs generalizing t s with
  | nil => exact h t s (.refl t) .refl fun _ => rfl
  | cons x xs ih =>
    obtain ⟨hx, hrest⟩ := List.nodup_cons.mp hnodup
    have hstep : forEach (x :: xs) f = (f x).bind fun _ => forEach xs f := rfl
    rw [hstep, Program.bind_assoc, hf]
    refine follows_insertRow hcall (hfree x (List.mem_cons_self ..)) fun v hafter => ?_
    have hext := t.extends_wrote [row x] (insert x)
    refine ih hcall hrest (fun y hy w hfresh => ?_) fun u w hu hw hlog => ?_
    · have hne : row x ≠ row y := fun heq => hx (heq ▸ List.mem_map_of_mem hy)
      exact (hother x y _ hne).trans (hfree y (List.mem_cons_of_mem x hy) w hfresh)
    · refine h u w (hu.trans hext) (hafter.trans (hw.mono hext.held)) fun db => ?_
      rw [hlog]
      rfl

/-- The ledger rows of earlier requests are deleted. -/
theorem follows_clearUsages {prevRequestIds : List RequestId} {k : Unit → Tx Outcome}
    (h : ∀ u v cleared, u.Extends t → generationProtocol.After t.held s v →
      (∀ db, u.log db = deleteUsages cleared (t.log db)) → FollowsOutline (k ()) u v) :
    FollowsOutline ((clearUsages prevRequestIds).bind k) t s := by
  unfold clearUsages
  split
  · exact h t s [] (.refl t) .refl fun db => by rw [deleteUsages_nil]
  · exact fun v hafter _ _ => h _ v _ (t.extends_wrote _ _) hafter fun _ => rfl

/-- `save` of a material that is there. -/
theorem follows_saveMaterial {entity : Material} {k : Unit → Tx Outcome}
    (hrow : ∀ v, generationProtocol.After t.held s v →
      ∃ row, (t.view v).materials.find entity.id = some row)
    (hsame : ∀ v, generationProtocol.After t.held s v →
      generationOutline.Pre t ((saveMaterial entity).bind k) v →
      (t.view v).materials.find entity.id = some entity → FollowsOutline (k ()) t v)
    (hwrite : ∀ v w reread, generationProtocol.After t.held s v →
      generationOutline.Pre t ((saveMaterial entity).bind k) v →
      (t.view v).materials.find entity.id = some reread → generationProtocol.After t.held v w →
      generationOutline.Pre t ((saveMaterialRow entity reread).bind k) w →
      FollowsOutline (k ())
        (t.wrote [.material entity.id] (saveMaterialIn entity reread)) w) :
    FollowsOutline ((saveMaterial entity).bind k) t s := by
  unfold saveMaterial at hsame hwrite ⊢
  rw [Program.bind_eq, Program.bind_assoc] at hsame hwrite ⊢
  refine Outline.follows_select fun v hafter _ hpre => ?_
  obtain ⟨reread, hreread⟩ := hrow v hafter
  rw [hreread]
  by_cases hunchanged : entity = reread
  · subst hunchanged
    simp only [if_true]
    exact hsame v hafter hpre hreread
  · simp only [hunchanged, if_false]
    exact fun w hw _ hpre' => hwrite v w reread hafter hpre hreread hw hpre'

/-- The material that is there is found. -/
theorem follows_findMaterial (inserted : Bool) {k : Option Material → Tx Outcome}
    (hlog : ∀ db, t.log db = g.materialIn inserted db)
    (hplaced : ∃ m, Placed g inserted m t.held s.db)
    (h : ∀ v m, Placed g inserted m.id t.held v.db →
      (∀ r, m.latestRequestId = some r → (v.db.requests.find r).isSome) →
      FollowsOutline (k (some m)) t v) :
    FollowsOutline ((findMaterial g).bind k) t s := by
  refine Outline.follows_select fun v hafter _ hpre => ?_
  obtain ⟨m₀, hplaced₀⟩ := hplaced
  have hplaced := hplaced₀.mono (List.Subset.refl _) (frame_of_after hafter)
  obtain ⟨row, hrow, hkey⟩ := hplaced.row
  have hview : t.view v = g.materialIn inserted v.db := hlog v.db
  have hsome : ((t.view v).materials.rows.find? g.isMaterial).isSome = true := by
    rw [List.find?_isSome, hview]
    exact ⟨row, Table.mem_of_find hrow, isMaterial_iff.mpr hkey⟩
  obtain ⟨m, hm⟩ := Option.isSome_iff_exists.mp hsome
  have hmkey : m.naturalKey = g.naturalKey := isMaterial_iff.mp (List.find?_some hm)
  have hmem : m ∈ (g.materialIn inserted v.db).materials.rows := by
    rw [← hview]
    exact List.mem_of_find?_eq_some hm
  rw [hm]
  cases inserted with
  | false =>
    refine h v m ⟨fun _ => ⟨m, Table.find_of_mem hmem, hmkey⟩, fun hfalse => by cases hfalse⟩ ?_
    exact fun r hr => hpre.2.1.latestRequest m hmem r hr
  | true =>
    obtain ⟨rfl, _, _, _, hfree⟩ := hplaced.created rfl
    rcases Table.mem_insert hmem with hold | rfl
    · exact absurd hmkey (hfree m hold)
    · exact h v g.newMaterial hplaced fun r hr => by cases hr

/-- The material is found, or inserted and found, or found after a lost race. -/
theorem follows_findOrCreateMaterial {k : Option Material → Tx Outcome}
    (hcall : t.call = .generate g) (hlog : ∀ db, t.log db = db)
    (h : ∀ u v m inserted, u.call = .generate g → (∀ db, u.log db = g.materialIn inserted db) →
      Placed g inserted m.id u.held v.db →
      (∀ r, m.latestRequestId = some r → (v.db.requests.find r).isSome) →
      FollowsOutline (k (some m)) u v) :
    FollowsOutline ((findOrCreateMaterial g).bind k) t s := by
  have hview : ∀ v : Committed, t.view v = v.db := fun v => hlog v.db
  unfold findOrCreateMaterial
  rw [Program.bind_eq, Program.bind_assoc]
  refine Outline.follows_select fun v hafter _ hpre => ?_
  rw [hview]
  cases hfirst : v.db.materials.rows.find? g.isMaterial with
  | some m =>
    have hmem : m ∈ v.db.materials.rows := List.mem_of_find?_eq_some hfirst
    refine h t v m false hcall hlog ⟨fun _ => ?_, fun hfalse => by cases hfalse⟩ ?_
    · exact ⟨m, Table.find_of_mem hmem, isMaterial_iff.mp (List.find?_some hfirst)⟩
    · exact fun r hr => hpre.2.1.latestRequest m hmem r hr
  | none =>
    dsimp only
    rw [Program.bind_eq, Program.bind_assoc]
    intro v₁ hafter₁ _ hpre₁
    cases htaken : (t.view v₁).materials.rows.any g.isMaterial with
    | true =>
      -- another generation has inserted the material
      simp only [htaken, if_true]
      refine follows_findMaterial false hlog ?_ fun v₂ m hplaced hlatest => ?_
      · obtain ⟨row, hrow, hkey⟩ := List.any_eq_true.mp htaken
        rw [hview] at hrow
        refine ⟨row.id, ⟨fun _ => ?_, fun hfalse => by cases hfalse⟩⟩
        exact ⟨row, Table.find_of_mem hrow, isMaterial_iff.mp hkey⟩
      · exact h _ v₂ m false hcall hlog hplaced hlatest
    | false =>
      simp only [htaken, Bool.false_eq_true, if_false]
      have hinserted : ∀ db, (t.wrote [g.indexEntry, .material g.newMaterialId] fun db =>
          { db with materials := db.materials.insert g.newMaterial }).log db =
            g.materialIn true db := by
        intro db
        rw [Context.wrote_log, hlog]
        rfl
      refine follows_findMaterial true hinserted ?_ fun v₂ m hplaced hlatest => ?_
      · refine ⟨g.newMaterialId, ⟨fun hfalse => (by cases hfalse), fun _ => ?_⟩⟩
        refine ⟨rfl, by simp, by simp [GenerateInputs.indexEntry], ?_, fun row hrow hkey => ?_⟩
        · have hunused : ¬v₁.db.Mentions (.material g.newMaterialId) := by
            refine hpre₁.2.2 _ ?_
            rw [hcall]
            exact List.mem_cons_self ..
          simpa [Db.Mentions] using hunused
        · have hany : v₁.db.materials.rows.any g.isMaterial = true :=
            List.any_eq_true.mpr ⟨row, hrow, isMaterial_iff.mpr hkey⟩
          rw [hview, hany] at htaken
          cases htaken
      · exact h _ v₂ m true hcall hinserted hplaced hlatest

/-- What a generation does after it has pointed the material at its request. -/
def fillRequest (g : GenerateInputs) : Tx GenerateResult := do
  forEach g.createdCourses insertCourse
  forEach g.reviewQuestions insertSlot
  if g.requiresReview then
    pure
      { materialRequestId := g.newRequestId
        status := g.initialStatus
        jobsToDispatch := [] }
  else do
    updateCourseStatuses (g.createdCourses.map (·.id)) .processing
    pure
      { materialRequestId := g.newRequestId
        status := g.initialStatus
        jobsToDispatch := [.generatePdf g.jobPayload] }

/-- What a generation does after it has realigned the status of the material. -/
def linkRequest (g : GenerateInputs) (material : Material) : Tx GenerateResult := do
  insertRequest (g.newRequest material.id)
  saveMaterial { material with latestRequestId := some g.newRequestId }
  fillRequest g

/-- A material that keeps its links until the commit. -/
theorem follows_done {c : Creation} {a : Outcome} (h : Links g c t s)
    (hmaterials : ∀ db, (t.log db).materials = (g.linkIn c db).materials)
    (hrequests : ∀ db, (t.log db).requests = (g.linkIn c db).requests) :
    FollowsOutline (.done a) t s := by
  intro v hafter _ g' hcall hdb
  have hlinks := h.mono rfl (List.Subset.refl _) hafter
  obtain rfl : g = g' := UseCase.generate.inj (h.call.symm.trans hcall)
  exact hlinks.reconciled hdb (hmaterials v.db) (hrequests v.db)

/-- Before its slots are inserted a generation writes no slot. -/
theorem linkIn_slots {c : Creation} (db : Db) : (g.linkIn c db).slots = db.slots := by
  have hmaterial : (g.materialIn c.inserted db).slots = db.slots := by
    unfold GenerateInputs.materialIn
    split <;> rfl
  exact hmaterial

/-- The end of a generation that has pointed its material at its request: the courses and
slots are inserted, and the material stays as it is. -/
theorem follows_fillRequest {c : Creation} (hdraws : g.draws.Nodup) (h : Links g c t s)
    (hlog : ∀ db, t.log db = g.linkIn c db) :
    FollowsOutline ((fillRequest g).bind fun r => .done (.generated r)) t s := by
  obtain ⟨hrows, hslots, _⟩ := List.nodup_append.mp hdraws
  have hcourses := (List.nodup_cons.mp (List.nodup_cons.mp hrows).2).2
  have hother : ∀ {ρ : Type} [Keyed ℕ ρ] (x y : ρ) (table : Table ℕ ρ), key x ≠ key y →
      ((table.insert x).find (key y)).isSome = (table.find (key y)).isSome := by
    intro ρ _ x y table hne
    rw [Table.find_insert_of_ne _ _ _ fun heq => hne heq.symm]
  unfold fillRequest
  rw [Program.bind_eq, Program.bind_assoc]
  refine follows_inserts (fun c => .course c.id)
    (fun c v => (v.courses.find c.id).isSome) (fun c db => insertCourseIn db c) (fun _ => rfl) ?_
    h.call hcourses ?_ ?_
  · exact fun x y db hne => hother x y _ fun heq => hne (congrArg Row.course heq)
  · intro x hx v hfresh
    have hmem : Row.course x.id ∈ g.draws := by
      have hrow : Row.course x.id ∈ g.createdCourses.map fun c => Row.course c.id :=
        List.mem_map_of_mem hx
      exact List.mem_append_left _ (List.mem_cons_of_mem _ (List.mem_cons_of_mem _ hrow))
    have hview : (t.view v).courses = v.db.courses := by
      rw [Context.view, hlog, linkIn_courses]
    rw [hview]
    simpa [Db.Mentions] using hfresh _ hmem
  intro u v hext hafter hlog₁
  have hlog₁' : ∀ db, u.log db = { g.linkIn c db with
      courses := g.createdCourses.foldl Table.insert (g.linkIn c db).courses } := by
    intro db
    rw [hlog₁, hlog]
    exact foldl_insertCourseIn _ _
  rw [Program.bind_eq, Program.bind_assoc]
  refine follows_inserts (fun q => .slot q.id)
    (fun q v => (v.slots.find q.id).isSome) (fun q db => insertSlotIn db q) (fun _ => rfl) ?_
    (hext.call.trans h.call) hslots ?_ ?_
  · exact fun x y db hne => hother x y _ fun heq => hne (congrArg Row.slot heq)
  · intro x hx w hfresh
    have hmem : Row.slot x.id ∈ g.draws := by
      have hrow : Row.slot x.id ∈ g.reviewQuestions.map fun q => Row.slot q.id :=
        List.mem_map_of_mem hx
      exact List.mem_append_right _ hrow
    have hview : (u.view w).slots = w.db.slots := by
      rw [Context.view, hlog₁']
      exact linkIn_slots w.db
    rw [hview]
    simpa [Db.Mentions] using hfresh _ hmem
  intro u' w hext' hafter' hlog₂
  have hlog₂' : ∀ db, u'.log db = { u.log db with
      slots := g.reviewQuestions.foldl Table.insert (u.log db).slots } := by
    intro db
    rw [hlog₂]
    exact foldl_insertSlotIn _ _
  have hlinks : Links g c u' w := h.mono (hext'.call.trans hext.call)
    (List.Subset.trans hext.held hext'.held) (hafter.trans (After.mono hext.held hafter'))
  have hmaterials : ∀ db, (u'.log db).materials = (g.linkIn c db).materials := by
    intro db
    rw [hlog₂', hlog₁']
  have hrequests : ∀ db, (u'.log db).requests = (g.linkIn c db).requests := by
    intro db
    rw [hlog₂', hlog₁']
  by_cases hreview : g.requiresReview = true
  · rw [if_pos hreview]
    exact follows_done hlinks hmaterials hrequests
  · rw [if_neg hreview]
    unfold updateCourseStatuses
    split
    · exact follows_done hlinks hmaterials hrequests
    · intro x hafter'' _ _
      have hstatuses : ∀ db : Db, (setCourseStatuses (g.createdCourses.map (·.id)) .processing
          db).materials = db.materials ∧ (setCourseStatuses (g.createdCourses.map (·.id))
            .processing db).requests = db.requests := by
        intro db
        obtain ⟨courses, hset⟩ := setCourseStatuses_eq (g.createdCourses.map (·.id)) .processing db
        simp [hset]
      refine follows_done (hlinks.mono rfl (List.subset_append_left _ _) hafter'') ?_ ?_
      · exact fun db => (hstatuses _).1.trans (hmaterials db)
      · exact fun db => (hstatuses _).2.trans (hrequests db)

/-- No material points at a request before the request is there. -/
theorem unlinked_openIn {c : Creation} {db : Db} {row : Material} (hdb : db.MaterialConstraints)
    (hfresh : ¬db.Mentions (.request g.newRequestId))
    (hlatest : ∀ r, c.material.latestRequestId = some r → (db.requests.find r).isSome)
    (hrow : (g.openIn c db).materials.find c.material.id = some row) :
    row.latestRequestId ≠ some g.newRequestId := by
  have hentity : c.material.latestRequestId ≠ some g.newRequestId :=
    fun heq => hfresh (hlatest _ heq)
  rw [find_materials_openIn] at hrow
  obtain ⟨row₀, hrow₀, rfl⟩ := Option.map_eq_some_iff.mp hrow
  have hold : row₀.latestRequestId ≠ some g.newRequestId := by
    intro heq
    have hmem := Table.mem_of_find hrow₀
    unfold GenerateInputs.materialIn at hmem
    split at hmem
    · rcases Table.mem_insert hmem with hmem | rfl
      · exact hfresh (hdb.latestRequest row₀ hmem _ heq)
      · cases heq
    · exact hfresh (hdb.latestRequest row₀ hmem _ heq)
  simp only [if_true, saved]
  split
  · exact hold
  · exact hentity

/-- The second `save` links the material: it writes the latest request, and it writes the
status, unless the row has it already. -/
theorem linked_linkIn {c : Creation} {db : Db} {row : Material}
    (hrow : (g.openIn c db).materials.find c.material.id = some row)
    (hkey : row.naturalKey = g.naturalKey)
    (hlatest : c.linked.latestRequestId ≠ some g.newRequestId)
    (hstatus : c.linked.status = g.initialStatus → row.status = g.initialStatus) :
    ∃ m, m.id = c.material.id ∧ LinkedTo g (g.linkIn c db) m := by
  obtain ⟨m, hlinked⟩ : ∃ m : Material, m = { row with
      status := saved g.initialStatus c.linked.status row.status
      latestRequestId :=
        saved (some g.newRequestId) c.linked.latestRequestId row.latestRequestId } := ⟨_, rfl⟩
  have hid : m.id = c.material.id := by
    rw [hlinked]
    exact Table.key_of_find hrow
  refine ⟨m, hid, ⟨?_, by rw [hlinked]; exact hkey, ?_, ?_⟩⟩
  · rw [hid, find_linkIn, hrow, hlinked]
    rfl
  · have hdiffers : ¬some g.newRequestId = c.linked.latestRequestId := fun h => hlatest h.symm
    simp [hlinked, saved, hdiffers]
  · by_cases hsame : g.initialStatus = c.linked.status
    · have hkept : saved g.initialStatus c.linked.status row.status = row.status := if_pos hsame
      rw [hlinked]
      exact hkept.trans (hstatus hsame.symm)
    · simp [hlinked, saved, hsame]

/-- The end of a generation that has realigned the status of its material. -/
theorem follows_linkRequest {m opened : Material} {inserted : Bool}
    {cleared : List MaterialQuestionUsage} (hdraws : g.draws.Nodup) (hcall : t.call = .generate g)
    (hlog : ∀ db, t.log db = saveMaterialIn { m with status := g.initialStatus } opened
      (deleteUsages cleared (g.materialIn inserted db)))
    (hplaced : Placed g inserted m.id t.held s.db)
    (hlatest : ∀ r, m.latestRequestId = some r → (s.db.requests.find r).isSome) :
    FollowsOutline ((linkRequest g { m with status := g.initialStatus }).bind
      fun r => .done (.generated r)) t s := by
  unfold linkRequest insertRequest
  rw [Program.bind_eq, Program.bind_assoc]
  refine follows_insertRow hcall (fun v hfresh => ?_) fun v hafter => ?_
  · have hrequests : (t.view v).requests = v.db.requests := by
      rw [Context.view, hlog]
      exact materialIn_requests inserted v.db
    have hunused := hfresh (.request g.newRequestId)
      (List.mem_cons_of_mem _ (List.mem_cons_self ..))
    rw [hrequests]
    simpa [Db.Mentions, GenerateInputs.newRequest] using hunused
  set u := t.wrote [.request (g.newRequest m.id).id]
    fun db => { db with requests := db.requests.insert (g.newRequest m.id) } with hu
  have hext : u.Extends t := t.extends_wrote _ _
  have hlog' : ∀ linked db, u.log db = g.openIn ⟨inserted, m, cleared, opened, linked⟩ db := by
    intro linked db
    rw [hu, Context.wrote_log, hlog]
    rfl
  have hframe : ∀ w, generationProtocol.After u.held v w → ∃ others, t.held.Disjoint others ∧
      MaterialFrame others s.db w.db :=
    fun w hw => frame_of_after (hafter.trans (After.mono hext.held hw))
  have hlater : ∀ w, generationProtocol.After u.held v w → ∀ r, m.latestRequestId = some r →
      (w.db.requests.find r).isSome := by
    intro w hw r hr
    obtain ⟨_, _, hframe⟩ := hframe w hw
    exact hframe.requests r (hlatest r hr)
  have hrow : ∀ w, generationProtocol.After u.held v w →
      ∃ row, (u.view w).materials.find m.id = some row ∧ row.naturalKey = g.naturalKey := by
    intro w hw
    obtain ⟨row, hrow, hkey⟩ := (hplaced.mono (List.Subset.refl _) (hframe w hw)).row
    have hfind := find_materials_openIn g ⟨inserted, m, cleared, opened, opened⟩ w.db m.id
    rw [hrow] at hfind
    rw [Context.view, hlog' opened]
    exact ⟨_, hfind, by simpa [Material.naturalKey] using hkey⟩
  have hunlinked : ∀ w row p, generationProtocol.After u.held v w → generationOutline.Pre u p w →
      (u.view w).materials.find m.id = some row → row.latestRequestId ≠ some g.newRequestId := by
    intro w row p hw hpre hfind
    have hunused : ¬w.db.Mentions (.request g.newRequestId) := by
      refine hpre.2.2 _ ?_
      rw [hext.call, hcall]
      exact List.mem_cons_of_mem _ (List.mem_cons_self ..)
    rw [Context.view, hlog' opened] at hfind
    exact unlinked_openIn hpre.2.1 hunused (hlater w hw) hfind
  rw [Program.bind_eq, Program.bind_assoc]
  refine follows_saveMaterial ?_ ?_ ?_
  · intro w hw
    obtain ⟨row, hfind, _⟩ := hrow w hw
    exact ⟨row, hfind⟩
  · -- the material does not point at the request yet
    intro w hw hpre hfind
    exact absurd rfl (hunlinked w _ _ hw hpre hfind)
  · intro w x reread hw hpre hfind hx hpre'
    have hreread := hunlinked w reread _ hw hpre hfind
    obtain ⟨row, hview, hkey⟩ := hrow x (hw.trans hx)
    refine follows_fillRequest (c := ⟨inserted, m, cleared, opened, reread⟩) hdraws ?_ fun db => ?_
    · refine ⟨hext.call.trans hcall, by simp, ?_, ?_⟩
      · refine hplaced.mono ?_ (hframe x (hw.trans hx))
        exact List.Subset.trans hext.held (List.subset_append_left _ _)
      · rw [Context.view, hlog' reread] at hview
        refine linked_linkIn hview hkey hreread fun hstatus => ?_
        refine hpre'.1 g _ reread row (hext.call.trans hcall) ⟨_, rfl⟩ rfl hstatus ?_
        rw [Context.view, hlog' reread]
        exact hview
    · rw [Context.wrote_log, hlog' reread]
      rfl

/-- What a generation does once it has found its material. -/
theorem follows_createRequest {m : Material} {inserted : Bool} (hdraws : g.draws.Nodup)
    (hcall : t.call = .generate g) (hlog : ∀ db, t.log db = g.materialIn inserted db)
    (hplaced : Placed g inserted m.id t.held s.db)
    (hlatest : ∀ r, m.latestRequestId = some r → (s.db.requests.find r).isSome) :
    FollowsOutline ((createRequest g m).bind fun r => .done (.generated r)) t s := by
  unfold createRequest
  rw [Program.bind_eq, Program.bind_assoc]
  refine Outline.follows_select fun v₀ hafter₀ _ _ => ?_
  rw [Program.bind_eq, Program.bind_assoc]
  refine follows_clearUsages fun u₁ v₁ cleared hext₁ hafter₁ hlog₁ => ?_
  rw [Program.bind_eq, Program.bind_assoc]
  have hopened : ∀ (u : Ctx) (v : Committed) (opened : Material), u.Extends t →
      generationProtocol.After t.held s v →
      (∀ db, u.log db = saveMaterialIn { m with status := g.initialStatus } opened (u₁.log db)) →
      FollowsOutline ((linkRequest g { m with status := g.initialStatus }).bind
        fun r => .done (.generated r)) u v := by
    intro u v opened hext hafter hlog₂
    have hframe := frame_of_after hafter
    have hlog₃ : ∀ db, u.log db = saveMaterialIn { m with status := g.initialStatus } opened
        (deleteUsages cleared (g.materialIn inserted db)) := by
      intro db
      rw [hlog₂, hlog₁, hlog]
    refine follows_linkRequest hdraws (hext.call.trans hcall) hlog₃ (hplaced.mono hext.held hframe) ?_
    intro r hr
    obtain ⟨_, _, hframe⟩ := hframe
    exact hframe.requests r (hlatest r hr)
  have hafter := hafter₀.trans hafter₁
  have hview : ∀ v : Committed, (u₁.view v).materials = (g.materialIn inserted v.db).materials := by
    intro v
    rw [Context.view, hlog₁, hlog]
    rfl
  refine follows_saveMaterial ?_ ?_ ?_
  · intro v hv
    have hlater := hafter.trans (hv.mono hext₁.held)
    obtain ⟨row, hrow, _⟩ := (hplaced.mono (List.Subset.refl _) (frame_of_after hlater)).row
    exact ⟨row, by rw [hview]; exact hrow⟩
  · intro v hv _ _
    refine hopened u₁ v { m with status := g.initialStatus } hext₁
      (hafter.trans (hv.mono hext₁.held)) fun db => ?_
    rw [saveMaterialIn_self]
  · intro v w reread hv _ _ hw _
    refine hopened _ w reread ((u₁.extends_wrote _ _).trans hext₁) ?_ fun _ => rfl
    exact hafter.trans (After.mono hext₁.held (hv.trans hw))

/-- **The transaction of a generation** follows the outline. -/
theorem follows_generateMaterial (hdraws : g.draws.Nodup) (hcall : t.call = .generate g)
    (hlog : ∀ db, t.log db = db) :
    FollowsOutline ((generateMaterial g).bind fun r => .done (.generated r)) t s := by
  unfold generateMaterial
  rw [Program.bind_eq, Program.bind_assoc]
  refine follows_findOrCreateMaterial hcall hlog fun u v m inserted hu hlog' hplaced hlatest => ?_
  exact follows_createRequest hdraws hu hlog' hplaced hlatest

end Walk

/-- The condition of the theorem, with what is known of the states that such runs reach. -/
def Orderly (k : Uuid × Uuid × ℕ) (s : State) (e : Event UseCase) : Prop :=
  ((Machine.StartsOnly (Generates k) s e ∧ Draws UseCase.draws Db.Mentions s e) ∧ NoLateLink s e) ∧
    Fresh UseCase.draws Db.Mentions s ∧ s.db.MaterialConstraints

/-- Generations follow the outline. -/
theorem generationOutline_sound (orm : Orm) (k : Uuid × Uuid × ℕ) :
    generationOutline.Sound generationProtocol (materials orm) (Orderly k) where
  starts := by
    intro s call _ hcond
    obtain ⟨g, rfl, _⟩ := hcond.1.1.1 call rfl
    exact follows_generateMaterial (hcond.1.1.2 _ rfl).1 rfl fun _ => rfl
  pre := by
    intro s t _ ht hcond
    exact ⟨hcond.1.2 t ht rfl, hcond.2.2, (hcond.2.1 t ht).1⟩

/-- A list without duplicates all of whose elements are the same. -/
theorem eq_singleton_of_nodup {α : Type} {xs : List α} {x : α} (hnodup : xs.Nodup) (hx : x ∈ xs)
    (hall : ∀ y ∈ xs, y = x) : xs = [x] := by
  cases xs with
  | nil => cases hx
  | cons y ys =>
    obtain rfl := hall y (List.mem_cons_self ..)
    cases ys with
    | nil => rfl
    | cons z zs =>
      have hz : z = y := hall z (by simp)
      simp [hz] at hnodup

/-- A material is the only one with its natural identity. -/
theorem Db.MaterialConstraints.materialsOf {db : Db} (hdb : db.MaterialConstraints) {m : Material}
    {k : Uuid × Uuid × ℕ} (hm : m ∈ db.materialsOf k) : db.materialsOf k = [m] := by
  have hnodup : (db.materialsOf k).Nodup :=
    (List.Nodup.of_map _ db.materials.nodup).filter _
  refine eq_singleton_of_nodup hnodup hm fun x hx => ?_
  obtain ⟨hxmem, hxkey⟩ := List.mem_filter.mp hx
  obtain ⟨hmmem, hmkey⟩ := List.mem_filter.mp hm
  have hkey : x.naturalKey = m.naturalKey := by
    rw [of_decide_eq_true hxkey, of_decide_eq_true hmkey]
  exact Table.eq_of_key_eq hxmem hmmem (hdb.naturalKey x hxmem m hmmem hkey)

/-- What holds in every state of a run without late links. -/
structure Serial (orm : Orm) (k : Uuid × Uuid × ℕ) (s : State) : Prop where
  outlined : generationOutline.Outlined generationProtocol (materials orm) s
  fresh : Fresh UseCase.draws Db.Mentions s
  calls : ∀ t ∈ s.active, Generates k t.call
  constraints : s.db.MaterialConstraints
  linked : s.commits ≠ [] → ∃ g m, .generate g ∈ s.commits.map (·.call) ∧ g.naturalKey = k ∧
    LinkedTo g s.db m

/-- **Step lemma:** a step without a late link keeps the generations serial. -/
theorem serial_of_step {orm : Orm} {k : Uuid × Uuid × ℕ} {s s' : State} {e : Event UseCase}
    (h : Serial orm k s)
    (hcond : (Machine.StartsOnly (Generates k) s e ∧ Draws UseCase.draws Db.Mentions s e) ∧
      NoLateLink s e)
    (hstep : (materials orm).step s e = some s') : Serial orm k s' := by
  have horderly : Orderly k s e := ⟨hcond, h.fresh, h.constraints⟩
  have hsound : generationProtocol.Sound (materials orm) (Orderly k) :=
    generationProtocol_sound orm fun _ _ h => h.1.1.1
  have houtlined := Outline.outlined_of_step hsound (generationOutline_sound orm k) h.outlined
    horderly hstep
  have hfresh : Fresh UseCase.draws Db.Mentions s' := by
    refine fresh_of_step h.fresh hcond.1.2 hstep fun t ht a hp he => ?_
    subst he
    obtain ⟨_, c, g, hcommits, _, _, hmentions⟩ :=
      commit_of_consistent hsound h.outlined.consistent ht hp horderly
    have hcall : c.call = t.call := by
      rw [Snapshot.commit_commits, List.append_cancel_left_eq, List.cons.injEq] at hcommits
      rw [← hcommits.1]
    rw [← hcall]
    exact hmentions
  have hreplaced : ∀ t ∈ s.active, ∀ u : Transaction UseCase Db Row Job HttpError Outcome,
      u.call = t.call → ∀ w ∈ (s.replace u).active, Generates k w.call := by
    intro t ht u hcall w hw
    obtain ⟨v, hv, rfl⟩ := List.mem_map.mp hw
    split
    · rw [hcall]
      exact h.calls t ht
    · exact h.calls v hv
  cases Machine.moves_of_step hstep with
  | start call =>
    refine ⟨houtlined, hfresh, fun t ht => ?_, h.constraints, h.linked⟩
    rcases List.mem_append.mp ht with ht | ht
    · exact h.calls t ht
    · obtain rfl := List.mem_singleton.mp ht
      exact hcond.1.1 call rfl
  | commit t a ht hp =>
    obtain ⟨g, hg, hkey⟩ := h.calls t ht
    obtain ⟨hconstraints, m, hlinked⟩ := h.outlined.post ht hp g hg h.constraints
    refine ⟨houtlined, hfresh, fun u hu => h.calls u (List.mem_filter.mp hu).1, hconstraints,
      fun _ => ⟨g, m, ?_, hkey, hlinked⟩⟩
    simp only [Snapshot.commit_commits, List.map_append, List.mem_append]
    exact .inr (List.mem_singleton.mpr hg.symm)
  | statement t locks write next ht hp hfree =>
    exact ⟨houtlined, hfresh, hreplaced t ht _ rfl, h.constraints, h.linked⟩
  | enqueue t job next ht hp =>
    exact ⟨houtlined, hfresh, hreplaced t ht _ rfl, h.constraints, h.linked⟩
  | rollback _ t ht =>
    exact ⟨houtlined, hfresh, fun u hu => h.calls u (List.mem_filter.mp hu).1, h.constraints,
      h.linked⟩

/-- **Run lemma:** every state of a run without late links is serial. -/
theorem serial_of_reaches {orm : Orm} {k : Uuid × Uuid × ℕ} {db : Db} {s : State}
    (hdb : db.MaterialConstraints)
    (hreach : (materials orm).Reaches
      (fun s e => (Machine.StartsOnly (Generates k) s e ∧ Draws UseCase.draws Db.Mentions s e) ∧
        NoLateLink s e) (System.idle db) s) : Serial orm k s := by
  induction hreach with
  | refl =>
    refine ⟨Outline.outlined_idle trivial, fresh_idle db, fun _ ht => (nomatch ht), hdb, ?_⟩
    exact fun h => absurd rfl h
  | tail _ hstep ih =>
    obtain ⟨e, hcond, hs⟩ := hstep
    exact serial_of_step ih hcond hs

/-- **Concurrent generations of one material serialise** in every run in which none of them
points the material at its request after its status has moved on. -/
theorem serialises_of_noLateLink (orm : Orm) : Serialises orm NoLateLink := by
  intro k db s hdb hreach
  have hs := serial_of_reaches hdb hreach
  refine ⟨fun t ht e hp => hs.outlined.throws ht hp, ?_, fun _ hcommits => ?_⟩
  · cases hrows : s.db.materialsOf k with
    | nil => simp
    | cons m ms =>
      have hone := hs.constraints.materialsOf (k := k) (m := m) (by simp [hrows])
      rw [hrows] at hone
      simp [hone]
  · obtain ⟨g, m, hg, hkey, hlinked⟩ := hs.linked hcommits
    refine ⟨m, g, hs.constraints.materialsOf ?_, hg, hlinked.latestRequest, hlinked.status⟩
    refine List.mem_filter.mpr ⟨Table.mem_of_find hlinked.find, ?_⟩
    exact decide_eq_true (hlinked.naturalKey.trans hkey)

/-- A generation of the same material that asks for a review. -/
def reviewedRegeneration : GenerateInputs :=
  { regeneration with
    requiresReview := true
    courses := [(⟨5, [], [], none⟩, 21)]
    slots := [(⟨2, 3, "BASICO", some 100⟩, 30)]
    newMaterialId := 9
    newRequestId := 3 }

/-- Both generations have started. -/
def startedState : State :=
  (materials .typeOrm).endState (System.idle twoCourses)
    [.start (.generate regeneration), .start (.generate reviewedRegeneration)]

/-- The generation with a review commits between the second read of the material by the other
one and its update. -/
def overtakenLink : List (Event UseCase) :=
  List.replicate 6 (.exec 0) ++ List.replicate 11 (.exec 1) ++ List.replicate 4 (.exec 0)

/-- The state after both generations. -/
def mixedState : State := (materials .typeOrm).endState startedState overtakenLink

/-- Concurrent generations can mix: the material ends with the status of one of them and with
the request of the other. -/
theorem not_serialises : ¬Serialises .typeOrm (fun _ _ => True) := by
  intro h
  have hstarts : ∀ (s s' : State) (g : GenerateInputs), g.naturalKey = (1, 1, 1) →
      (materials .typeOrm).step s (.start (.generate g)) = some s' →
      (g.draws.Nodup ∧ ∀ i ∈ g.draws, ¬s.db.Mentions i ∧ ∀ t ∈ s.active, i ∉ t.call.draws) →
      (materials .typeOrm).Reaches (fun s e => (Machine.StartsOnly (Generates (1, 1, 1)) s e ∧
        Draws UseCase.draws Db.Mentions s e) ∧ True) s s' := by
    intro s s' g hkey hstep hdraws
    refine .single ⟨_, ⟨⟨?_, ?_⟩, trivial⟩, hstep⟩
    · rintro call hcall
      cases hcall
      exact ⟨g, rfl, hkey⟩
    · rintro call hcall
      cases hcall
      exact hdraws
  have hstarted : (materials .typeOrm).Reaches
      (fun s e => (Machine.StartsOnly (Generates (1, 1, 1)) s e ∧
        Draws UseCase.draws Db.Mentions s e) ∧ True) (System.idle twoCourses) startedState :=
    (hstarts _ _ regeneration rfl rfl (by decide +kernel)).trans
      (hstarts _ _ reviewedRegeneration rfl rfl (by decide +kernel))
  have hmixed : (materials .typeOrm).Reaches
      (fun s e => (Machine.StartsOnly (Generates (1, 1, 1)) s e ∧
        Draws UseCase.draws Db.Mentions s e) ∧ True) startedState mixedState := by
    refine Machine.reaches_endState (by decide +kernel) fun s e he => ⟨⟨?_, ?_⟩, trivial⟩
    · rintro call rfl
      simp [overtakenLink] at he
    · rintro call rfl
      simp [overtakenLink] at he
  have hdb : twoCourses.MaterialConstraints := ⟨by decide +kernel, by decide +kernel⟩
  obtain ⟨_, _, hend⟩ := h (1, 1, 1) twoCourses mixedState hdb (hstarted.trans hmixed)
  have hcalls : mixedState.commits.map (·.call) =
      [.generate reviewedRegeneration, .generate regeneration] := by decide +kernel
  have hidle : mixedState.active = [] :=
    List.isEmpty_iff.mp (show mixedState.active.isEmpty = true by decide +kernel)
  obtain ⟨m, g, hm, hg, hlatest, hstatus⟩ := hend hidle fun hnone => by
    rw [hnone] at hcalls
    cases hcalls
  have hrow : (mixedState.db.materialsOf (1, 1, 1)).map (fun m => (m.status, m.latestRequestId)) =
      [(.reviewRequired, some 2)] := by decide +kernel
  rw [hm, List.map_singleton, List.cons.injEq, Prod.mk.injEq] at hrow
  rw [hrow.1.1] at hstatus
  rw [hrow.1.2] at hlatest
  rw [hcalls] at hg
  simp only [List.mem_cons, UseCase.generate.injEq, List.not_mem_nil, or_false] at hg
  rcases hg with rfl | rfl
  · cases hlatest
  · cases hstatus

end Odiseo.Materials
