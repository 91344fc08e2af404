import Odiseo.Database.Simulation
import Odiseo.Materials.Machine

/-!
# Saving a stale version

The approval keeps its entity in step with the row because, as its comment says, a stale
version would make `manager.save` fail. The mapper does not fail: it writes the stale
version back. A run in which no stale version is saved is a run of the mapper of the
comment, and only such runs can rely on the version of a request.
-/

namespace Odiseo.Materials

open Database

/-- The mapper that the comment of the approval describes: `save` fails where the version in
memory is not the one that was read again. -/
def Orm.checked : Orm :=
  ⟨fun entity reread row => if entity = reread then some (row + 1) else none⟩

/-- The object mapper counts the version of a row up at each `save` that does not fail. -/
def Orm.CountsUp (orm : Orm) : Prop :=
  ∀ entity reread row n, orm.version entity reread row = some n → row < n

/-- The mapper of the comment counts up. -/
theorem countsUp_checked : Orm.checked.CountsUp := by
  intro entity reread row n h
  simp only [Orm.checked, Option.ite_none_right_eq_some, Option.some.injEq] at h
  omega

/-- The next statement of the program is the update of the request by `save`, which has read
the row `reread` again. -/
def UpdatesNext (orm : Orm) (entity reread : MaterialRequest) (p : Tx Outcome) : Prop :=
  ∃ rest : ℕ → Tx Outcome, p = (saveRequestRow orm entity reread).bind rest

/-- The program is not about to save a request whose version in memory differs from the one
that `save` has read again. -/
def SavesFresh (p : Tx Outcome) : Prop :=
  ∀ entity reread, UpdatesNext .typeOrm entity reread p → entity.version = reread.version

/-- A tenant with one request. -/
def holding (q : MaterialRequest) : Db :=
  { emptyTenant ⟨[], [], [], [], []⟩ with requests := ⟨[q], by simp⟩ }

/-- What the update of the request by `save` writes. -/
def savedRowIn (orm : Orm) (entity reread : MaterialRequest) (v : Db) : Db → Db :=
  match savedVersion orm entity reread v with
  | none => fun db => db
  | some n => saveRequestIn entity reread n

/-- The version of a row that has been saved: counted up, or the one in memory. -/
theorem version_savedRowIn {entity reread q : MaterialRequest} (hq : q.id = entity.id) :
    ((savedRowIn .typeOrm entity reread (holding q) (holding q)).requests.find entity.id).map
      (·.version) =
    some (if entity.version = reread.version then q.version + 1 else entity.version) := by
  have hfind : (holding q).requests.find entity.id = some q := by
    simp [holding, Table.find, key, Keyed.key, hq]
  have hversion : savedVersion .typeOrm entity reread (holding q) =
      some (if entity.version = reread.version then q.version + 1 else entity.version) := by
    rw [savedVersion, hfind]
    rfl
  rw [savedRowIn, hversion]
  refine (congrArg (Option.map (·.version)) (find_updateRequest _ _ _ _ _)).trans ?_
  rw [if_pos rfl, hfind]
  rfl

/-- The update of a request is fresh exactly when the version in memory is the one that was read
again, whatever comes after it. -/
theorem savesFresh_saveRequestRow_iff {entity reread : MaterialRequest} (rest : ℕ → Tx Outcome) :
    SavesFresh ((saveRequestRow .typeOrm entity reread).bind rest) ↔
      entity.version = reread.version := by
  constructor
  · intro h
    exact h entity reread ⟨rest, rfl⟩
  · rintro hfresh entity' reread' ⟨rest', hsame⟩
    by_contra hstale
    simp only [saveRequestRow, Program.write, Program.bind_eq, Program.bind] at hsame
    injection hsame with hlocks hwrite
    have hid : entity.id = entity'.id := by
      simpa using congrFun hlocks (emptyTenant ⟨[], [], [], [], []⟩)
    have hwrites : savedRowIn .typeOrm entity reread = savedRowIn .typeOrm entity' reread' :=
      hwrite
    obtain ⟨q, hq, hversion⟩ : ∃ q : MaterialRequest, q.id = entity.id ∧
        q.version = entity'.version := ⟨{ entity with version := entity'.version }, rfl, rfl⟩
    -- a row that has the version of the stale entity is written differently
    have hcounted := @version_savedRowIn entity reread q hq
    have hkept := @version_savedRowIn entity' reread' q (hq.trans hid)
    rw [hwrites, hid, hkept, if_pos hfresh, if_neg hstale, hversion] at hcounted
    simp at hcounted

/-- The transaction that the event runs does not save a stale version. -/
def NoStaleSave (s : State) (e : Event UseCase) : Prop :=
  ∀ t ∈ s.active, e = .exec t.id → SavesFresh t.program

/-- Where the version is fresh, the two mappers give the row the same version. -/
theorem savedVersion_checked {entity reread : MaterialRequest}
    (h : entity.version = reread.version) (db : Db) :
    savedVersion .checked entity reread db = savedVersion .typeOrm entity reread db := by
  simp only [savedVersion, Orm.checked, Orm.typeOrm, h, if_true]

/-- The second program does what the first one does until it saves a stale version. -/
def Mirrors (p p' : Tx Outcome) : Prop := Program.Sim (fun p _ => SavesFresh p) p p'

section Programs

variable {k k' : ℕ → Tx Outcome}

/-- The update of a request by `save`. -/
theorem mirrors_saveRequestRow (entity reread : MaterialRequest) (h : ∀ n, Mirrors (k n) (k' n)) :
    Mirrors ((saveRequestRow .typeOrm entity reread).bind k)
      ((saveRequestRow .checked entity reread).bind k') := by
  refine .statement _ (fun v hfresh => ?_) fun v hfresh => ?_
  · simp only [savedVersion_checked (hfresh entity reread ⟨k, rfl⟩)]
  · simp only [savedVersion_checked (hfresh entity reread ⟨k, rfl⟩)]
    cases savedVersion .typeOrm entity reread v with
    | none => exact .fail _
    | some n => exact h n

/-- `save`, with what follows it. -/
theorem mirrors_save (entity : MaterialRequest) (courses : List MaterialRequestCourse)
    (h : ∀ n, Mirrors (k n) (k' n)) :
    Mirrors ((save .typeOrm entity courses).bind k) ((save .checked entity courses).bind k') := by
  simp only [save, Program.bind_eq, Program.bind_assoc]
  refine .bind _ fun reread => .bind _ fun rows => ?_
  cases reread with
  | none => exact .fail _
  | some reread =>
    simp only [Program.bind_assoc]
    refine mirrors_saveRequestRow entity reread fun n => .bind _ fun _ => ?_
    exact h n

/-- A review read. -/
theorem mirrors_review (id : RequestId) :
    Mirrors (UseCase.transaction .typeOrm (.review id))
      (UseCase.transaction .checked (.review id)) := by
  simp only [UseCase.transaction, getMaterialReview, Program.bind_eq, Program.bind_assoc]
  refine .bind _ fun found => ?_
  cases found with
  | none => exact .fail _
  | some found =>
    obtain ⟨request, courses⟩ := found
    simp only
    split
    · simp only [Program.bind_assoc]
      exact mirrors_save _ _ fun n => .refl _
    · exact .refl _

/-- An approval. -/
theorem mirrors_approve (id : RequestId) (dto : ApproveReview) (ctx : MaterialReviewContext) :
    Mirrors (UseCase.transaction .typeOrm (.approve id dto ctx))
      (UseCase.transaction .checked (.approve id dto ctx)) := by
  simp only [UseCase.transaction, approve, Program.bind_eq, Program.bind_assoc]
  refine .bind _ fun found => ?_
  cases found with
  | none => exact .fail _
  | some found =>
    obtain ⟨request, courses⟩ := found
    simp only [Program.bind_assoc, decideApproval, Program.bind_eq]
    refine .bind _ fun _ => .bind _ fun _ => .bind _ fun slots => ?_
    split
    · exact .fail _
    · split
      · simp only [approveWithoutChanges, Program.bind_eq, Program.bind_assoc]
        exact mirrors_save _ _ fun n => .refl _
      · simp only [regenerate, Program.bind_eq, Program.bind_assoc]
        exact mirrors_save _ _ fun n => .refl _

end Programs

/-- The module with the mapper of the comment simulates the module as it is. -/
theorem materials_sim :
    (materials .typeOrm).Sim (fun p _ => SavesFresh p) (materials .checked) where
  program := by
    intro call
    cases call with
    | webhook cb => exact .refl _
    | review id => exact mirrors_review id
    | saveDraft id dto => exact .refl _
    | approve id dto ctx => exact mirrors_approve id dto ctx
    | generate inputs => exact .refl _
  dispatched := rfl

/-- The same open transactions and commits, the module as it is on the left. -/
abbrev Checked (s s' : State) : Prop := s.Sim (fun p _ => SavesFresh p) s'

/-- **A run without stale saves** is a run of the mapper of the comment. -/
theorem exists_checked {allowed : UseCase → Prop} {db : Db} {s : State}
    (hreach : (materials .typeOrm).Reaches
      (fun s e => Machine.StartsOnly allowed s e ∧ NoStaleSave s e) (System.idle db) s) :
    ∃ s', (materials .checked).Reaches (Machine.StartsOnly allowed) (System.idle db) s' ∧
      Checked s s' := by
  refine materials_sim.reaches (fun s e h t ht he => h.2 t ht he) ?_ (System.sim_idle _ db) hreach
  exact fun _ _ _ _ h => h.1

/-- A step without a stale save is a step of the mapper of the comment. -/
theorem Checked.step {s s' u : State} {e : Event UseCase} (h : Checked s s')
    (hfresh : NoStaleSave s e) (hstep : (materials .typeOrm).step s e = some u) :
    ∃ u', (materials .checked).step s' e = some u' ∧ Checked u u' :=
  materials_sim.step h (fun t ht he => hfresh t ht he) hstep

end Odiseo.Materials
