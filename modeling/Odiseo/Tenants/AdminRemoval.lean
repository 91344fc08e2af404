import Odiseo.Tenants.Admins

/-!
# The last administrator

`softDelete` counts the active administrators without a lock on them, so two removals of
different administrators may both count two and both go on. The guard protects the last
administrator when it still stands at the `UPDATE`: when another administrator is then
active whom no open removal has deactivated. Removals that do not overlap are a case of it.
-/

namespace Odiseo.Tenants

open Database

/-- Another transaction has deactivated the user and is still open. -/
def BeingRemoved (s : AdminState) (userId : RowId) : Prop :=
  ∃ t ∈ s.active, t.call = .softDelete userId ∧ t.program.isDone = true

/-- When a removal runs its `UPDATE` on an active administrator, there is another one whom no
open removal has deactivated. -/
def GuardStands (s : AdminState) (e : Event AdminCall) : Prop :=
  ∀ t ∈ s.active, ∀ userId, e = .exec t.id → t.call = .softDelete userId →
    t.program = removeActive userId → s.db.IsAdmin userId →
      ∃ other ≠ userId, s.db.IsAdmin other ∧ ¬BeingRemoved s other

/-- When a removal runs its `UPDATE`, no other removal has committed since it was opened, and
none has run its `UPDATE` and is still open. -/
def NoOverlap (s : AdminState) (e : Event AdminCall) : Prop :=
  ∀ t ∈ s.active, ∀ userId, e = .exec t.id → t.call = .softDelete userId →
    t.program = removeActive userId → (∀ c ∈ s.commits.drop t.since, ∀ other,
      c.call ≠ .softDelete other) ∧ ∀ other, ¬BeingRemoved s other

/-- Every run under a condition keeps an active administrator, if it starts with one. -/
def KeepsAdmin (cond : AdminState → Event AdminCall → Prop) : Prop :=
  ∀ tenantId (db : AdminDb) (s : AdminState), db.HasAdmin →
    (admins tenantId).Reaches cond (System.idle db) s → s.db.HasAdmin

namespace AdminDb

variable {a b db : AdminDb} {id : RowId}

/-- Every active administrator of `a` is one of `b`. -/
def Keeps (a b : AdminDb) : Prop := ∀ id, a.IsAdmin id → b.IsAdmin id

/-- Nothing has changed. -/
theorem Keeps.refl (db : AdminDb) : db.Keeps db := fun _ h => h

/-- One change after another. -/
theorem Keeps.trans {c : AdminDb} (hab : a.Keeps b) (hbc : b.Keeps c) : a.Keeps c :=
  fun id h => hbc id (hab id h)

/-- More rows select more administrators. -/
theorem keeps_of_rows (hassigned : a.userRoles.rows ⊆ b.userRoles.rows)
    (hactive : ∀ id, a.isActive id = true → b.isActive id = true)
    (hrole : ∀ id, a.isAdminRole id = true → b.isAdminRole id = true) : a.Keeps b := by
  rintro id ⟨ur, hur, hid, hjoins⟩
  unfold joins at hjoins
  rw [Bool.and_eq_true] at hjoins
  refine ⟨ur, hassigned hur, hid, ?_⟩
  unfold joins
  rw [hactive _ hjoins.1, hrole _ hjoins.2]
  rfl

/-- Inserting a role keeps the administrators. -/
theorem keeps_insertRole (db : AdminDb) (role : AdminRole) : db.Keeps (db.insertRole role) := by
  unfold insertRole
  split
  · exact .refl db
  · refine keeps_of_rows (fun _ h => h) (fun _ h => h) ?_
    intro id hid
    obtain ⟨r, hr, hname⟩ := (Option.any_eq_true ..).mp hid
    exact (Option.any_eq_true ..).mpr ⟨r, Table.find_insert_of_some _ _ _ _ hr, hname⟩

/-- Inserting a user keeps the administrators. -/
theorem keeps_insertUser (db : AdminDb) (user : User) : db.Keeps (db.insertUser user) := by
  refine keeps_of_rows (fun _ h => h) ?_ (fun _ h => h)
  intro id hid
  obtain ⟨u, hu, hactive⟩ := (Option.any_eq_true ..).mp hid
  exact (Option.any_eq_true ..).mpr ⟨u, Table.find_insert_of_some _ _ _ _ hu, hactive⟩

/-- Assigning a role keeps the administrators. -/
theorem keeps_assign (db : AdminDb) (ur : UserRole) : db.Keeps (db.assign ur) := by
  refine keeps_of_rows ?_ (fun _ h => h) (fun _ h => h)
  intro a ha
  exact Table.mem_of_find (Table.find_insert_of_some _ ur a a (Table.find_of_mem ha))

/-- Deactivating a user leaves the other administrators active. -/
theorem isAdmin_deactivate {userId : RowId} (h : db.IsAdmin id) (hne : id ≠ userId) :
    (db.deactivate userId).IsAdmin id := by
  obtain ⟨ur, hur, hid, hjoins⟩ := h
  refine ⟨ur, hur, hid, ?_⟩
  have hother : ur.userId ≠ userId := hid ▸ hne
  have hfind : (db.deactivate userId).users.find ur.userId = db.users.find ur.userId := by
    rw [deactivate, Table.find_modify, if_neg hother]
  unfold joins isActive
  rw [hfind]
  exact hjoins

/-- Roles with one name are one role. -/
theorem roleId_eq_of_name {x y : AdminRole} (hx : x ∈ db.roles.rows) (hy : y ∈ db.roles.rows)
    (h : x.name = y.name) : x = y :=
  List.inj_on_of_nodup_map db.roleNames hx hy h

/-- A count above one counts two different administrators. -/
theorem two_of_countActive (h : 1 < db.countActive) :
    ∃ x y, x ≠ y ∧ db.IsAdmin x ∧ db.IsAdmin y := by
  have hnodup : (db.userRoles.filter db.joins).Nodup := by
    have hrows := db.userRoles.nodup
    rw [show (key : UserRole → UserRole) = id from rfl, List.map_id] at hrows
    exact hrows.filter _
  unfold countActive at h
  match hcounted : db.userRoles.filter db.joins with
  | [] => simp [hcounted] at h
  | [_] => simp [hcounted] at h
  | x :: y :: rest =>
    rw [hcounted] at hnodup
    have hmem : ∀ z ∈ x :: y :: rest, z ∈ db.userRoles.rows ∧ db.joins z = true := by
      intro z hz
      rw [← hcounted] at hz
      exact List.mem_filter.mp hz
    obtain ⟨hx, hxjoins⟩ := hmem x (List.mem_cons_self ..)
    obtain ⟨hy, hyjoins⟩ := hmem y (List.mem_cons_of_mem _ (List.mem_cons_self ..))
    refine ⟨x.userId, y.userId, ?_, ⟨x, hx, rfl, hxjoins⟩, ⟨y, hy, rfl, hyjoins⟩⟩
    intro huser
    have hrole : x.roleId = y.roleId := by
      unfold joins isAdminRole at hxjoins hyjoins
      rw [Bool.and_eq_true] at hxjoins hyjoins
      obtain ⟨rx, hrx, hnamex⟩ := (Option.any_eq_true ..).mp hxjoins.2
      obtain ⟨ry, hry, hnamey⟩ := (Option.any_eq_true ..).mp hyjoins.2
      have hname : rx.name = ry.name :=
        (of_decide_eq_true hnamex).trans (of_decide_eq_true hnamey).symm
      have hsame := roleId_eq_of_name (Table.mem_of_find hrx) (Table.mem_of_find hry) hname
      rw [← Table.key_of_find hrx, ← Table.key_of_find hry, hsame]
    have hsame : x = y := by
      cases x
      cases y
      cases huser
      cases hrole
      rfl
    exact (List.nodup_cons.mp hnodup).1 (hsame ▸ List.mem_cons_self ..)

end AdminDb

/-- The change keeps the administrators of every database. -/
def Keeping (change : AdminDb → AdminDb) : Prop := ∀ db : AdminDb, db.Keeps (change db)

/-- Nothing has changed. -/
theorem keeping_id : Keeping fun db => db := AdminDb.Keeps.refl

/-- Every statement of `create` keeps the administrators. -/
theorem writes_create (tenantId : ℕ) (data : NewAdmin) :
    (create tenantId data).Writes fun _ _ change => Keeping change := by
  have hselect : ∀ {β : Type} (f : AdminDb → β),
      (Program.select f : AdminTx β).Writes fun _ _ change => Keeping change :=
    fun f => Program.writes_select (fun _ => keeping_id) f
  have hcompany : validateCompanyExists.Writes fun _ _ change => Keeping change := by
    refine (hselect _).bind fun company => ?_
    split <;> trivial
  have hrole : (ensureRole data.newRoleId).Writes fun _ _ change => Keeping change := by
    refine (hselect _).bind fun role => ?_
    split
    · trivial
    · refine Program.Writes.bind ?_ fun _ => trivial
      exact Program.writes_attempt (fun _ => keeping_id) fun _ _ db => db.keeps_insertRole _
  have hinsert : ∀ roleId, (insertWithRole (data.user tenantId) roleId).Writes
      fun _ _ change => Keeping change := by
    intro roleId
    refine Program.Writes.bind ?_ fun _ => Program.Writes.bind ?_ fun _ => trivial
    · exact Program.writes_attempt (fun _ => keeping_id) fun _ _ db => db.keeps_insertUser _
    · exact Program.writes_attempt (fun _ => keeping_id) fun _ _ db => db.keeps_assign _
  refine hcompany.bind fun _ => Program.Writes.bind ?_ fun _ => trivial
  refine (hselect _).bind fun existing => ?_
  split
  · trivial
  · exact hrole.bind fun roleId => (hinsert roleId).bind fun _ => trivial

/-- What is known of an open transaction. -/
inductive Stage (t : AdminTransaction) : Prop
  /-- A creation adds rows. -/
  | creating (data : NewAdmin) (hcall : t.call = .create data) (hlog : Keeping t.log)
      (hrest : t.program.Writes fun _ _ change => Keeping change)
  /-- A removal has not written yet. -/
  | removing (userId : RowId) (hcall : t.call = .softDelete userId) (hlog : ∀ db, t.log db = db)
      (hrest : t.program = softDelete userId ∨ t.program = guardedRemoval userId ∨
        t.program = removeActive userId)
  /-- A removal has run its `UPDATE`. -/
  | removed (userId : RowId) (hcall : t.call = .softDelete userId)
      (hlog : ∀ db, t.log db = db.deactivate userId) (hrest : t.program.isDone = true)
  /-- An exception is about to leave the transaction. -/
  | failing (e : AdminError) (hrest : t.program = .fail e)

section Statements

variable {t : AdminTransaction} {userId : RowId}

/-- The first statement of a removal. -/
theorem softDelete_eq (userId : RowId) : softDelete userId =
    .statement (fun _ => []) (fun _ db => db) fun v =>
      if v.company then guardedRemoval userId
      else .fail (.notFound "Empresa no encontrada.") := by
  unfold softDelete validateCompanyExists
  simp only [Program.bind_eq, Program.select, Program.bind, Program.throw]
  congr
  funext v
  cases v.company <;> rfl

/-- The guard of a removal. -/
theorem guardedRemoval_eq (userId : RowId) : guardedRemoval userId =
    .statement (fun _ => []) (fun _ db => db) fun v =>
      if v.countActive ≤ 1 then
        .fail (.conflict "La empresa debe conservar al menos un administrador activo.")
      else removeActive userId := rfl

/-- The `UPDATE` of a removal. -/
theorem removeActive_eq (userId : RowId) : removeActive userId =
    .statement (fun v => if v.isActive userId then [.user userId] else [])
      (fun _ db => db.deactivate userId) fun v =>
        if v.isActive userId then .done (.removed userId)
        else .fail (.notFound "Administrador activo no encontrado.") := rfl

/-- A statement of a transaction leads to the next stage. -/
theorem stage_of_statement {locks : AdminDb → List AdminRow}
    {write : AdminDb → AdminDb → AdminDb} {next : AdminDb → AdminTx AdminOutcome}
    (h : Stage t) (hp : t.program = .statement locks write next) (v : AdminDb) :
    Stage { t.wrote (locks v) (write v) with program := next v } := by
  cases h with
  | creating data hcall hlog hrest =>
    rw [hp] at hrest
    exact .creating data hcall (fun db => (hlog db).trans ((hrest v).1 _)) (hrest v).2
  | removing userId hcall hlog hrest =>
    rcases hrest with hrest | hrest | hrest
    · rw [hrest, softDelete_eq] at hp
      cases hp
      by_cases hcompany : v.company = true
      · exact .removing userId hcall hlog (.inr (.inl (if_pos hcompany)))
      · exact .failing _ (if_neg hcompany)
    · rw [hrest, guardedRemoval_eq] at hp
      cases hp
      by_cases hlast : v.countActive ≤ 1
      · exact .failing _ (if_pos hlast)
      · exact .removing userId hcall hlog (.inr (.inr (if_neg hlast)))
    · rw [hrest, removeActive_eq] at hp
      cases hp
      by_cases hactive : v.isActive userId = true
      · refine .removed userId hcall ?_ (by simp [hactive, Program.isDone])
        intro db
        rw [Context.wrote_log, hlog]
      · exact .failing _ (if_neg hactive)
  | removed userId hcall hlog hrest =>
    rw [hp] at hrest
    cases hrest
  | failing e hrest =>
    rw [hp] at hrest
    cases hrest

/-- A removal adds no job while it is open. -/
theorem stage_of_enqueue {job : RowId} {next : AdminTx AdminOutcome} (h : Stage t)
    (hp : t.program = .enqueue job next) :
    Stage { t.added job with program := next } ∧ ∀ userId, t.call ≠ .softDelete userId := by
  cases h with
  | creating data hcall hlog hrest =>
    rw [hp] at hrest
    exact ⟨.creating data hcall hlog hrest, fun userId h => nomatch hcall.symm.trans h⟩
  | removing userId hcall hlog hrest =>
    rcases hrest with hrest | hrest | hrest <;> rw [hrest] at hp <;> cases hp
  | removed userId hcall hlog hrest =>
    rw [hp] at hrest
    cases hrest
  | failing e hrest =>
    rw [hp] at hrest
    cases hrest

/-- Only the `UPDATE` ends a removal. -/
theorem removeActive_of_isDone {locks : AdminDb → List AdminRow}
    {write : AdminDb → AdminDb → AdminDb} {next : AdminDb → AdminTx AdminOutcome}
    (h : Stage t) (hcall : t.call = .softDelete userId)
    (hp : t.program = .statement locks write next) {v : AdminDb} (hdone : (next v).isDone = true) :
    t.program = removeActive userId := by
  cases h with
  | creating data hcreate => exact nomatch hcall.symm.trans hcreate
  | removing other hother hlog hrest =>
    obtain rfl : other = userId := by
      rw [hcall] at hother
      cases hother
      rfl
    rcases hrest with hrest | hrest | hrest
    · rw [hrest, softDelete_eq] at hp
      cases hp
      dsimp only at hdone
      split at hdone <;> cases hdone
    · rw [hrest, guardedRemoval_eq] at hp
      cases hp
      dsimp only at hdone
      split at hdone <;> cases hdone
    · exact hrest
  | removed other hother hlog hrest =>
    rw [hp] at hrest
    cases hrest
  | failing e hrest =>
    rw [hp] at hrest
    cases hrest

end Statements

/-- The invariant: every transaction is at a known stage, and there is an active administrator
whom no open removal has deactivated. -/
structure Guarded (s : AdminState) : Prop where
  stages : ∀ t ∈ s.active, Stage t
  admin : ∃ userId, s.db.IsAdmin userId ∧ ¬BeingRemoved s userId

section Steps

variable {s s' : AdminState} {tenantId : ℕ} {e : Event AdminCall}

/-- The transactions after one of them has gone on. -/
theorem mem_replace {t u : AdminTransaction} (h : u ∈ (s.replace t).active) :
    u = t ∨ u ∈ s.active := by
  obtain ⟨v, hv, rfl⟩ := List.mem_map.mp h
  split
  · exact .inl rfl
  · exact .inr hv

/-- A removal goes on to be one that is being done only by its own step. -/
theorem beingRemoved_replace {t : AdminTransaction} {userId : RowId}
    (h : BeingRemoved (s.replace t) userId) :
    BeingRemoved s userId ∨ t.call = .softDelete userId ∧ t.program.isDone = true := by
  obtain ⟨u, hu, hcall, hdone⟩ := h
  rcases mem_replace hu with rfl | hu
  · exact .inr ⟨hcall, hdone⟩
  · exact .inl ⟨u, hu, hcall, hdone⟩

/-- A call that starts is at its first stage. -/
theorem stage_opened (tenantId id since : ℕ) (call : AdminCall) :
    Stage { Context.opened id call since with program := (admins tenantId).program call } := by
  cases call with
  | create data => exact .creating data rfl (fun db => .refl db) (writes_create tenantId data)
  | softDelete userId => exact .removing userId rfl (fun _ => rfl) (.inl rfl)

/-- The commit of a transaction keeps the administrators whom it has not deactivated. -/
theorem isAdmin_commit {t : AdminTransaction} {a : AdminOutcome} {userId : RowId}
    (hstage : Stage t) (ht : t ∈ s.active) (hp : t.program = .done a)
    (hadmin : s.db.IsAdmin userId) (hkept : ¬BeingRemoved s userId) :
    (t.log s.db).IsAdmin userId := by
  cases hstage with
  | creating data hcall hlog hrest => exact hlog s.db userId hadmin
  | removing other hcall hlog hrest =>
    rw [hlog]
    exact hadmin
  | removed other hcall hlog hrest =>
    rw [hlog]
    apply AdminDb.isAdmin_deactivate hadmin
    rintro rfl
    exact hkept ⟨t, ht, hcall, hrest⟩
  | failing e hrest =>
    rw [hp] at hrest
    cases hrest

/-- **Step lemma:** a step at which the guard stands keeps the invariant. -/
theorem guarded_of_step (h : Guarded s) (hcond : GuardStands s e)
    (hstep : (admins tenantId).step s e = some s') : Guarded s' := by
  obtain ⟨hstages, userId, hadmin, hkept⟩ := h
  cases Machine.moves_of_step hstep with
  | start call =>
    constructor
    · intro t ht
      rcases List.mem_append.mp ht with ht | ht
      · exact hstages t ht
      · obtain rfl := List.mem_singleton.mp ht
        exact stage_opened tenantId _ _ call
    · refine ⟨userId, hadmin, ?_⟩
      rintro ⟨t, ht, hcall, hdone⟩
      rcases List.mem_append.mp ht with ht | ht
      · exact hkept ⟨t, ht, hcall, hdone⟩
      · obtain rfl := List.mem_singleton.mp ht
        obtain rfl : call = .softDelete userId := hcall
        cases hdone
  | commit t a ht hp =>
    constructor
    · exact fun u hu => hstages u (List.mem_filter.mp hu).1
    · refine ⟨userId, isAdmin_commit (hstages t ht) ht hp hadmin hkept, ?_⟩
      rintro ⟨u, hu, hcall, hdone⟩
      exact hkept ⟨u, (List.mem_filter.mp hu).1, hcall, hdone⟩
  | statement t locks write next ht hp hfree =>
    constructor
    · intro u hu
      rcases mem_replace hu with rfl | hu
      · exact stage_of_statement (hstages t ht) hp _
      · exact hstages u hu
    · by_cases hends : t.call = .softDelete userId ∧
          (next (t.view s.toSnapshot)).isDone = true
      · -- this administrator is deactivated, so another one has to be left
        have hupdate := removeActive_of_isDone (hstages t ht) hends.1 hp hends.2
        obtain ⟨other, hne, hother, hothers⟩ := hcond t ht userId rfl hends.1 hupdate hadmin
        refine ⟨other, hother, fun hremoved => ?_⟩
        rcases beingRemoved_replace hremoved with hold | ⟨hcall, _⟩
        · exact hothers hold
        · have hsame : AdminCall.softDelete other = .softDelete userId := hcall.symm.trans hends.1
          cases hsame
          exact hne rfl
      · refine ⟨userId, hadmin, fun hremoved => ?_⟩
        rcases beingRemoved_replace hremoved with hold | hnew
        · exact hkept hold
        · exact hends hnew
  | enqueue t job next ht hp =>
    obtain ⟨hnext, hcreates⟩ := stage_of_enqueue (hstages t ht) hp
    constructor
    · intro u hu
      rcases mem_replace hu with rfl | hu
      · exact hnext
      · exact hstages u hu
    · refine ⟨userId, hadmin, fun hremoved => ?_⟩
      rcases beingRemoved_replace hremoved with hold | ⟨hcall, _⟩
      · exact hkept hold
      · exact hcreates userId hcall
  | rollback _ t ht =>
    constructor
    · exact fun u hu => hstages u (List.mem_filter.mp hu).1
    · refine ⟨userId, hadmin, ?_⟩
      rintro ⟨u, hu, hcall, hdone⟩
      exact hkept ⟨u, (List.mem_filter.mp hu).1, hcall, hdone⟩

/-- Nothing is open at the start. -/
theorem guarded_idle {db : AdminDb} (h : db.HasAdmin) : Guarded (System.idle db) := by
  obtain ⟨userId, hadmin⟩ := h
  exact ⟨fun _ ht => (nomatch ht), userId, hadmin, fun ⟨_, ht, _⟩ => nomatch ht⟩

/-- **Run lemma:** a run at whose updates the guard stands keeps the invariant. -/
theorem guarded_of_reaches {db : AdminDb} (hstart : db.HasAdmin)
    (h : (admins tenantId).Reaches GuardStands (System.idle db) s) : Guarded s := by
  induction h with
  | refl => exact guarded_idle hstart
  | tail _ hlast ih =>
    obtain ⟨e, hcond, hstep⟩ := hlast
    exact guarded_of_step ih hcond hstep

/-- **The last administrator.** Whatever the interleaving, the tenant keeps an active
administrator when the guard of every removal still stands at its `UPDATE`. -/
theorem keepsAdmin_of_guardStands (tenantId : ℕ) (db : AdminDb) (s : AdminState)
    (hstart : db.HasAdmin) (hreach : (admins tenantId).Reaches GuardStands (System.idle db) s) :
    s.db.HasAdmin := by
  obtain ⟨userId, hadmin, _⟩ := (guarded_of_reaches hstart hreach).admin
  exact ⟨userId, hadmin⟩

end Steps

/-- What removals that do not overlap know: where one is about to run its `UPDATE` and no other
has committed since it was opened, two administrators are active. -/
structure Counted (s : AdminState) : Prop where
  opened : ∀ t ∈ s.active, t.since ≤ s.commits.length
  two : ∀ t ∈ s.active, ∀ userId, t.call = .softDelete userId →
    t.program = removeActive userId → (∀ c ∈ s.commits.drop t.since, ∀ other,
      c.call ≠ .softDelete other) → ∃ x y, x ≠ y ∧ s.db.IsAdmin x ∧ s.db.IsAdmin y

section Overlaps

variable {s s' : AdminState} {tenantId : ℕ} {e : Event AdminCall}

/-- A removal that does not overlap another one still has its guard. -/
theorem guardStands_of_noOverlap (h : Counted s) (hcond : NoOverlap s e) : GuardStands s e := by
  intro t ht userId he hcall hp hadmin
  obtain ⟨hcommits, hopen⟩ := hcond t ht userId he hcall hp
  obtain ⟨x, y, hne, hx, hy⟩ := h.two t ht userId hcall hp hcommits
  by_cases hsame : x = userId
  · exact ⟨y, fun heq => hne (hsame.trans heq.symm), hy, hopen y⟩
  · exact ⟨x, hsame, hx, hopen x⟩

/-- A statement without locks is not the `UPDATE` of a removal. -/
theorem ne_removeActive {userId : RowId} {write : AdminDb → AdminDb → AdminDb}
    {next : AdminDb → AdminTx AdminOutcome} :
    Program.statement (fun _ => []) write next ≠ removeActive userId := by
  intro h
  rw [removeActive_eq] at h
  injection h with hlocks
  have hactive := congrFun hlocks
    ⟨true, ⟨[⟨userId, "", "", "", 0, true, false⟩], by simp⟩, .empty, .empty, by simp [Table.empty]⟩
  simp [AdminDb.isActive, Table.find, Keyed.key] at hactive

/-- A removal is about to run its `UPDATE` only once it has counted two administrators. -/
theorem two_of_statement {t : AdminTransaction} {userId : RowId}
    {locks : AdminDb → List AdminRow} {write : AdminDb → AdminDb → AdminDb}
    {next : AdminDb → AdminTx AdminOutcome} (hstage : Stage t)
    (hcall : t.call = .softDelete userId) (hp : t.program = .statement locks write next)
    (hnext : next (t.view s.toSnapshot) = removeActive userId) :
    ∃ x y, x ≠ y ∧ s.db.IsAdmin x ∧ s.db.IsAdmin y := by
  cases hstage with
  | creating data hcreate => exact nomatch hcall.symm.trans hcreate
  | removing other hother hlog hrest =>
    rcases hrest with hrest | hrest | hrest
    · rw [hrest, softDelete_eq] at hp
      cases hp
      dsimp only at hnext
      split at hnext
      · exact absurd hnext ne_removeActive
      · cases hnext
    · rw [hrest, guardedRemoval_eq] at hp
      cases hp
      dsimp only at hnext
      split at hnext
      · cases hnext
      · rename_i hcount
        apply AdminDb.two_of_countActive
        rw [Context.view, hlog] at hcount
        omega
    · rw [hrest, removeActive_eq] at hp
      cases hp
      dsimp only at hnext
      split at hnext <;> cases hnext
  | removed other hother hlog hrest =>
    rw [hp] at hrest
    cases hrest
  | failing e hrest =>
    rw [hp] at hrest
    cases hrest

/-- The commit of a creation keeps every administrator. -/
theorem keeps_commit {t : AdminTransaction} {a : AdminOutcome} (hstage : Stage t)
    (hp : t.program = .done a) (hcall : ∀ userId, t.call ≠ .softDelete userId) :
    s.db.Keeps (t.log s.db) := by
  cases hstage with
  | creating data hcreate hlog hrest => exact hlog s.db
  | removing userId hother => exact absurd hother (hcall userId)
  | removed userId hother => exact absurd hother (hcall userId)
  | failing e hrest =>
    rw [hp] at hrest
    cases hrest

/-- **Step lemma:** what a removal has counted stands until another one commits. -/
theorem counted_of_step (hguarded : Guarded s) (h : Counted s)
    (hstep : (admins tenantId).step s e = some s') : Counted s' := by
  cases Machine.moves_of_step hstep with
  | start call =>
    constructor
    · intro t ht
      rcases List.mem_append.mp ht with ht | ht
      · exact h.opened t ht
      · obtain rfl := List.mem_singleton.mp ht
        exact Nat.le_refl _
    · intro t ht userId hcall hp
      rcases List.mem_append.mp ht with ht | ht
      · exact h.two t ht userId hcall hp
      · obtain rfl := List.mem_singleton.mp ht
        obtain rfl : call = .softDelete userId := hcall
        have hfirst : softDelete userId = removeActive userId := hp
        rw [softDelete_eq] at hfirst
        exact absurd hfirst ne_removeActive
  | commit t a ht hp =>
    constructor
    · intro u hu
      have hopened := h.opened u (List.mem_filter.mp hu).1
      simp only [Snapshot.commit, List.length_append]
      omega
    · intro u hu userId hcall hu' hcommits
      have hmem := (List.mem_filter.mp hu).1
      simp only [Snapshot.commit, List.drop_append_of_le_length (h.opened u hmem)] at hcommits
      obtain ⟨x, y, hne, hx, hy⟩ := h.two u hmem userId hcall hu'
        fun c hc => hcommits c (List.mem_append_left _ hc)
      have hkeeps := keeps_commit (s := s) (hguarded.stages t ht) hp
        (hcommits _ (List.mem_append_right _ (List.mem_singleton_self _)))
      exact ⟨x, y, hne, hkeeps x hx, hkeeps y hy⟩
  | statement t locks write next ht hp hfree =>
    constructor
    · intro u hu
      rcases mem_replace hu with rfl | hu
      · exact h.opened t ht
      · exact h.opened u hu
    · intro u hu userId hcall hu' hcommits
      rcases mem_replace hu with rfl | hu
      · exact two_of_statement (hguarded.stages t ht) hcall hp hu'
      · exact h.two u hu userId hcall hu' hcommits
  | enqueue t job next ht hp =>
    obtain ⟨_, hcreates⟩ := stage_of_enqueue (hguarded.stages t ht) hp
    constructor
    · intro u hu
      rcases mem_replace hu with rfl | hu
      · exact h.opened t ht
      · exact h.opened u hu
    · intro u hu userId hcall hu' hcommits
      rcases mem_replace hu with rfl | hu
      · exact absurd hcall (hcreates userId)
      · exact h.two u hu userId hcall hu' hcommits
  | rollback _ t ht =>
    exact ⟨fun u hu => h.opened u (List.mem_filter.mp hu).1,
      fun u hu => h.two u (List.mem_filter.mp hu).1⟩

/-- Removals that do not overlap keep an active administrator. -/
theorem keepsAdmin_of_noOverlap : KeepsAdmin NoOverlap := by
  intro tenantId db s hstart hreach
  have hboth : Guarded s ∧ Counted s := by
    induction hreach with
    | refl => exact ⟨guarded_idle hstart, fun _ ht => (nomatch ht), fun _ ht => nomatch ht⟩
    | tail _ hlast ih =>
      obtain ⟨e, hcond, hstep⟩ := hlast
      obtain ⟨hguarded, hcounted⟩ := ih
      exact ⟨guarded_of_step hguarded (guardStands_of_noOverlap hcounted hcond) hstep,
        counted_of_step hguarded hcounted hstep⟩
  obtain ⟨userId, hadmin, _⟩ := hboth.1.admin
  exact ⟨userId, hadmin⟩

end Overlaps

/-- A tenant with two administrators. -/
def twoAdmins : AdminDb where
  company := true
  users := ⟨[⟨1, "a@odiseo.pe", "", "A", 7, true, false⟩, ⟨2, "b@odiseo.pe", "", "B", 7, true, false⟩],
    by decide⟩
  roles := ⟨[adminRole 3], by decide⟩
  userRoles := ⟨[⟨1, 3⟩, ⟨2, 3⟩], by decide⟩
  roleNames := by decide

/-- Each of two administrators is removed; both removals count two. -/
def skewed : List (Event AdminCall) :=
  [.start (.softDelete 1), .start (.softDelete 2), .exec 0, .exec 0, .exec 1, .exec 1,
    .exec 0, .exec 1, .exec 0, .exec 1]

/-- Two removals that both count two leave the tenant without an administrator. -/
theorem not_keepsAdmin : ¬KeepsAdmin fun _ _ => True := by
  intro h
  have hreach : (admins 7).Reaches (fun _ _ => True) (System.idle twoAdmins)
      ((admins 7).endState (System.idle twoAdmins) skewed) :=
    Machine.reaches_endState (by decide +kernel) fun _ _ _ => trivial
  obtain ⟨userId, ur, hur, _, hjoins⟩ := h 7 twoAdmins _ ⟨1, by decide⟩ hreach
  have hnone : ∀ ur ∈ ((admins 7).endState (System.idle twoAdmins) skewed).db.userRoles.rows,
      ((admins 7).endState (System.idle twoAdmins) skewed).db.joins ur = false := by
    decide +kernel
  rw [hnone ur hur] at hjoins
  cases hjoins

/-- One of two administrators is removed. -/
def removedOne : List (Event AdminCall) :=
  [.start (.softDelete 1), .exec 0, .exec 0, .exec 0, .exec 0]

/-- The guard stands where only the first of two administrators is being removed. -/
theorem guardStands_of_removing_first {s : AdminState} {e : Event AdminCall}
    (hcalls : ∀ t ∈ s.active, t.call = .softDelete 1) (hadmin : s.db.IsAdmin 2) :
    GuardStands s e := by
  intro t ht userId _ hcall _ _
  have hfirst : AdminCall.softDelete userId = .softDelete 1 := hcall.symm.trans (hcalls t ht)
  cases hfirst
  refine ⟨2, by decide, hadmin, ?_⟩
  rintro ⟨u, hu, hsecond, _⟩
  cases (hcalls u hu).symm.trans hsecond

/-- One of two administrators is removed, and the other one is left. -/
theorem keepsAdmin_of_guardStands_removedOne :
    twoAdmins.HasAdmin ∧
      ((admins 7).endState (System.idle twoAdmins) removedOne).db.HasAdmin := by
  have hstart : twoAdmins.HasAdmin := ⟨1, by decide⟩
  refine ⟨hstart, keepsAdmin_of_guardStands 7 twoAdmins _ hstart ?_⟩
  apply Machine.reaches_endState_of_steps (by decide +kernel)
  intro n e he
  have hn : n < 5 := (List.getElem?_eq_some_iff.mp he).1
  have hall : ∀ n < 5,
      (∀ t ∈ ((admins 7).endState (System.idle twoAdmins) (removedOne.take n)).active,
        t.call = .softDelete 1) ∧
      ((admins 7).endState (System.idle twoAdmins) (removedOne.take n)).db.IsAdmin 2 := by
    decide +kernel
  exact guardStands_of_removing_first (hall n hn).1 (hall n hn).2

end Odiseo.Tenants
