import Odiseo.Roles.Service

/-!
# No vertical privilege escalation

Requests of acting users are served one after the other, and each is checked against
what its actor may do at that moment. Authority then only circulates: whatever a user
may do in the end, the user could do at the start, or one of the actors could. The
step is one request, and the reason is in `GrantsOnly`: whatever a request adds to the
role graph confers nothing beyond what was checked.
-/

namespace Odiseo.Roles

open Database

/-- A request to the service. -/
inductive Request
  /-- `create`, with the identifier that the database draws for the role. -/
  | create (actor : Actor) (dto : CreateRole) (newId : RoleId)
  /-- `update`. -/
  | update (actor : Actor) (id : RoleId) (dto : UpdateRole)
  /-- `remove`. -/
  | remove (actor : Actor) (id : RoleId)
  /-- `assignRolesToUser`. -/
  | assignRolesToUser (actor : Actor) (targetUserId : UserId) (roleIds : List RoleId)
  deriving DecidableEq, Repr

namespace Request

/-- The acting user. -/
def actor : Request → Actor
  | .create actor _ _ | .update actor _ _ | .remove actor _ | .assignRolesToUser actor _ _ => actor

/-- The operation that a request calls. -/
def execute : Request → RoleTx Outcome
  | .create actor dto newId => Roles.create dto newId actor
  | .update actor id dto => Roles.update id dto actor
  | .remove _ id => Roles.remove id
  | .assignRolesToUser actor targetUserId roleIds =>
    Roles.assignRolesToUser actor targetUserId roleIds

/-- The database after a request; one that is refused leaves it as it is. -/
def serve (db : RoleDb) (request : Request) : RoleDb :=
  match request.execute.run db with
  | .ok (_, db', _) => db'
  | .error _ => db

/-- The database after some requests, one after the other. -/
def serveAll (db : RoleDb) (requests : List Request) : RoleDb := requests.foldl serve db

end Request

/-- One of the actors of the requests may do `p`. -/
def ActorsHold (db : RoleDb) (requests : List Request) (p : Permission) : Prop :=
  ∃ request ∈ requests, ∃ userId, request.actor.userId = some userId ∧
    p ∈ db.effectivePermissions userId

/-- What `db'` has beyond `db` confers only permissions in `granted`: new permissions
of a role, the ancestors of new parents, and newly assigned roles. -/
structure GrantsOnly (granted : Permission → Prop) (db db' : RoleDb) : Prop where
  roles : ∀ r' ∈ db'.roles.rows, ∀ p ∈ r'.permissions.getD [],
    granted p ∨ ∃ r ∈ db.roles.rows, r.id = r'.id ∧ p ∈ r.permissions.getD []
  inheritance : ∀ e ∈ db'.inheritance, e ∈ db.inheritance ∨
    ∀ p ∈ db.effectivePermissionsForRoleIds [e.parentRoleId], granted p
  userRoles : ∀ ur ∈ db'.userRoles, ur ∈ db.userRoles ∨
    ∀ p ∈ db.effectivePermissionsForRoleIds [ur.roleId], granted p

/-- A role that some roles lead to confers no more than they do. -/
theorem confers_of_leads {db : RoleDb} {s x : RoleId} {p : Permission}
    (hlead : Graph.Leads db.parentEdges s x) (hp : p ∈ db.effectivePermissionsForRoleIds [x]) :
    p ∈ db.effectivePermissionsForRoleIds [s] := by
  rw [RoleDb.mem_effectivePermissionsForRoleIds] at hp ⊢
  obtain ⟨x', hx', r, hr, hxr, hperm⟩ := hp
  obtain rfl := List.mem_singleton.mp hx'
  exact ⟨s, by simp, r, hr, hlead.trans hxr, hperm⟩

/-- One of several roles confers no more than all of them. -/
theorem confers_of_mem {db : RoleDb} {ids : List RoleId} {id : RoleId} {p : Permission}
    (hid : id ∈ ids) (hp : p ∈ db.effectivePermissionsForRoleIds [id]) :
    p ∈ db.effectivePermissionsForRoleIds ids := by
  rw [RoleDb.mem_effectivePermissionsForRoleIds] at hp ⊢
  obtain ⟨x, hx, r, hr, hxr, hperm⟩ := hp
  obtain rfl := List.mem_singleton.mp hx
  exact ⟨x, hid, r, hr, hxr, hperm⟩

/-- A user may do what one of the assigned roles confers. -/
theorem mem_effectivePermissions {db : RoleDb} {userId : UserId} {p : Permission} :
    p ∈ db.effectivePermissions userId ↔
      ∃ id, ⟨userId, id⟩ ∈ db.userRoles ∧ p ∈ db.effectivePermissionsForRoleIds [id] := by
  constructor
  · intro hp
    obtain ⟨s, hs, r, hr, hlead, hperm⟩ := RoleDb.mem_effectivePermissionsForRoleIds.mp hp
    refine ⟨s, RoleDb.mem_assignedRoleIds.mp hs, ?_⟩
    exact RoleDb.mem_effectivePermissionsForRoleIds.mpr ⟨s, by simp, r, hr, hlead, hperm⟩
  · rintro ⟨id, hid, hp⟩
    exact confers_of_mem (RoleDb.mem_assignedRoleIds.mpr hid) hp

namespace GrantsOnly

variable {granted : Permission → Prop} {db db' : RoleDb}

/-- Where a walk in the new graph arrives, everything conferred was conferred where it
started, or is granted. -/
theorem confers_of_walk (h : GrantsOnly granted db db') {s x : RoleId}
    (hwalk : Graph.Leads db'.parentEdges s x) :
    Graph.Leads db.parentEdges s x ∨ ∀ p ∈ db.effectivePermissionsForRoleIds [x], granted p := by
  induction hwalk with
  | refl => exact .inl .refl
  | @tail y z _ hedge ih =>
    rcases h.inheritance _ (RoleDb.edge_parentEdges.mp hedge) with hold | hnew
    · have hstep : Graph.Edge db.parentEdges y z := RoleDb.edge_parentEdges.mpr hold
      rcases ih with hlead | hgranted
      · exact .inl (.tail hlead hstep)
      · exact .inr fun p hp => hgranted p (confers_of_leads (.single hstep) hp)
    · exact .inr hnew

/-- What a role confers afterwards it conferred before, or it is granted. -/
theorem confers (h : GrantsOnly granted db db') {s : RoleId} {p : Permission}
    (hp : p ∈ db'.effectivePermissionsForRoleIds [s]) :
    granted p ∨ p ∈ db.effectivePermissionsForRoleIds [s] := by
  obtain ⟨s', hs', r', hr', hwalk, hperm⟩ := RoleDb.mem_effectivePermissionsForRoleIds.mp hp
  obtain rfl := List.mem_singleton.mp hs'
  rcases h.roles r' hr' p hperm with hgranted | ⟨r, hr, hid, hold⟩
  · exact .inl hgranted
  · have hself : p ∈ db.effectivePermissionsForRoleIds [r'.id] :=
      RoleDb.mem_effectivePermissionsForRoleIds.mpr ⟨r'.id, by simp, r, hr, hid ▸ .refl, hold⟩
    rcases h.confers_of_walk hwalk with hlead | hgranted
    · exact .inr (confers_of_leads hlead hself)
    · exact .inl (hgranted p hself)

/-- What a user may do afterwards the user could do before, or it is granted. -/
theorem effectivePermissions (h : GrantsOnly granted db db') {userId : UserId} {p : Permission}
    (hp : p ∈ db'.effectivePermissions userId) :
    granted p ∨ p ∈ db.effectivePermissions userId := by
  obtain ⟨id, hid, hp⟩ := mem_effectivePermissions.mp hp
  rcases h.confers hp with hgranted | hold
  · exact .inl hgranted
  · rcases h.userRoles _ hid with hkept | hnew
    · exact .inr (mem_effectivePermissions.mpr ⟨id, hkept, hold⟩)
    · exact .inl (hnew p hold)

end GrantsOnly

section Runs

variable {db db' : RoleDb} {jobs : List UserId}

/-- The actor holds all of these permissions. -/
def Holds (db : RoleDb) (actor : Actor) (permissions : List Permission) : Prop :=
  ∀ p ∈ permissions, ∃ userId, actor.userId = some userId ∧ p ∈ db.effectivePermissions userId

/-- The check lets only permissions pass that the actor holds, and changes nothing. -/
theorem run_assertCanGrant {actor : Actor} {permissions : List Permission}
    (h : (assertCanGrant actor permissions).run db = .ok ((), db', jobs)) :
    db' = db ∧ Holds db actor permissions := by
  unfold assertCanGrant at h
  split at h
  · rename_i hnone
    cases h
    refine ⟨rfl, fun p hp => ?_⟩
    rw [List.isEmpty_iff.mp hnone] at hp
    cases hp
  · split at h
    · rename_i userId _ huser
      simp only [Program.bind_eq, Program.run_select_bind] at h
      split at h
      · rename_i hall
        cases h
        have hgrantable : ∀ p ∈ permissions, p ∈ db.effectivePermissions userId := by
          simpa using hall
        exact ⟨rfl, fun p hp => ⟨userId, huser, hgrantable p hp⟩⟩
      · cases h
    · cases h

/-- The permissions that some roles confer. -/
theorem run_getEffectivePermissions {ids : List RoleId} {out : List Permission}
    (h : (getEffectivePermissionsForRoleIds ids).run db = .ok (out, db', jobs)) :
    db' = db ∧ out = db.effectivePermissionsForRoleIds ids := by
  unfold getEffectivePermissionsForRoleIds at h
  split at h
  · rename_i hnone
    cases h
    refine ⟨rfl, ?_⟩
    rw [List.isEmpty_iff.mp hnone]
    have hall : ∀ p, p ∉ db.effectivePermissionsForRoleIds [] := by
      intro p hp
      obtain ⟨s, hs, _⟩ := RoleDb.mem_effectivePermissionsForRoleIds.mp hp
      cases hs
    exact (List.eq_nil_iff_forall_not_mem.mpr hall).symm
  · cases h
    exact ⟨rfl, rfl⟩

/-- The check of a grant covers the direct permissions and those that the parents confer. -/
theorem run_checked {actor : Actor} {direct : Option (List Permission)}
    {ids : Option (List RoleId)} {p : RoleTx Outcome} {o : Outcome}
    (h : ((grantedPermissions direct ids).bind fun granted =>
      (assertCanGrant actor granted).bind fun _ => p).run db = .ok (o, db', jobs)) :
    Holds db actor (direct.getD []) ∧
      Holds db actor (db.effectivePermissionsForRoleIds (ids.getD [])) ∧
      ∃ more, p.run db = .ok (o, db', more) := by
  obtain ⟨granted, db₁, _, _, hgranted, h, _⟩ := Program.of_run_bind h
  obtain ⟨inherited, db₂, _, _, hinherited, hdone, _⟩ := Program.of_run_bind hgranted
  obtain ⟨rfl, rfl⟩ := run_getEffectivePermissions hinherited
  cases hdone
  obtain ⟨_, db₃, _, more, hassert, hrest, _⟩ := Program.of_run_bind h
  obtain ⟨rfl, hholds⟩ := run_assertCanGrant hassert
  refine ⟨fun p hp => hholds p ?_, fun p hp => hholds p ?_, more, hrest⟩
  · simp [hp]
  · simp [hp]

/-- The parents that are found are among those asked for. -/
theorem run_findBy {ids out : List RoleId} (h : (findBy ids).run db = .ok (out, db', jobs)) :
    db' = db ∧ ∀ p ∈ out, p ∈ ids := by
  cases h
  refine ⟨rfl, fun p hp => ?_⟩
  obtain ⟨r, hr, rfl⟩ := List.mem_map.mp hp
  simpa using (List.mem_filter.mp hr).2

/-- The insertion of a role. -/
theorem run_insertRole {role : Role}
    (h : (insertRole role).run db = .ok ((), db', jobs)) : db' = insertRoleIn role db := by
  rw [insertRole, Program.run_attempt] at h
  split at h
  · cases h
  · cases h
    rfl

/-- The insertion of parents. -/
theorem run_insertInheritance {child : RoleId} {parents : List RoleId}
    (h : (insertInheritance child parents).run db = .ok ((), db', jobs)) :
    db' = inheritIn child parents db := by
  unfold insertInheritance at h
  split at h
  · rename_i hnone
    cases h
    rw [List.isEmpty_iff.mp hnone]
    simp [inheritIn, inheritanceRows]
  · rw [Program.run_attempt] at h
    split at h
    · cases h
    · cases h
      rfl

/-- The deletion of parents. -/
theorem run_deleteInheritance {child : RoleId} {parents : List RoleId}
    (h : (deleteInheritance child parents).run db = .ok ((), db', jobs)) :
    db' = disinheritIn child parents db := by
  unfold deleteInheritance at h
  split at h
  · rename_i hnone
    cases h
    rw [List.isEmpty_iff.mp hnone]
    simp [disinheritIn, inheritanceRows]
  · cases h
    rfl

/-- The update of the row of a role. -/
theorem run_updateRoleRow {entity reread : Role}
    (h : (updateRoleRow entity reread).run db = .ok ((), db', jobs)) :
    db' = db ∨ db' = updateRoleIn entity reread db := by
  unfold updateRoleRow at h
  split at h
  · cases h
    exact .inl rfl
  · rw [Program.run_attempt] at h
    split at h
    · cases h
    · cases h
      exact .inr rfl

/-- The role `id` and its parents in `db'` are those of `db`, or they are replaced by the
permissions and parents of a role in memory. -/
structure SavedRole (role : Role) (inheritedRoles : List RoleId) (db db' : RoleDb) : Prop where
  roles : ∀ r' ∈ db'.roles.rows, r' ∈ db.roles.rows ∨
    r'.id = role.id ∧ r'.permissions = role.permissions
  inheritance : ∀ e ∈ db'.inheritance, e ∈ db.inheritance ∨
    e.childRoleId = role.id ∧ e.parentRoleId ∈ inheritedRoles
  userRoles : db'.userRoles = db.userRoles

/-- A role that is inserted with its parents. -/
theorem savedRole_of_insert (role : Role) (inheritedRoles : List RoleId) (db : RoleDb) :
    SavedRole role inheritedRoles db (inheritIn role.id inheritedRoles (insertRoleIn role db)) where
  roles := by
    intro r' hr'
    simp only [inheritIn, insertRoleIn, Table.insert] at hr'
    split at hr'
    · exact .inl hr'
    · rcases List.mem_append.mp hr' with hold | hnew
      · exact .inl hold
      · obtain rfl := List.mem_singleton.mp hnew
        exact .inr ⟨rfl, rfl⟩
  inheritance := by
    intro e he
    rcases List.mem_append.mp he with hold | hnew
    · exact .inl hold
    · obtain ⟨p, hp, rfl⟩ := List.mem_map.mp hnew
      exact .inr ⟨rfl, hp⟩
  userRoles := rfl

/-- The rows after the update of the row that was read again. -/
theorem mem_updateRoleIn {entity reread r' : Role} (hrow : db.roles.find entity.id = some reread)
    (h : r' ∈ (updateRoleIn entity reread db).roles.rows) :
    r' ∈ db.roles.rows ∨ r'.id = entity.id ∧ r'.permissions = entity.permissions := by
  obtain ⟨r, hr, rfl⟩ := List.mem_map.mp h
  by_cases hid : key r = entity.id
  · have hsame : r = reread := by
      have hfind := Table.find_of_mem hr
      rw [hid, hrow] at hfind
      exact (Option.some.inj hfind).symm
    right
    rw [if_pos hid]
    refine ⟨hid, ?_⟩
    rw [hsame]
    simp only [saveRoleColumns, saved]
    split
    · rename_i heq
      exact heq.symm
    · rfl
  · left
    rw [if_neg hid]
    exact hr

/-- What `save` leaves behind. -/
theorem run_saveRole {entity : Role} {inheritedRoles : List RoleId}
    (h : (saveRole entity inheritedRoles).run db = .ok ((), db', jobs)) :
    SavedRole entity inheritedRoles db db' := by
  simp only [saveRole, Program.bind_eq, Program.run_select_bind] at h
  cases hrow : db.roles.find entity.id with
  | none =>
    rw [hrow] at h
    obtain ⟨_, db₁, _, _, hinsert, h, _⟩ := Program.of_run_bind h
    obtain rfl := run_insertRole hinsert
    obtain rfl := run_insertInheritance h
    exact savedRole_of_insert entity inheritedRoles db
  | some row =>
    rw [hrow] at h
    obtain ⟨_, db₁, _, _, hinsert, h, _⟩ := Program.of_run_bind h
    obtain ⟨_, db₂, _, _, hupdate, h, _⟩ := Program.of_run_bind h
    have hfirst := run_insertInheritance hinsert
    have hlast := run_deleteInheritance h
    have hroles : ∀ r' ∈ db₂.roles.rows, r' ∈ db.roles.rows ∨
        r'.id = entity.id ∧ r'.permissions = entity.permissions := by
      intro r' hr'
      rcases run_updateRoleRow hupdate with rfl | rfl
      · rw [hfirst] at hr'
        exact .inl hr'
      · rw [hfirst] at hr'
        exact mem_updateRoleIn hrow hr'
    have hmiddle : db₂.inheritance = db₁.inheritance ∧ db₂.userRoles = db₁.userRoles := by
      rcases run_updateRoleRow hupdate with rfl | rfl
      · exact ⟨rfl, rfl⟩
      · exact ⟨rfl, rfl⟩
    refine ⟨?_, ?_, ?_⟩
    · rw [hlast]
      exact hroles
    · intro e he
      rw [hlast] at he
      have he := (List.mem_filter.mp he).1
      rw [hmiddle.1, hfirst] at he
      rcases List.mem_append.mp he with hold | hnew
      · exact .inl hold
      · obtain ⟨p, hp, rfl⟩ := List.mem_map.mp hnew
        exact .inr ⟨rfl, (List.mem_filter.mp hp).1⟩
    · rw [hlast]
      change db₂.userRoles = db.userRoles
      rw [hmiddle.2, hfirst]
      rfl

/-- A saved role grants what its new permissions and its new parents confer. -/
theorem SavedRole.grantsOnly {role : Role} {inheritedRoles : List RoleId}
    {granted : Permission → Prop} (h : SavedRole role inheritedRoles db db')
    (hperm : ∀ p ∈ role.permissions.getD [],
      granted p ∨ ∃ r ∈ db.roles.rows, r.id = role.id ∧ p ∈ r.permissions.getD [])
    (hparents : ∀ q ∈ inheritedRoles, ⟨q, role.id⟩ ∈ db.inheritance ∨
      ∀ p ∈ db.effectivePermissionsForRoleIds [q], granted p) : GrantsOnly granted db db' where
  roles := by
    intro r' hr' p hp
    rcases h.roles r' hr' with hold | ⟨hid, hsaved⟩
    · exact .inr ⟨r', hold, rfl, hp⟩
    · rw [hsaved] at hp
      rcases hperm p hp with hgranted | ⟨r, hr, hrid, hold⟩
      · exact .inl hgranted
      · exact .inr ⟨r, hr, hrid.trans hid.symm, hold⟩
  inheritance := by
    rintro ⟨q, c⟩ he
    rcases h.inheritance _ he with hold | ⟨rfl, hq⟩
    · exact .inl hold
    · exact hparents q hq
  userRoles := fun ur hur => .inl (h.userRoles ▸ hur)

/-- The parents of a new role are named by its DTO. -/
theorem run_parentsToCreate {ids out : List RoleId}
    (h : (parentsToCreate ids).run db = .ok (out, db', jobs)) : db' = db ∧ ∀ q ∈ out, q ∈ ids := by
  unfold parentsToCreate at h
  split at h
  · cases h
    exact ⟨rfl, by simp⟩
  · exact run_findBy h

/-- A creation grants the permissions and the parents of its DTO. -/
theorem grantsOnly_createRole {granted : Permission → Prop} {dto : CreateRole} {newId : RoleId}
    {o : Outcome} (hdirect : ∀ p ∈ dto.permissions.getD [], granted p)
    (hinherited : ∀ p ∈ db.effectivePermissionsForRoleIds (dto.inheritedRoleIds.getD []), granted p)
    (h : (createRole dto newId).run db = .ok (o, db', jobs)) : GrantsOnly granted db db' := by
  simp only [createRole, Program.bind_eq] at h
  obtain ⟨parents, db₁, _, _, hparents, hrest, _⟩ := Program.of_run_bind h
  obtain ⟨_, db₂, _, _, hinsert, hrest', _⟩ := Program.of_run_bind hrest
  obtain ⟨_, db₃, _, _, hinherit, hdone, _⟩ := Program.of_run_bind hrest'
  obtain ⟨rfl, hmem⟩ := run_parentsToCreate hparents
  obtain rfl := run_insertRole hinsert
  have hlast := run_insertInheritance hinherit
  cases hdone
  rw [hlast]
  refine (savedRole_of_insert (dto.role newId) parents db₁).grantsOnly ?_ ?_
  · exact fun p hp => .inl (hdirect p hp)
  · exact fun q hq => .inr fun p hp => hinherited p (confers_of_mem (hmem q hq) hp)

/-- The role that an update loads, with its parents. -/
theorem run_findOneWith {id : RoleId} {out : Role × List RoleId}
    (h : (findOneWith id).run db = .ok (out, db', jobs)) :
    db' = db ∧ db.roles.find id = some out.1 ∧ out.2 = db.inheritedRoles id := by
  simp only [findOneWith, Program.bind_eq, Program.run_select_bind] at h
  cases hrole : db.roles.find id with
  | none =>
    rw [hrole] at h
    cases h
  | some role =>
    rw [hrole] at h
    cases h
    exact ⟨rfl, rfl, rfl⟩

/-- The guard of system default roles changes nothing. -/
theorem run_checkSystemDefault {role : Role} {dto : UpdateRole}
    (h : (checkSystemDefault role dto).run db = .ok ((), db', jobs)) : db' = db := by
  unfold checkSystemDefault at h
  split at h
  · split at h
    · cases h
    · split at h
      · cases h
      · split at h <;> cases h
        rfl
  · cases h
    rfl

/-- The parents that an update saves are those it loaded, or are named by its DTO. -/
theorem run_parentsToSave {id : RoleId} {ids : Option (List RoleId)} {loaded out : List RoleId}
    (h : (parentsToSave id ids loaded).run db = .ok (out, db', jobs)) :
    db' = db ∧ ∀ q ∈ out, q ∈ loaded ∨ q ∈ ids.getD [] := by
  cases ids with
  | none =>
    cases h
    exact ⟨rfl, fun q hq => .inl hq⟩
  | some ids =>
    unfold parentsToSave changeInheritance at h
    simp only at h
    split at h
    · cases h
    · obtain ⟨_, db₁, _, _, hlock, hrest, _⟩ := Program.of_run_bind h
      cases hlock
      simp only [Program.bind_eq, Program.run_select_bind] at hrest
      split at hrest
      · cases hrest
      · obtain ⟨rfl, hmem⟩ := run_findBy hrest
        exact ⟨rfl, fun q hq => .inr (hmem q hq)⟩

/-- An update grants the permissions and the parents of its DTO. -/
theorem grantsOnly_updateRole {granted : Permission → Prop} {id : RoleId} {dto : UpdateRole}
    {o : Outcome} (hdirect : ∀ p ∈ dto.permissions.getD [], granted p)
    (hinherited : ∀ p ∈ db.effectivePermissionsForRoleIds (dto.inheritedRoleIds.getD []), granted p)
    (h : (updateRole id dto).run db = .ok (o, db', jobs)) : GrantsOnly granted db db' := by
  simp only [updateRole, Program.bind_eq] at h
  obtain ⟨⟨role, loaded⟩, db₁, _, _, hfind, hrest, _⟩ := Program.of_run_bind h
  obtain ⟨_, db₂, _, _, hcheck, hrest₂, _⟩ := Program.of_run_bind hrest
  obtain ⟨parents, db₃, _, _, hparents, hrest₃, _⟩ := Program.of_run_bind hrest₂
  rw [Program.run_select_bind] at hrest₃
  obtain ⟨_, db₄, _, _, hsave, hdone, _⟩ := Program.of_run_bind hrest₃
  obtain ⟨rfl, hrole, hloaded⟩ := run_findOneWith hfind
  obtain rfl := run_checkSystemDefault hcheck
  obtain ⟨rfl, hmem⟩ := run_parentsToSave hparents
  have hid : role.id = id := Table.key_of_find hrole
  cases hdone
  refine (run_saveRole hsave).grantsOnly ?_ ?_
  · intro p hp
    change p ∈ (dto.permissions.or role.permissions).getD [] at hp
    cases hdto : dto.permissions with
    | none =>
      rw [hdto] at hp
      exact .inr ⟨role, Table.mem_of_find hrole, rfl, hp⟩
    | some direct =>
      rw [hdto] at hp hdirect
      exact .inl (hdirect p hp)
  · intro q hq
    rcases hmem q hq with hq | hq
    · left
      change q ∈ loaded at hq
      have hloaded : loaded = db₃.inheritedRoles id := hloaded
      rw [hloaded, RoleDb.mem_inheritedRoles] at hq
      change ⟨q, role.id⟩ ∈ db₃.inheritance
      rw [hid]
      exact hq
    · exact .inr fun p hp => hinherited p (confers_of_mem hq hp)

/-- A removal grants nothing. -/
theorem grantsOnly_removeRole {granted : Permission → Prop} {id : RoleId} {o : Outcome}
    (h : (removeRole id).run db = .ok (o, db', jobs)) : GrantsOnly granted db db' := by
  simp only [removeRole, Program.bind_eq] at h
  obtain ⟨⟨role, loaded⟩, db₁, _, _, hfind, hrest, _⟩ := Program.of_run_bind h
  obtain ⟨rfl, -, -⟩ := run_findOneWith hfind
  split at hrest
  · cases hrest
  · rw [Program.run_select_bind] at hrest
    obtain ⟨_, db₂, _, _, hdelete, hdone, _⟩ := Program.of_run_bind hrest
    cases hdone
    rw [deleteRole, Program.run_attempt] at hdelete
    split at hdelete
    · cases hdelete
    · cases hdelete
      refine ⟨?_, ?_, fun ur hur => .inl hur⟩
      · exact fun r' hr' p hp => .inr ⟨r', (List.mem_filter.mp hr').1, rfl, hp⟩
      · exact fun e he => .inl (List.mem_filter.mp he).1

/-- An assignment grants what the assigned roles confer. -/
theorem grantsOnly_replaceUserRoles {granted : Permission → Prop} {targetUserId : UserId}
    {ids : List RoleId} {o : Outcome}
    (hassigned : ∀ p ∈ db.effectivePermissionsForRoleIds ids, granted p)
    (h : (replaceUserRoles targetUserId ids).run db = .ok (o, db', jobs)) :
    GrantsOnly granted db db' := by
  have hold : ∀ r' ∈ db.roles.rows, ∀ p ∈ r'.permissions.getD [],
      granted p ∨ ∃ r ∈ db.roles.rows, r.id = r'.id ∧ p ∈ r.permissions.getD [] :=
    fun r' hr' p hp => .inr ⟨r', hr', rfl, hp⟩
  simp only [replaceUserRoles, Program.bind_eq, Program.run_write_bind] at h
  split at h
  · cases h
    exact ⟨hold, fun e he => .inl he, fun ur hur => .inl (List.mem_filter.mp hur).1⟩
  · obtain ⟨_, db₁, _, _, hassign, hdone, _⟩ := Program.of_run_bind h
    cases hdone
    rw [Program.run_attempt] at hassign
    split at hassign
    · cases hassign
    · cases hassign
      refine ⟨hold, fun e he => .inl he, fun ur hur => ?_⟩
      rcases List.mem_append.mp hur with hkept | hnew
      · exact .inl (List.mem_filter.mp hkept).1
      · obtain ⟨id, hid, rfl⟩ := List.mem_map.mp hnew
        exact .inr fun p hp => hassigned p (confers_of_mem hid hp)

end Runs

/-- **Step lemma:** a request grants only what its actor may do. -/
theorem grantsOnly_serve (db : RoleDb) (request : Request) :
    GrantsOnly (fun p => ∃ userId, request.actor.userId = some userId ∧
      p ∈ db.effectivePermissions userId) db (request.serve db) := by
  have hsame : GrantsOnly (fun p => ∃ userId, request.actor.userId = some userId ∧
      p ∈ db.effectivePermissions userId) db db :=
    ⟨fun r' hr' p hp => .inr ⟨r', hr', rfl, hp⟩, fun e he => .inl he, fun ur hur => .inl hur⟩
  unfold Request.serve
  cases hrun : request.execute.run db with
  | error e => exact hsame
  | ok out =>
    obtain ⟨o, db', jobs⟩ := out
    cases request with
    | create actor dto newId =>
      obtain ⟨hdirect, hinherited, more, hrest⟩ := run_checked hrun
      exact grantsOnly_createRole hdirect hinherited hrest
    | update actor id dto =>
      obtain ⟨hdirect, hinherited, more, hrest⟩ := run_checked hrun
      exact grantsOnly_updateRole hdirect hinherited hrest
    | remove actor id => exact grantsOnly_removeRole hrun
    | assignRolesToUser actor targetUserId ids =>
      simp only [Request.execute, assignRolesToUser, Program.bind_eq] at hrun
      obtain ⟨granted, db₁, _, _, hgranted, hrest, _⟩ := Program.of_run_bind hrun
      obtain ⟨_, db₂, _, _, hassert, hassign, _⟩ := Program.of_run_bind hrest
      obtain ⟨rfl, rfl⟩ := run_getEffectivePermissions hgranted
      obtain ⟨rfl, hholds⟩ := run_assertCanGrant hassert
      exact grantsOnly_replaceUserRoles hholds hassign

/-- **Run lemma:** what a user may do after some requests the user could do before, or
one of the actors could. -/
theorem effectivePermissions_serveAll (db : RoleDb) (requests : List Request) (userId : UserId)
    (p : Permission) (hp : p ∈ (Request.serveAll db requests).effectivePermissions userId) :
    p ∈ db.effectivePermissions userId ∨ ActorsHold db requests p := by
  induction requests generalizing db userId with
  | nil => exact .inl hp
  | cons request requests ih =>
    have hstep := grantsOnly_serve db request
    have hhead : ∀ u, p ∈ (request.serve db).effectivePermissions u →
        p ∈ db.effectivePermissions u ∨ ActorsHold db (request :: requests) p := by
      intro u hu
      rcases hstep.effectivePermissions hu with ⟨a, ha, hold⟩ | hold
      · exact .inr ⟨request, List.mem_cons_self, a, ha, hold⟩
      · exact .inl hold
    rcases ih (request.serve db) userId hp with hmid | ⟨later, hlater, a, ha, hmid⟩
    · exact hhead userId hmid
    · rcases hhead a hmid with hold | hold
      · exact .inr ⟨later, List.mem_cons_of_mem _ hlater, a, ha, hold⟩
      · exact .inr hold

/-- **No vertical privilege escalation:** whatever requests are served, a user ends up with
permissions that the user had, or that an actor had at the start; and from any moment on,
the actors together gain no permission. -/
theorem no_privilege_escalation (db : RoleDb) (requests : List Request) :
    (∀ userId, ∀ p ∈ (Request.serveAll db requests).effectivePermissions userId,
      p ∈ db.effectivePermissions userId ∨ ActorsHold db requests p) ∧
    ∀ before after, requests = before ++ after → ∀ p,
      ActorsHold (Request.serveAll db requests) requests p →
      ActorsHold (Request.serveAll db before) requests p := by
  refine ⟨fun userId p hp => effectivePermissions_serveAll db requests userId p hp, ?_⟩
  rintro before after rfl p ⟨request, hrequest, a, ha, hp⟩
  rw [Request.serveAll, List.foldl_append] at hp
  rcases effectivePermissions_serveAll _ after a p hp with hold | ⟨r, hr, b, hb, hold⟩
  · exact ⟨request, hrequest, a, ha, hold⟩
  · exact ⟨r, List.mem_append_right _ hr, b, hb, hold⟩

end Odiseo.Roles
