import Odiseo.Roles.Service

/-!
# Users whose permissions a change of a role reaches

An update or a removal of a role changes the row of the role and the edges to its parents. A user
who holds neither the role nor a descendant of it has the same permissions afterwards, whatever the
shape of the inheritance graph.
-/

namespace Odiseo.Roles

open Database

/-- The permissions of a user are different in the two databases. -/
def PermissionsDiffer (db db' : RoleDb) (userId : UserId) : Prop :=
  ∃ p, ¬(p ∈ db.effectivePermissions userId ↔ p ∈ db'.effectivePermissions userId)

/-- The call revokes exactly the users that depend on the role before it writes, and all users
whose permissions it changes are among them. -/
def InvalidatesHolders (call : RoleTx Outcome) (id : RoleId) (db : RoleDb) : Prop :=
  ∀ out db' jobs, call.run db = .ok (out, db', jobs) →
    out.revoked = db.dependentRoleHolderIds id ∧
      ∀ userId, PermissionsDiffer db db' userId → userId ∈ out.revoked

/-- Only the row of a role and the edges to its parents are different. -/
structure ChangedAt (id : RoleId) (db db' : RoleDb) : Prop where
  roles : ∀ r : Role, r.id ≠ id → (r ∈ db'.roles.rows ↔ r ∈ db.roles.rows)
  edges : ∀ c p, c ≠ id → (⟨p, c⟩ ∈ db'.inheritance ↔ ⟨p, c⟩ ∈ db.inheritance)
  assigned : db'.userRoles = db.userRoles

variable {id : RoleId} {db db' : RoleDb}

/-- Nothing is different. -/
theorem ChangedAt.refl (id : RoleId) (db : RoleDb) : ChangedAt id db db :=
  ⟨fun _ _ => Iff.rfl, fun _ _ _ => Iff.rfl, rfl⟩

/-- Changes at one role add up. -/
theorem ChangedAt.trans {db'' : RoleDb} (h : ChangedAt id db db') (h' : ChangedAt id db' db'') :
    ChangedAt id db db'' where
  roles := fun r hr => (h'.roles r hr).trans (h.roles r hr)
  edges := fun c p hc => (h'.edges c p hc).trans (h.edges c p hc)
  assigned := h'.assigned.trans h.assigned

/-- The descendants of a role are the roles that lead to it. -/
theorem leads_childEdges {a b : RoleId} :
    Graph.Leads db.childEdges a b ↔ Graph.Leads db.parentEdges b a := by
  have hedge : Graph.Edge db.childEdges = Function.swap (Graph.Edge db.parentEdges) := by
    funext p c
    refine propext ?_
    change Graph.Edge db.childEdges p c ↔ Graph.Edge db.parentEdges c p
    rw [RoleDb.edge_parentEdges]
    simp only [Graph.Edge, RoleDb.childEdges, List.mem_map, Prod.mk.injEq]
    constructor
    · rintro ⟨e, he, rfl, rfl⟩
      exact he
    · exact fun h => ⟨⟨p, c⟩, h, rfl, rfl⟩
  unfold Graph.Leads
  rw [hedge]
  exact Relation.reflTransGen_swap

/-- The users that depend on a role hold a role that leads to it. -/
theorem mem_dependentRoleHolderIds {userId : UserId} :
    userId ∈ db.dependentRoleHolderIds id ↔
      ∃ s ∈ db.assignedRoleIds userId, Graph.Leads db.parentEdges s id := by
  unfold RoleDb.dependentRoleHolderIds
  rw [List.mem_eraseDups, List.mem_map]
  constructor
  · rintro ⟨ur, hur, rfl⟩
    obtain ⟨hmem, hclosure⟩ := List.mem_filter.mp hur
    obtain ⟨s, hs, hlead⟩ := Graph.mem_closure.mp (of_decide_eq_true hclosure)
    rw [List.mem_singleton.mp hs] at hlead
    exact ⟨ur.roleId, RoleDb.mem_assignedRoleIds.mpr hmem, leads_childEdges.mp hlead⟩
  · rintro ⟨s, hs, hlead⟩
    refine ⟨⟨userId, s⟩, List.mem_filter.mpr ⟨RoleDb.mem_assignedRoleIds.mp hs, ?_⟩, rfl⟩
    exact decide_eq_true (Graph.mem_closure.mpr
      ⟨id, List.mem_singleton.mpr rfl, leads_childEdges.mpr hlead⟩)

/-- A role that does not lead to the changed one leads where it led before. -/
theorem ChangedAt.leads_iff (h : ChangedAt id db db') {s x : RoleId}
    (hs : ¬Graph.Leads db.parentEdges s id) :
    Graph.Leads db'.parentEdges s x ↔ Graph.Leads db.parentEdges s x := by
  have hedge : ∀ c p, c ≠ id →
      (Graph.Edge db'.parentEdges c p ↔ Graph.Edge db.parentEdges c p) := by
    intro c p hc
    rw [RoleDb.edge_parentEdges, RoleDb.edge_parentEdges]
    exact h.edges c p hc
  have hforth : ∀ {y}, Graph.Leads db'.parentEdges s y → Graph.Leads db.parentEdges s y := by
    refine fun hlead => Graph.Leads.of_attached (fun c p hnew => ?_) hs hlead
    by_cases hc : c = id
    · exact Or.inr hc
    · exact Or.inl ((hedge c p hc).mp hnew)
  refine ⟨hforth, fun hlead => Graph.Leads.of_attached (n := id) (fun c p hold => ?_) ?_ hlead⟩
  · by_cases hc : c = id
    · exact Or.inr hc
    · exact Or.inl ((hedge c p hc).mpr hold)
  · exact fun hlead' => hs (hforth hlead')

/-- A permission is conferred by the same users' roles as long as none of them leads to the changed
role. -/
theorem ChangedAt.mem_effectivePermissions_iff (h : ChangedAt id db db') {userId : UserId}
    (hnot : userId ∉ db.dependentRoleHolderIds id) (p : Permission) :
    p ∈ db'.effectivePermissions userId ↔ p ∈ db.effectivePermissions userId := by
  have hassigned : db'.assignedRoleIds userId = db.assignedRoleIds userId := by
    unfold RoleDb.assignedRoleIds
    rw [h.assigned]
  have hleads : ∀ s ∈ db.assignedRoleIds userId, ¬Graph.Leads db.parentEdges s id :=
    fun s hs hlead => hnot (mem_dependentRoleHolderIds.mpr ⟨s, hs, hlead⟩)
  change p ∈ db'.effectivePermissionsForRoleIds (db'.assignedRoleIds userId) ↔
    p ∈ db.effectivePermissionsForRoleIds (db.assignedRoleIds userId)
  rw [hassigned, RoleDb.mem_effectivePermissionsForRoleIds,
    RoleDb.mem_effectivePermissionsForRoleIds]
  constructor
  · rintro ⟨s, hs, r, hr, hlead, hp⟩
    have hlead' := (h.leads_iff (hleads s hs)).mp hlead
    have hne : r.id ≠ id := fun heq => hleads s hs (heq ▸ hlead')
    exact ⟨s, hs, r, (h.roles r hne).mp hr, hlead', hp⟩
  · rintro ⟨s, hs, r, hr, hlead, hp⟩
    have hne : r.id ≠ id := fun heq => hleads s hs (heq ▸ hlead)
    exact ⟨s, hs, r, (h.roles r hne).mpr hr, (h.leads_iff (hleads s hs)).mpr hlead, hp⟩

/-- **Every user whose permissions differ depends on the changed role.** -/
theorem ChangedAt.mem_of_permissionsDiffer (h : ChangedAt id db db') {userId : UserId}
    (hdiffer : PermissionsDiffer db db' userId) : userId ∈ db.dependentRoleHolderIds id := by
  obtain ⟨p, hp⟩ := hdiffer
  by_contra hnot
  exact hp (h.mem_effectivePermissions_iff hnot p).symm

section Statements

/-- A statement that changes the database at a role only. -/
def WritesAt (id : RoleId) (v : RoleDb) (_ : List Row) (change : RoleDb → RoleDb) : Prop :=
  ChangedAt id v (change v)

/-- A statement that changes nothing. -/
theorem writesAt_id (id : RoleId) (v : RoleDb) (locks : List Row) :
    WritesAt id v locks fun db => db :=
  ChangedAt.refl id v

/-- A row of another role survives an update of a role. -/
theorem mem_modify_iff {t : Table RoleId Role} {f : Role → Role} (hf : ∀ r, key (f r) = key r)
    {r : Role} (hr : r.id ≠ id) : r ∈ (t.modify id f hf).rows ↔ r ∈ t.rows := by
  unfold Table.modify
  constructor
  · intro hmem
    obtain ⟨r₀, hr₀, rfl⟩ := List.mem_map.mp hmem
    split at hr
    · rename_i hkey
      exact absurd ((hf r₀).trans hkey) hr
    · rename_i hkey
      rwa [if_neg hkey]
  · intro hmem
    exact List.mem_map.mpr ⟨r, hmem, if_neg hr⟩

/-- New parents of a role are edges from the role. -/
theorem writesAt_insertInheritance (parents : List RoleId) :
    (insertInheritance id parents).Writes (WritesAt id) := by
  unfold insertInheritance
  split
  · trivial
  · refine Program.writes_attempt (fun v => writesAt_id id v _) fun v _ => ?_
    refine ⟨fun _ _ => Iff.rfl, fun c p hc => ?_, rfl⟩
    unfold inheritIn
    rw [List.mem_append]
    refine ⟨fun he => he.resolve_right fun hnew => ?_, Or.inl⟩
    obtain ⟨_, _, heq⟩ := List.mem_map.mp hnew
    exact hc (congrArg RoleInheritance.childRoleId heq).symm

/-- Parents that a role loses are edges from the role. -/
theorem writesAt_deleteInheritance (parents : List RoleId) :
    (deleteInheritance id parents).Writes (WritesAt id) := by
  unfold deleteInheritance
  split
  · trivial
  · refine fun v => ⟨⟨fun _ _ => Iff.rfl, fun c p hc => ?_, rfl⟩, trivial⟩
    unfold disinheritIn
    rw [List.mem_filter]
    refine ⟨And.left, fun he => ⟨he, decide_eq_true fun hgone => ?_⟩⟩
    obtain ⟨_, _, heq⟩ := List.mem_map.mp hgone
    exact hc (congrArg RoleInheritance.childRoleId heq).symm

/-- The save of a role changes the role and its parents. -/
theorem writesAt_saveRole {entity : Role} (inheritedRoles : List RoleId) :
    (saveRole entity inheritedRoles).Writes (WritesAt entity.id) := by
  refine fun v => ⟨writesAt_id _ v _, ?_⟩
  dsimp only [Program.bind]
  split
  · refine Program.Writes.bind ?_ fun _ => writesAt_insertInheritance inheritedRoles
    refine Program.writes_attempt (fun v => writesAt_id _ v _) fun v _ => ?_
    refine ⟨fun r hr => ?_, fun _ _ _ => Iff.rfl, rfl⟩
    unfold insertRoleIn Table.insert
    split
    · exact Iff.rfl
    · rw [List.mem_append, List.mem_singleton]
      refine ⟨fun hmem => hmem.resolve_right ?_, Or.inl⟩
      rintro rfl
      exact hr rfl
  · rename_i row parents _
    refine (writesAt_insertInheritance _).bind fun _ => ?_
    refine Program.Writes.bind ?_ fun _ => writesAt_deleteInheritance _
    unfold updateRoleRow
    split
    · trivial
    · refine Program.writes_attempt (fun v => writesAt_id _ v _) fun v _ => ?_
      exact ⟨fun r hr => mem_modify_iff (f := saveRoleColumns entity row) (fun _ => rfl) hr,
        fun _ _ _ => Iff.rfl, rfl⟩

/-- A role that nobody refers to takes only itself and its own parents along. -/
theorem writesAt_deleteRole : (deleteRole id).Writes (WritesAt id) := by
  refine Program.writes_attempt (fun v => writesAt_id id v _) fun v _ => ?_
  refine ⟨fun r hr => ?_, fun c p hc => ?_, rfl⟩
  · unfold deleteRoleIn Table.delete
    rw [List.mem_filter]
    exact ⟨And.left, fun hmem => ⟨hmem, by simpa using hr⟩⟩
  · unfold deleteRoleIn
    rw [List.mem_filter]
    exact ⟨And.left, fun hmem => ⟨hmem, decide_eq_true hc⟩⟩

/-- What a run that writes at a role changes. -/
theorem changedAt_of_run {α : Type} {p : RoleTx α} (hp : p.Writes (WritesAt id)) {a : α}
    {jobs : List UserId} (h : p.run db = .ok (a, db', jobs)) : ChangedAt id db db' := by
  have hkeeps : p.Writes fun v _ change => ChangedAt id db v → ChangedAt id db (change v) :=
    hp.mono fun _ _ _ hchange hv => hv.trans hchange
  exact hkeeps.of_run (ChangedAt.refl id db) h

/-- A statement that only reads. -/
def ReadsOnly (_ : RoleDb) (_ : List Row) (change : RoleDb → RoleDb) : Prop := ∀ v, change v = v

/-- A query only reads. -/
theorem readsOnly_select {α : Type} (f : RoleDb → α) :
    (Program.select f : RoleTx α).Writes ReadsOnly :=
  Program.writes_select (fun _ _ => rfl) f

/-- What only reads leaves the database as it is. -/
theorem eq_of_run {α : Type} {p : RoleTx α} (hp : p.Writes ReadsOnly) {a : α}
    {jobs : List UserId} (h : p.run db = .ok (a, db', jobs)) : db' = db := by
  have hkeeps : p.Writes fun _ _ change => ∀ v, v = db → change v = db :=
    hp.mono fun _ _ change hchange v hv => (hchange v).trans hv
  exact (hkeeps.mono fun v _ _ hchange => hchange v).of_run (P := fun v => v = db) rfl h

/-- Loading a role only reads. -/
theorem readsOnly_findOneWith (id : RoleId) : (findOneWith id).Writes ReadsOnly := by
  refine (readsOnly_select _).bind fun role => ?_
  cases role with
  | none => trivial
  | some found => trivial

/-- A role that is loaded has the identifier that it was asked for by. -/
theorem id_of_run_findOneWith {found : Role × List RoleId} {jobs : List UserId}
    (h : (findOneWith id).run db = .ok (found, db', jobs)) : found.1.id = id := by
  unfold findOneWith at h
  simp only [Program.bind_eq, Program.run_select_bind] at h
  cases hrole : db.roles.find id with
  | none =>
    rw [hrole] at h
    cases h
  | some role =>
    rw [hrole] at h
    cases h
    exact Table.key_of_find (k := id) hrole

/-- The check of a system default role only reads. -/
theorem readsOnly_checkSystemDefault (role : Role) (dto : UpdateRole) :
    (checkSystemDefault role dto).Writes ReadsOnly := by
  unfold checkSystemDefault
  split
  · split
    · trivial
    · split
      · trivial
      · split <;> trivial
  · trivial

/-- The new parents are looked up, under a lock. -/
theorem readsOnly_parentsToSave (inheritedRoleIds : Option (List RoleId)) (loaded : List RoleId) :
    (parentsToSave id inheritedRoleIds loaded).Writes ReadsOnly := by
  unfold parentsToSave
  split
  · trivial
  · unfold changeInheritance
    split
    · trivial
    · have hlock : lockRoleInheritance.Writes ReadsOnly := fun v => ⟨fun _ => rfl, trivial⟩
      refine hlock.bind fun _ => (readsOnly_select _).bind fun inherits => ?_
      split
      · trivial
      · exact readsOnly_select _

/-- What a role would confer is looked up. -/
theorem readsOnly_grantedPermissions (directPermissions : Option (List Permission))
    (inheritedRoleIds : Option (List RoleId)) :
    (grantedPermissions directPermissions inheritedRoleIds).Writes ReadsOnly := by
  refine Program.Writes.bind ?_ fun _ => trivial
  unfold getEffectivePermissionsForRoleIds
  split
  · trivial
  · exact readsOnly_select _

/-- The check of the acting user only reads. -/
theorem readsOnly_assertCanGrant (actor : Actor) (permissions : List Permission) :
    (assertCanGrant actor permissions).Writes ReadsOnly := by
  unfold assertCanGrant
  split
  · trivial
  · split
    · refine (readsOnly_select _).bind fun _ => ?_
      dsimp only
      split <;> trivial
    · trivial

end Statements

section Calls

/-- Revoking the users that depended on the role at the start is enough for a call that writes at
the role only. -/
theorem revokes_dependents (hchanged : ChangedAt id db db') {revoked : List UserId}
    (hrevoked : revoked = db.dependentRoleHolderIds id) :
    revoked = db.dependentRoleHolderIds id ∧
      ∀ userId, PermissionsDiffer db db' userId → userId ∈ revoked := by
  refine ⟨hrevoked, fun userId hdiffer => ?_⟩
  rw [hrevoked]
  exact hchanged.mem_of_permissionsDiffer hdiffer

/-- An update reads the holders before it writes. -/
theorem invalidatesHolders_updateRole (id : RoleId) (dto : UpdateRole) (db : RoleDb) :
    InvalidatesHolders (updateRole id dto) id db := by
  intro out db' jobs h
  unfold updateRole at h
  obtain ⟨found, db₁, _, _, hfound, h₁, -⟩ := Program.of_run_bind h
  have hid := id_of_run_findOneWith hfound
  obtain rfl := eq_of_run (readsOnly_findOneWith id) hfound
  obtain ⟨_, db₂, _, _, hcheck, h₂, -⟩ := Program.of_run_bind h₁
  obtain rfl := eq_of_run (readsOnly_checkSystemDefault _ dto) hcheck
  obtain ⟨parents, db₃, _, _, hparents, h₃, -⟩ := Program.of_run_bind h₂
  obtain rfl := eq_of_run (readsOnly_parentsToSave _ _) hparents
  simp only [Program.bind_eq, Program.run_select_bind] at h₃
  obtain ⟨_, db₄, _, _, hsave, h₄, -⟩ := Program.of_run_bind h₃
  cases h₄
  have hentity : (dto.assign found.1).id = id := hid
  have hwrites : (saveRole (dto.assign found.1) parents).Writes (WritesAt id) := by
    have hsaved := @writesAt_saveRole (dto.assign found.1) parents
    rwa [hentity] at hsaved
  exact revokes_dependents (changedAt_of_run hwrites hsave) rfl

/-- A removal reads the holders before it deletes. -/
theorem invalidatesHolders_removeRole (id : RoleId) (db : RoleDb) :
    InvalidatesHolders (removeRole id) id db := by
  intro out db' jobs h
  unfold removeRole at h
  obtain ⟨found, db₁, _, _, hfound, h₁, -⟩ := Program.of_run_bind h
  obtain rfl := eq_of_run (readsOnly_findOneWith id) hfound
  split at h₁
  · cases h₁
  · simp only [Program.bind_eq, Program.run_select_bind] at h₁
    obtain ⟨_, db₂, _, _, hdelete, h₂, -⟩ := Program.of_run_bind h₁
    cases h₂
    exact revokes_dependents (changedAt_of_run writesAt_deleteRole hdelete) rfl

/-- The checks before the transaction of an update leave the holders to it. -/
theorem invalidatesHolders_update (id : RoleId) (dto : UpdateRole) (actor : Actor) (db : RoleDb) :
    InvalidatesHolders (update id dto actor) id db := by
  intro out db' jobs h
  unfold update at h
  obtain ⟨granted, db₁, _, _, hgranted, h₁, -⟩ := Program.of_run_bind h
  obtain rfl := eq_of_run (readsOnly_grantedPermissions _ _) hgranted
  obtain ⟨_, db₂, _, _, hassert, h₂, -⟩ := Program.of_run_bind h₁
  obtain rfl := eq_of_run (readsOnly_assertCanGrant actor granted) hassert
  exact invalidatesHolders_updateRole id dto _ out db' _ h₂

/-- **No user keeps permissions that an update or a removal has changed:** over every graph of
roles, the users that are revoked are those that depended on the role before, and every user whose
permissions differ is one of them. -/
theorem invalidatesHolders (id : RoleId) (dto : UpdateRole) (actor : Actor) (db : RoleDb) :
    InvalidatesHolders (update id dto actor) id db ∧ InvalidatesHolders (remove id) id db :=
  ⟨invalidatesHolders_update id dto actor db, invalidatesHolders_removeRole id db⟩

end Calls

end Odiseo.Roles
