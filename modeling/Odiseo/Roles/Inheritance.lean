import Odiseo.Database.Protocol
import Odiseo.Roles.Service

/-!
# Acyclic inheritance, unless a stale parent is saved

Creations, updates and removals of roles run concurrently. An update that names
parents checks for cycles under an advisory lock, and a new role has no children, so
neither closes a cycle. An update that names no parents takes no lock, but `save`
makes the stored parents those that were loaded: a parent that another update has
removed in between comes back unchecked. Where that does not happen, the inheritance
graph stays acyclic in every interleaving.
-/

namespace Odiseo.Roles

open Database Database.Protocol

/-- A call whose transaction changes the role tables. -/
inductive Mutation
  /-- The transaction of `create`, with the identifier that the database draws. -/
  | create (dto : CreateRole) (newId : RoleId)
  /-- The transaction of `update`. -/
  | update (id : RoleId) (dto : UpdateRole)
  /-- The transaction of `remove`. -/
  | remove (id : RoleId)
  /-- The transaction of `assignRolesToUser`. -/
  | assign (targetUserId : UserId) (roleIds : List RoleId)
  deriving DecidableEq, Repr

namespace Mutation

/-- The transaction of a call. -/
def transaction : Mutation → RoleTx Outcome
  | .create dto newId => createRole dto newId
  | .update id dto => updateRole id dto
  | .remove id => removeRole id
  | .assign targetUserId roleIds => replaceUserRoles targetUserId roleIds

/-- The roles that the caller names. -/
def names : Mutation → List RoleId
  | .create dto _ => dto.inheritedRoleIds.getD []
  | .update id dto => id :: dto.inheritedRoleIds.getD []
  | .remove id => [id]
  | .assign _ roleIds => roleIds

/-- The identifier that the database draws for a new role. -/
def newId : Mutation → Option RoleId
  | .create _ newId => some newId
  | _ => none

end Mutation

/-- The operations on roles as one machine; it hands on the users whose tokens are revoked. -/
def roleService : Machine Mutation RoleDb Row UserId RoleError Outcome where
  program := Mutation.transaction
  dispatched := Outcome.revoked

/-- A state of a run of the role service. -/
abbrev RoleState := System Mutation RoleDb Row UserId RoleError Outcome

/-- What a transaction of the role service has done so far. -/
abbrev RoleCtx := Context Mutation RoleDb Row UserId

/-- What the committed transactions of the role service have left behind. -/
abbrev RoleSnapshot := Snapshot Mutation RoleDb UserId Outcome

/-- The identifier occurs as a role or in the inheritance of roles. -/
def RoleDb.Mentions (db : RoleDb) (id : RoleId) : Prop :=
  (∃ r ∈ db.roles.rows, r.id = id) ∨
    ∃ e ∈ db.inheritance, e.parentRoleId = id ∨ e.childRoleId = id

/-- Identifiers are drawn at random: the one that the database draws for a new role occurs
nowhere when the creation starts, and nobody names it while the creation is open. -/
def DrawsFreshIds (s : RoleState) (e : Event Mutation) : Prop :=
  ∀ call, e = .start call →
    (∀ n, call.newId = some n → ¬s.db.Mentions n ∧ n ∉ call.names ∧
      ∀ t ∈ s.active, n ∉ t.call.names ∧ t.call.newId ≠ some n) ∧
    ∀ t ∈ s.active, ∀ n, t.call.newId = some n → n ∉ call.names

/-- An update without `inheritedRoleIds` writes only rows of `role_inheritance` that are
stored: no parent that it has loaded is missing when it saves the role. -/
def NoStaleParent (s : RoleState) (e : Event Mutation) : Prop :=
  ∀ t ∈ s.active, e = .exec t.id → ∀ id dto, t.call = .update id dto →
    dto.inheritedRoleIds = none → ∀ edge,
    .inheritance edge ∈ t.program.wants (t.view s.toSnapshot) →
    edge ∈ (t.view s.toSnapshot).inheritance

/-- The committed inheritance graph is acyclic in every state of the runs under a
condition that start from an acyclic graph. -/
def InheritanceAcyclic (cond : RoleState → Event Mutation → Prop) : Prop :=
  ∀ (db : RoleDb) (s : RoleState), db.Acyclic → roleService.Reaches cond (System.idle db) s →
    s.db.Acyclic

/-- An edge that a call may add to the graph: a creation gives parents to the new role, an
update with `inheritedRoleIds` gives them to the role that it changes. -/
def Mutation.MayAdd (call : Mutation) (e : RoleInheritance) : Prop :=
  e.parentRoleId ∈ call.names ∧
    (call.newId = some e.childRoleId ∨
      ∃ dto ids, call = .update e.childRoleId dto ∧ dto.inheritedRoleIds = some ids ∧
        e.parentRoleId ∈ ids)

/-- The changes that the transaction of a call may make: it adds only edges that it may
add, and only a role that it names or creates. -/
def Mutation.Within (call : Mutation) (change : RoleDb → RoleDb) : Prop :=
  ∀ db, (∀ e ∈ (change db).inheritance, e ∈ db.inheritance ∨ call.MayAdd e) ∧
    ∀ r ∈ (change db).roles.rows, (∃ r₀ ∈ db.roles.rows, r₀.id = r.id) ∨
      r.id ∈ call.names ∨ call.newId = some r.id

/-- One change after another. -/
theorem Mutation.Within.comp {call : Mutation} (f g : RoleDb → RoleDb) (hf : call.Within f)
    (hg : call.Within g) : call.Within fun db => g (f db) := by
  intro db
  refine ⟨fun e he => ?_, fun r hr => ?_⟩
  · rcases (hg (f db)).1 e he with hmid | hnew
    · exact (hf db).1 e hmid
    · exact .inr hnew
  · rcases (hg (f db)).2 r hr with ⟨r₁, hr₁, hid₁⟩ | hnew
    · rcases (hf db).2 r₁ hr₁ with ⟨r₀, hr₀, hid₀⟩ | hnew
      · exact .inl ⟨r₀, hr₀, hid₀.trans hid₁⟩
      · exact .inr (hid₁ ▸ hnew)
    · exact .inr hnew

/-- A statement of the transaction of a call is judged by the locks that it takes: an
update without `inheritedRoleIds` locks only rows of `role_inheritance` that it sees. -/
def Mutation.Writes (call : Mutation) (v : RoleDb) (locks : List Row)
    (change : RoleDb → RoleDb) : Prop :=
  (∀ id dto, call = .update id dto → dto.inheritedRoleIds = none →
    ∀ edge, .inheritance edge ∈ locks → edge ∈ v.inheritance) → call.Within change

section Statements

variable {call : Mutation}

/-- A statement that changes nothing. -/
theorem writes_nothing (v : RoleDb) (locks : List Row) : call.Writes v locks fun db => db :=
  fun _ _ => ⟨fun _ he => .inl he, fun r hr => .inl ⟨r, hr, rfl⟩⟩

/-- A statement that adds neither edges nor roles. -/
theorem writes_of_subset {v : RoleDb} {locks : List Row} {change : RoleDb → RoleDb}
    (hedges : ∀ db, (change db).inheritance ⊆ db.inheritance)
    (hroles : ∀ db, ∀ r ∈ (change db).roles.rows, ∃ r₀ ∈ db.roles.rows, r₀.id = r.id) :
    call.Writes v locks change :=
  fun _ db => ⟨fun _ he => .inl (hedges db he), fun r hr => .inl (hroles db r hr)⟩

/-- The insertion of a role that the call names or creates. -/
theorem writes_insertRole {role : Role}
    (hid : role.id ∈ call.names ∨ call.newId = some role.id) :
    (insertRole role).Writes call.Writes := by
  refine Program.writes_attempt (fun v => writes_nothing v _) ?_
  refine fun v _ _ db => ⟨fun e he => .inl he, fun r hr => ?_⟩
  simp only [insertRoleIn, Table.insert] at hr
  split at hr
  · exact .inl ⟨r, hr, rfl⟩
  · rcases List.mem_append.mp hr with hold | hnew
    · exact .inl ⟨r, hold, rfl⟩
    · obtain rfl := List.mem_singleton.mp hnew
      exact .inr hid

/-- The insertion of parents. A call that inserts a row which is there already is refused,
so it may add the edges when it may add those that are missing. -/
theorem writes_insertInheritance {child : RoleId} {parents : List RoleId}
    (hadd : ∀ p ∈ parents, call.MayAdd ⟨p, child⟩ ∨
      ∃ id dto, call = .update id dto ∧ dto.inheritedRoleIds = none) :
    (insertInheritance child parents).Writes call.Writes := by
  unfold insertInheritance
  split
  · trivial
  · refine Program.writes_attempt (fun v => writes_nothing v _) ?_
    intro v haccepted hstored db
    refine ⟨fun e he => ?_, fun r hr => .inl ⟨r, hr, rfl⟩⟩
    rcases List.mem_append.mp he with hold | hnew
    · exact .inl hold
    · obtain ⟨p, hp, rfl⟩ := List.mem_map.mp hnew
      rcases hadd p hp with hmay | ⟨id, dto, hcall, hnone⟩
      · exact .inr hmay
      · -- the row is stored already, so the statement is refused
        have hrow : (⟨p, child⟩ : RoleInheritance) ∈ inheritanceRows child parents :=
          List.mem_map_of_mem hp
        have hin := hstored id dto hcall hnone _ (List.mem_map_of_mem hrow)
        have hrefused : inheritanceRefused child parents v = true :=
          List.any_eq_true.mpr ⟨_, hrow, by simp [hin]⟩
        rw [hrefused] at haccepted
        cases haccepted

/-- The update of the row of a role. -/
theorem writes_updateRoleRow (entity reread : Role) :
    (updateRoleRow entity reread).Writes call.Writes := by
  unfold updateRoleRow
  split
  · trivial
  · refine Program.writes_attempt (fun v => writes_nothing v _) fun v _ => ?_
    refine writes_of_subset (fun db => fun _ he => he) fun db r hr => ?_
    obtain ⟨r₀, hr₀, rfl⟩ := List.mem_map.mp hr
    refine ⟨r₀, hr₀, ?_⟩
    split
    · rfl
    · rfl

/-- The deletion of parents. -/
theorem writes_deleteInheritance (child : RoleId) (parents : List RoleId) :
    (deleteInheritance child parents).Writes call.Writes := by
  unfold deleteInheritance
  split
  · trivial
  · refine fun v => ⟨?_, trivial⟩
    exact writes_of_subset (fun db => List.filter_subset_self _) fun db r hr => ⟨r, hr, rfl⟩

/-- The save of a role that the call names, with parents that the call may give it. -/
theorem writes_saveRole {entity : Role} {inheritedRoles : List RoleId}
    (hid : entity.id ∈ call.names) (hadd : ∀ p ∈ inheritedRoles, call.MayAdd ⟨p, entity.id⟩ ∨
      ∃ id dto, call = .update id dto ∧ dto.inheritedRoleIds = none) :
    (saveRole entity inheritedRoles).Writes call.Writes := by
  refine fun v => ⟨writes_nothing v _, ?_⟩
  dsimp only [Program.bind]
  split
  · exact (writes_insertRole (.inl hid)).bind fun _ => writes_insertInheritance hadd
  · rename_i row parents _
    refine Program.Writes.bind ?_ fun _ => ?_
    · exact writes_insertInheritance fun p hp => hadd p (List.mem_filter.mp hp).1
    · exact (writes_updateRoleRow entity row).bind fun _ => writes_deleteInheritance _ _

end Statements

/-- The protocol of the role tables. Under the advisory lock anything may be added; without
it only edges of a role that is new. Nobody names a role that is created meanwhile. -/
def inheritanceProtocol : Protocol Mutation RoleDb Row UserId Outcome where
  Inv := fun s => s.db.Acyclic
  Guar := fun held s s' => ∃ c, s'.commits = s.commits ++ [c] ∧
    (∀ x, s'.db.Mentions x → s.db.Mentions x ∨ x ∈ c.call.names ∨ c.call.newId = some x) ∧
    (∀ n, c.call.newId = some n → ¬s.db.Mentions n) ∧
    (.roleInheritance ∈ held ∨ ∀ e ∈ s'.db.inheritance, e ∈ s.db.inheritance ∨
      c.call.newId = some e.childRoleId)
  Local := fun t _ s => t.since ≤ s.commits.length ∧
    (∀ n, t.call.newId = some n → ¬s.db.Mentions n ∧ n ∉ t.call.names) ∧
    ∀ c ∈ s.commits.drop t.since, ∀ n, c.call.newId = some n → n ∉ t.call.names
  Pre := fun t locks s => ∀ id dto, t.call = .update id dto → dto.inheritedRoleIds = none →
    ∀ edge, .inheritance edge ∈ locks → edge ∈ (t.view s).inheritance
  PreCommit := fun _ _ _ => True

/-- What is known of a transaction does not depend on its next statement. -/
theorem local_of_extends {t u : RoleCtx} {wants wants' : RoleDb → List Row} {s : RoleSnapshot}
    (hext : u.Extends t) (h : inheritanceProtocol.Local t wants s) :
    inheritanceProtocol.Local u wants' s := by
  obtain ⟨hsince, hfresh, hlater⟩ := h
  refine ⟨hext.since ▸ hsince, ?_, ?_⟩
  · rw [hext.call]
    exact hfresh
  · rw [hext.call, hext.since]
    exact hlater

/-- No edge ends in a role that is not mentioned. -/
theorem no_edge_of_not_mentions {db : RoleDb} {n : RoleId} (h : ¬db.Mentions n) (a : RoleId) :
    ¬Graph.Edge db.parentEdges a n :=
  fun hedge => h (.inr ⟨_, RoleDb.edge_parentEdges.mp hedge, .inl rfl⟩)

/-- **The commit of a call** whose cycle check still holds keeps the graph acyclic. -/
theorem acyclic_of_within {call : Mutation} {change : RoleDb → RoleDb} {db : RoleDb}
    (hwithin : call.Within change) (hacyclic : db.Acyclic)
    (hfresh : ∀ n, call.newId = some n → ¬db.Mentions n ∧ n ∉ call.names)
    (hchecked : ∀ id dto ids, call = .update id dto → dto.inheritedRoleIds = some ids →
      ∀ p ∈ ids, ¬Graph.Leads db.parentEdges p id) : (change db).Acyclic := by
  have hedges : ∀ a b, Graph.Edge (change db).parentEdges a b →
      Graph.Edge db.parentEdges a b ∨ call.MayAdd ⟨b, a⟩ := by
    intro a b hedge
    rcases (hwithin db).1 _ (RoleDb.edge_parentEdges.mp hedge) with hold | hnew
    · exact .inl (RoleDb.edge_parentEdges.mpr hold)
    · exact .inr hnew
  cases call with
  | create dto n =>
    refine hacyclic.attach (n := n) fun a b hedge => (hedges a b hedge).imp_right ?_
    rintro ⟨hb, hnew | ⟨_, _, hcall, _⟩⟩
    · obtain ⟨hunknown, hunnamed⟩ := hfresh n rfl
      obtain rfl : n = a := Option.some.inj hnew
      refine ⟨rfl, fun hlead => hunnamed ?_⟩
      obtain rfl := Graph.eq_of_leads_source (no_edge_of_not_mentions hunknown) hlead
      exact hb
    · cases hcall
  | update id dto =>
    refine hacyclic.attach (n := id) fun a b hedge => (hedges a b hedge).imp_right ?_
    rintro ⟨_, hnew | ⟨dto', ids, hcall, hids, hb⟩⟩
    · cases hnew
    · cases hcall
      exact ⟨rfl, hchecked a dto ids rfl hids b hb⟩
  | remove id =>
    refine hacyclic.mono fun a b hedge => (hedges a b hedge).resolve_right ?_
    rintro ⟨_, hnew | ⟨_, _, hcall, _⟩⟩
    · cases hnew
    · cases hcall
  | assign targetUserId roleIds =>
    refine hacyclic.mono fun a b hedge => (hedges a b hedge).resolve_right ?_
    rintro ⟨_, hnew | ⟨_, _, hcall, _⟩⟩
    · cases hnew
    · cases hcall

/-- A call mentions only roles that it names or creates beside those that are there. -/
theorem mentions_of_within {call : Mutation} {change : RoleDb → RoleDb} {db : RoleDb} {x : RoleId}
    (hwithin : call.Within change) (hx : (change db).Mentions x) :
    db.Mentions x ∨ x ∈ call.names ∨ call.newId = some x := by
  rcases hx with ⟨r, hr, rfl⟩ | ⟨e, he, hx⟩
  · rcases (hwithin db).2 r hr with ⟨r₀, hr₀, hid⟩ | hnew
    · exact .inl (.inl ⟨r₀, hr₀, hid⟩)
    · exact .inr hnew
  · rcases (hwithin db).1 e he with hold | ⟨hparent, hchild⟩
    · exact .inl (.inr ⟨e, hold, hx⟩)
    · rcases hx with rfl | rfl
      · exact .inr (.inl hparent)
      · rcases hchild with hnew | ⟨dto, ids, rfl, _⟩
        · exact .inr (.inr hnew)
        · exact .inr (.inl List.mem_cons_self)

/-- A commit within the protocol. -/
theorem commits_of_within {t : RoleCtx} {a : Outcome} {s : RoleSnapshot}
    (hlog : t.call.Within t.log) (hlocal : inheritanceProtocol.Local t (fun _ => []) s)
    (hlocked : ∀ id dto ids, t.call = .update id dto → dto.inheritedRoleIds = some ids →
      .roleInheritance ∈ t.held)
    (hchecked : ∀ s', inheritanceProtocol.After t.held s s' →
      inheritanceProtocol.Local t (fun _ => []) s' →
      ∀ id dto ids, t.call = .update id dto → dto.inheritedRoleIds = some ids →
        ∀ p ∈ ids, ¬Graph.Leads s'.db.parentEdges p id) :
    inheritanceProtocol.Commits roleService t a s := by
  refine commits_of_after hlocal fun s' hafter hinv hl _ => ⟨?_, ?_⟩
  · exact acyclic_of_within hlog hinv hl.2.1 (hchecked s' hafter hl)
  · refine ⟨_, rfl, fun x hx => mentions_of_within hlog hx, fun n hn => (hl.2.1 n hn).1, ?_⟩
    by_cases hheld : .roleInheritance ∈ t.held
    · exact .inl hheld
    · refine .inr fun e he => ?_
      rcases (hlog s'.db).1 e he with hold | ⟨_, hnew | ⟨dto, ids, hcall, hids, _⟩⟩
      · exact .inl hold
      · exact .inr hnew
      · exact absurd (hlocked _ dto ids hcall hids) hheld

/-- Under the advisory lock, commits of others give ancestors only to roles that they
create. -/
theorem leads_of_after {mine : List Row} (hmine : .roleInheritance ∈ mine)
    {s s' : RoleSnapshot} (h : inheritanceProtocol.After mine s s') :
    ∃ new, s'.commits = s.commits ++ new ∧
      ∀ x y, (∀ c ∈ new, c.call.newId ≠ some x) → Graph.Leads s'.db.parentEdges x y →
        Graph.Leads s.db.parentEdges x y := by
  refine After.of_guar (R := fun a b => ∃ new, b.commits = a.commits ++ new ∧
    ∀ x y, (∀ c ∈ new, c.call.newId ≠ some x) → Graph.Leads b.db.parentEdges x y →
      Graph.Leads a.db.parentEdges x y) ?_ ?_ ?_ h
  · exact fun a => ⟨[], by simp, fun _ _ _ hlead => hlead⟩
  · rintro a b c ⟨new, hnew, hleads⟩ ⟨more, hmore, hleads'⟩
    refine ⟨new ++ more, by rw [hmore, hnew, List.append_assoc], fun x y hx hlead => ?_⟩
    exact hleads x y (fun d hd => hx d (List.mem_append_left _ hd))
      (hleads' x y (fun d hd => hx d (List.mem_append_right _ hd)) hlead)
  · rintro held a b hdisj ⟨c, hcommits, _, hfresh, hlocked | hedges⟩ _
    · exact absurd hlocked (hdisj hmine)
    · refine ⟨[c], hcommits, fun x y hx hlead => ?_⟩
      have hx := hx c (by simp)
      cases hnew : c.call.newId with
      | none =>
        refine Relation.ReflTransGen.mono (fun v w hedge => ?_) _ _ hlead
        rcases hedges _ (RoleDb.edge_parentEdges.mp hedge) with hold | hn
        · exact RoleDb.edge_parentEdges.mpr hold
        · rw [hnew] at hn
          cases hn
      | some n =>
        refine Graph.Leads.of_attached (n := n) (fun v w hedge => ?_) ?_ hlead
        · rcases hedges _ (RoleDb.edge_parentEdges.mp hedge) with hold | hn
          · exact .inl (RoleDb.edge_parentEdges.mpr hold)
          · rw [hnew] at hn
            exact .inr (Option.some.inj hn).symm
        · -- nothing but the new role itself leads to it
          intro hto
          have hnone := no_edge_of_not_mentions (hfresh n hnew)
          exact hx (Graph.eq_of_leads_source hnone hto ▸ hnew)

/-- What the cycle check has found stays true while the advisory lock is held. -/
theorem not_leads_of_after {t : RoleCtx} {mine : List Row} (hmine : .roleInheritance ∈ mine)
    {s s' : RoleSnapshot} (h : inheritanceProtocol.After mine s s')
    (hsince : t.since ≤ s.commits.length)
    (hlocal : inheritanceProtocol.Local t (fun _ => []) s') {p id : RoleId} (hp : p ∈ t.call.names)
    (hnot : ¬Graph.Leads s.db.parentEdges p id) : ¬Graph.Leads s'.db.parentEdges p id := by
  obtain ⟨new, hnew, hleads⟩ := leads_of_after hmine h
  refine fun hlead => hnot (hleads p id (fun c hc hcreated => ?_) hlead)
  refine hlocal.2.2 c ?_ p hcreated hp
  rw [hnew, List.drop_append_of_le_length hsince]
  exact List.mem_append_right _ hc

section Calls

variable {t : RoleCtx} {s : RoleSnapshot}

/-- A transaction without a cycle check follows the protocol, when its writes stay within
what its call may do. -/
theorem wp_of_unchecked {p : RoleTx Outcome} (hwrites : p.Writes t.call.Writes)
    (hinv : s.db.Acyclic) (hlocal : inheritanceProtocol.Local t (fun _ => []) s)
    (hlog : t.call.Within t.log)
    (hcall : ∀ id dto, t.call = .update id dto → dto.inheritedRoleIds = none) :
    inheritanceProtocol.Wp (inheritanceProtocol.Commits roleService) p t s := by
  have hnone : ∀ (u : RoleCtx), u.Extends t → ∀ id dto ids, u.call = .update id dto →
      dto.inheritedRoleIds ≠ some ids := by
    intro u hu id dto ids hucall hids
    rw [hcall id dto (hu.call ▸ hucall)] at hids
    cases hids
  refine wp_of_writes (W := t.call.Within) Mutation.Within.comp ?_ hwrites ?_ hinv hlocal hlog ?_
  · exact fun u u' wants wants' v hext hl => local_of_extends hext hl
  · intro u v locks change hu hpre hwithin
    refine hwithin fun id dto hcall' hids => hpre id dto (hu.call.trans hcall') hids
  · intro u a v hu _ _ hl hwithin
    refine commits_of_within (hu.call ▸ hwithin) hl ?_ ?_
    · exact fun id dto ids hucall hids => absurd hids (hnone u hu id dto ids hucall)
    · exact fun s' _ _ id dto ids hucall hids => absurd hids (hnone u hu id dto ids hucall)

/-- The roles that are found are among those asked for. -/
theorem answers_findBy (ids : List RoleId) : (findBy ids).Answers fun out => out ⊆ ids := by
  intro v p hp
  obtain ⟨r, hr, rfl⟩ := List.mem_map.mp hp
  simpa using (List.mem_filter.mp hr).2

/-- The transaction of a creation. -/
theorem writes_createRole (dto : CreateRole) (newId : RoleId) :
    (createRole dto newId).Writes (Mutation.create dto newId).Writes := by
  have hparents : (parentsToCreate (dto.inheritedRoleIds.getD [])).Writes
      (Mutation.create dto newId).Writes := by
    unfold parentsToCreate
    split
    · trivial
    · exact Program.writes_select (fun v => writes_nothing v _) _
  have hfound : (parentsToCreate (dto.inheritedRoleIds.getD [])).Answers
      fun out => out ⊆ dto.inheritedRoleIds.getD [] := by
    unfold parentsToCreate
    split
    · exact List.nil_subset _
    · exact answers_findBy _
  refine hparents.bind_of_answers hfound fun parents hmem => ?_
  refine (writes_insertRole (.inr rfl)).bind fun _ => ?_
  refine Program.Writes.bind (writes_insertInheritance fun p hp => .inl ⟨hmem hp, .inl rfl⟩)
    fun _ => trivial

/-- Loading a role changes nothing. -/
theorem writes_findOneWith (call : Mutation) (id : RoleId) :
    (findOneWith id).Writes call.Writes := by
  refine Program.Writes.bind (Program.writes_select (fun v => writes_nothing v _) _) fun role => ?_
  cases role with
  | none => trivial
  | some role => trivial

/-- The role that is loaded is the one asked for. -/
theorem answers_findOneWith (id : RoleId) : (findOneWith id).Answers fun out => out.1.id = id := by
  intro v
  dsimp only [Program.bind]
  cases hrole : v.roles.find id with
  | none => trivial
  | some role => exact Table.key_of_find (k := id) hrole

/-- The transaction of a removal. -/
theorem writes_removeRole (id : RoleId) :
    (removeRole id).Writes (Mutation.remove id).Writes := by
  refine (writes_findOneWith _ id).bind fun found => ?_
  split
  · trivial
  · refine (Program.writes_select (fun v => writes_nothing v _) _).bind fun holderIds => ?_
    refine Program.Writes.bind ?_ fun _ => trivial
    refine Program.writes_attempt (fun v => writes_nothing v _) fun v _ => ?_
    refine writes_of_subset (fun db => List.filter_subset_self _) fun db r hr => ?_
    exact ⟨r, (List.mem_filter.mp hr).1, rfl⟩

/-- The transaction of an assignment. -/
theorem writes_replaceUserRoles (targetUserId : UserId) (roleIds : List RoleId) :
    (replaceUserRoles targetUserId roleIds).Writes (Mutation.assign targetUserId roleIds).Writes := by
  have hsame : ∀ (v : RoleDb) (locks : List Row) (change : RoleDb → RoleDb),
      (∀ db, (change db).inheritance = db.inheritance ∧ (change db).roles = db.roles) →
      (Mutation.assign targetUserId roleIds).Writes v locks change := by
    intro v locks change hchange
    refine writes_of_subset (fun db => ?_) fun db r hr => ?_
    · rw [(hchange db).1]
      exact List.Subset.refl _
    · rw [(hchange db).2] at hr
      exact ⟨r, hr, rfl⟩
  refine fun v => ⟨hsame v _ _ fun db => ⟨rfl, rfl⟩, ?_⟩
  dsimp only [Program.bind]
  split
  · trivial
  · refine Program.Writes.bind ?_ fun _ => trivial
    exact Program.writes_attempt (fun v => writes_nothing v _)
      fun v _ => hsame v _ _ fun db => ⟨rfl, rfl⟩

/-- The guard of system default roles writes nothing. -/
theorem writes_checkSystemDefault (call : Mutation) (role : Role) (dto : UpdateRole) :
    (checkSystemDefault role dto).Writes call.Writes := by
  unfold checkSystemDefault
  split
  · split
    · trivial
    · split
      · trivial
      · split
        · trivial
        · trivial
  · trivial

/-- The end of an update, once its parents are known. -/
theorem writes_saveUpdate {id : RoleId} {dto : UpdateRole} {role : Role} {parents : List RoleId}
    (hid : role.id = id) (hadd : dto.inheritedRoleIds = none ∨
      ∃ ids, dto.inheritedRoleIds = some ids ∧ parents ⊆ ids) :
    ((Program.select fun v => v.dependentRoleHolderIds id).bind fun holderIds =>
      (saveRole (dto.assign role) parents).bind fun _ =>
        .done (Outcome.updated (dto.assign role) holderIds)).Writes (Mutation.update id dto).Writes := by
  refine (Program.writes_select (fun v => writes_nothing v _) _).bind fun holderIds => ?_
  refine Program.Writes.bind (writes_saveRole ?_ fun p hp => ?_) fun _ => trivial
  · change role.id ∈ id :: dto.inheritedRoleIds.getD []
    rw [hid]
    exact List.mem_cons_self
  · rcases hadd with hnone | ⟨ids, hids, hmem⟩
    · exact .inr ⟨id, dto, rfl, hnone⟩
    · left
      refine ⟨?_, .inr ⟨dto, ids, ?_, hids, hmem hp⟩⟩
      · change p ∈ id :: dto.inheritedRoleIds.getD []
        rw [hids]
        exact List.mem_cons_of_mem _ (hmem hp)
      · change Mutation.update id dto = .update role.id dto
        rw [hid]

/-- The transaction of an update that names no parents. -/
theorem writes_updateRole {id : RoleId} {dto : UpdateRole} (hnone : dto.inheritedRoleIds = none) :
    (updateRole id dto).Writes (Mutation.update id dto).Writes := by
  refine (writes_findOneWith _ id).bind_of_answers (answers_findOneWith id) fun found hid => ?_
  refine (writes_checkSystemDefault _ _ _).bind fun _ => ?_
  rw [hnone]
  exact writes_saveUpdate hid (.inl hnone)

/-- The rule of loading a role. -/
theorem wp_findOneWith {Q : RoleCtx → Role × List RoleId → RoleSnapshot → Prop} {id : RoleId}
    (hlocal : inheritanceProtocol.Local t (fun _ => []) s)
    (hQ : ∀ found v, found.1.id = id → inheritanceProtocol.Inv v →
      inheritanceProtocol.Local t (fun _ => []) v → Q t found v) :
    inheritanceProtocol.Wp Q (findOneWith id) t s := by
  refine wp_read hlocal fun v _ hinv hl => ?_
  cases hrole : (t.view v).roles.find id with
  | none => exact hl
  | some role => exact hQ (role, _) v (Table.key_of_find (k := id) hrole) hinv hl

/-- The rule of the guard of system default roles. -/
theorem wp_checkSystemDefault {Q : RoleCtx → Unit → RoleSnapshot → Prop} {role : Role}
    {dto : UpdateRole} (hlocal : inheritanceProtocol.Local t (fun _ => []) s) (hQ : Q t () s) :
    inheritanceProtocol.Wp Q (checkSystemDefault role dto) t s := by
  unfold checkSystemDefault
  split
  · split
    · exact hlocal
    · split
      · exact hlocal
      · split
        · exact hlocal
        · exact hQ
  · exact hQ

/-- The rule of the cycle check: the parents it answers are among those named, and as long
as the advisory lock is held none of those named leads to the role. -/
theorem wp_changeInheritance {Q : RoleCtx → List RoleId → RoleSnapshot → Prop} {id : RoleId}
    {ids : List RoleId} (hlog : ∀ db, t.log db = db) (hnames : ids ⊆ t.call.names)
    (hlocal : inheritanceProtocol.Local t (fun _ => []) s)
    (hQ : ∀ parents v, parents ⊆ ids → inheritanceProtocol.Inv v →
      inheritanceProtocol.Local (t.wrote [.roleInheritance] fun db => db) (fun _ => []) v →
      (∀ s', inheritanceProtocol.After (t.held ++ [.roleInheritance]) v s' →
        inheritanceProtocol.Local t (fun _ => []) s' →
        ∀ p ∈ ids, ¬Graph.Leads s'.db.parentEdges p id) →
      Q (t.wrote [.roleInheritance] fun db => db) parents v) :
    inheritanceProtocol.Wp Q (changeInheritance id ids) t s := by
  unfold changeInheritance
  split
  · exact hlocal
  · refine ⟨local_of_extends (.refl t) hlocal, fun v₁ _ _ hl₁ _ => ?_⟩
    have hext := t.extends_wrote [.roleInheritance] fun db => db
    refine wp_read (local_of_extends hext hl₁) fun v₂ _ _ hl₂ => ?_
    split
    · exact hl₂
    · rename_i hinherits
      refine wp_read hl₂ fun v₃ hafter hinv hl₃ => ?_
      refine hQ _ v₃ ?_ hinv hl₃ fun s' hafter' hl p hp => ?_
      · intro p hp
        obtain ⟨r, hr, rfl⟩ := List.mem_map.mp hp
        simpa using (List.mem_filter.mp hr).2
      · have hheld : Row.roleInheritance ∈ t.held ++ [.roleInheritance] :=
          List.mem_append_right _ (by simp)
        refine not_leads_of_after hheld (hafter.trans hafter') hl₂.1 hl (hnames hp) ?_
        have hnone : id ∉ v₂.db.effectiveRoleIds ids := by
          simpa [RoleDb.roleSetInheritsRole, Context.view, hlog] using hinherits
        exact fun hlead => hnone (RoleDb.mem_effectiveRoleIds.mpr ⟨p, hp, hlead⟩)

/-- The transaction of an update that names its parents: it checks them under the lock. -/
theorem wp_updateRole {id : RoleId} {dto : UpdateRole} {ids : List RoleId}
    (hcall : t.call = .update id dto) (hids : dto.inheritedRoleIds = some ids)
    (hlog : ∀ db, t.log db = db) (hlocal : inheritanceProtocol.Local t (fun _ => []) s) :
    inheritanceProtocol.Wp (inheritanceProtocol.Commits roleService) (updateRole id dto) t s := by
  have hnames : ids ⊆ t.call.names := by
    intro p hp
    rw [hcall]
    change p ∈ id :: dto.inheritedRoleIds.getD []
    rw [hids]
    exact List.mem_cons_of_mem _ hp
  refine (wp_bind _ _ _ _ _).mpr (wp_findOneWith hlocal fun found v hid _ hl => ?_)
  refine (wp_bind _ _ _ _ _).mpr (wp_checkSystemDefault hl ?_)
  rw [hids]
  refine (wp_bind _ _ _ _ _).mpr (wp_changeInheritance hlog hnames hl ?_)
  intro parents w hparents hinv hl' hchecked
  refine wp_of_writes (W := t.call.Within) Mutation.Within.comp ?_
    (writes_saveUpdate hid (.inr ⟨ids, hids, hparents⟩)) ?_ hinv hl' ?_ ?_
  · exact fun u u' wants wants' x hext h => local_of_extends hext h
  · intro u x locks change hu hpre hwithin
    rw [hcall]
    refine hwithin fun id' dto' hcall' hnone => ?_
    cases hcall'
    rw [hids] at hnone
    cases hnone
  · intro db
    rw [Context.wrote_log, hlog]
    exact ⟨fun e he => .inl he, fun r hr => .inl ⟨r, hr, rfl⟩⟩
  · intro u a x hu hafter _ hl'' hwithin
    have hucall : u.call = t.call := hu.call
    refine commits_of_within (hucall ▸ hwithin) hl'' ?_ ?_
    · exact fun _ _ _ _ _ => hu.held (List.mem_append_right _ (by simp))
    · intro s' hafter' hls id' dto' ids' hcall' hids'
      rw [hucall, hcall] at hcall'
      cases hcall'
      rw [hids] at hids'
      cases hids'
      have hback : inheritanceProtocol.Local t (fun _ => []) s' := by
        obtain ⟨hsince, hfresh, hlater⟩ := hls
        have husince : u.since = t.since := hu.since
        rw [hucall] at hfresh hlater
        rw [husince] at hsince hlater
        exact ⟨hsince, hfresh, hlater⟩
      exact hchecked s' (hafter.trans (hafter'.mono hu.held)) hback

end Calls

/-- The identifier that an open creation has drawn occurs nowhere else. -/
def FreshIds (s : RoleState) : Prop :=
  ∀ t ∈ s.active, ∀ n, t.call.newId = some n → ¬s.db.Mentions n ∧ n ∉ t.call.names ∧
    ∀ u ∈ s.active, u.id ≠ t.id → n ∉ u.call.names ∧ u.call.newId ≠ some n

/-- The condition of the theorem, with the freshness that it implies. -/
def Orderly (s : RoleState) (e : Event Mutation) : Prop :=
  DrawsFreshIds s e ∧ NoStaleParent s e ∧ FreshIds s

/-- The role service follows the protocol. -/
theorem inheritanceProtocol_sound : inheritanceProtocol.Sound roleService Orderly where
  starts := by
    intro s call hs hcond
    have hfresh := (hcond.1 call rfl).1
    have hlocal : inheritanceProtocol.Local
        (Context.opened s.nextId call s.commits.length : RoleCtx) (fun _ => []) s.toSnapshot := by
      refine ⟨Nat.le_refl _, fun n hn => ⟨(hfresh n hn).1, (hfresh n hn).2.1⟩, fun c hc => ?_⟩
      rw [Context.opened_since, List.drop_length] at hc
      cases hc
    have hlog : (Context.opened s.nextId call s.commits.length : RoleCtx).call.Within
        (Context.opened s.nextId call s.commits.length : RoleCtx).log :=
      fun db => ⟨fun e he => .inl he, fun r hr => .inl ⟨r, hr, rfl⟩⟩
    cases call with
    | create dto newId =>
      refine wp_of_unchecked (writes_createRole dto newId) hs.inv hlocal hlog ?_
      exact fun id dto' hcall => nomatch hcall
    | update id dto =>
      cases hids : dto.inheritedRoleIds with
      | none =>
        refine wp_of_unchecked (writes_updateRole hids) hs.inv hlocal hlog fun id' dto' hcall => ?_
        cases hcall
        exact hids
      | some ids => exact wp_updateRole rfl hids (fun _ => rfl) hlocal
    | remove id =>
      refine wp_of_unchecked (writes_removeRole id) hs.inv hlocal hlog ?_
      exact fun id dto' hcall => nomatch hcall
    | assign targetUserId roleIds =>
      refine wp_of_unchecked (writes_replaceUserRoles targetUserId roleIds) hs.inv hlocal hlog ?_
      exact fun id dto' hcall => nomatch hcall
  pre := by
    intro s t locks write next _ ht hp hcond id dto hcall hnone edge hedge
    refine hcond.2.1 t ht rfl id dto hcall hnone edge ?_
    rw [hp]
    exact hedge
  preCommit := fun _ _ _ _ _ _ _ => trivial
  stable := by
    intro s t u a hs ht hu hid _ hcond _ hguar
    obtain ⟨c, hcommits, hmentions, _⟩ := hguar
    obtain ⟨hsince, hown, hlater⟩ := local_of_wp (hs.wp u hu)
    have hcall : c.call = t.call := by
      rw [Snapshot.commit_commits, List.append_cancel_left_eq, List.cons.injEq] at hcommits
      rw [← hcommits.1]
    have hfresh := hcond.2.2
    refine ⟨?_, fun n hn => ⟨fun hmention => ?_, (hown n hn).2⟩, fun d hd n hn => ?_⟩
    · rw [hcommits, List.length_append]
      omega
    · obtain ⟨_, _, hothers⟩ := hfresh u hu n hn
      obtain ⟨hunnamed, hother⟩ := hothers t ht (Ne.symm hid)
      rcases hmentions n hmention with hold | hnamed | hcreated
      · exact (hown n hn).1 hold
      · exact hunnamed (hcall ▸ hnamed)
      · exact hother (hcall ▸ hcreated)
    · rw [hcommits, List.drop_append_of_le_length hsince] at hd
      rcases List.mem_append.mp hd with hd | hd
      · exact hlater d hd n hn
      · obtain rfl := List.mem_singleton.mp hd
        rw [hcall] at hn
        obtain ⟨_, _, hothers⟩ := hfresh t ht n hn
        exact (hothers u hu hid).1

/-- The next statement of a transaction draws no identifier. -/
theorem freshIds_of_replace {s : RoleState} (hfresh : FreshIds s)
    {t : Transaction Mutation RoleDb Row UserId RoleError Outcome} (ht : t ∈ s.active)
    (u : Transaction Mutation RoleDb Row UserId RoleError Outcome) (hid : u.id = t.id)
    (hcall : u.call = t.call) : FreshIds (s.replace u) := by
  have hold := System.exists_call_of_mem_replace ht hid hcall
  intro w hw n hn
  obtain ⟨v, hv, hvid, hvcall⟩ := hold w hw
  rw [← hvcall] at hn ⊢
  obtain ⟨hunknown, hself, hothers⟩ := hfresh v hv n hn
  refine ⟨hunknown, hself, fun x hx hne => ?_⟩
  obtain ⟨y, hy, hyid, hycall⟩ := hold x hx
  rw [← hycall]
  refine hothers y hy fun heq => hne ?_
  rw [← hyid, heq, hvid]

/-- **Step lemma:** drawn identifiers stay fresh. -/
theorem freshIds_of_step {s s' : RoleState} {e : Event Mutation}
    (hs : inheritanceProtocol.Consistent roleService s) (hcond : Orderly s e)
    (hstep : roleService.step s e = some s') : FreshIds s' := by
  have hfresh := hcond.2.2
  cases Machine.moves_of_step hstep with
  | start call =>
    obtain ⟨hdrawn, hnamed⟩ := hcond.1 call rfl
    intro t ht n hn
    rcases List.mem_append.mp ht with ht | ht
    · obtain ⟨hunknown, hself, hothers⟩ := hfresh t ht n hn
      refine ⟨hunknown, hself, fun u hu hid => ?_⟩
      rcases List.mem_append.mp hu with hu | hu
      · exact hothers u hu hid
      · obtain rfl := List.mem_singleton.mp hu
        refine ⟨hnamed t ht n hn, fun hdraws => ?_⟩
        exact ((hdrawn n hdraws).2.2 t ht).2 hn
    · obtain rfl := List.mem_singleton.mp ht
      obtain ⟨hunknown, hself, hothers⟩ := hdrawn n hn
      refine ⟨hunknown, hself, fun u hu hid => ?_⟩
      rcases List.mem_append.mp hu with hu | hu
      · exact hothers u hu
      · obtain rfl := List.mem_singleton.mp hu
        exact absurd rfl hid
  | commit t a ht hp =>
    obtain ⟨_, c, hcommits, hmentions, _⟩ :=
      commit_of_consistent inheritanceProtocol_sound hs ht hp hcond
    have hcall : c.call = t.call := by
      rw [Snapshot.commit_commits, List.append_cancel_left_eq, List.cons.injEq] at hcommits
      rw [← hcommits.1]
    intro u hu n hn
    obtain ⟨hu, hne⟩ := List.mem_filter.mp hu
    obtain ⟨hunknown, hself, hothers⟩ := hfresh u hu n hn
    refine ⟨fun hmention => ?_, hself, fun w hw => hothers w (List.mem_filter.mp hw).1⟩
    have hid : t.id ≠ u.id := fun heq => by simp [heq] at hne
    obtain ⟨hunnamed, hother⟩ := hothers t ht hid
    rcases hmentions n hmention with hold | hnamed | hcreated
    · exact hunknown hold
    · exact hunnamed (hcall ▸ hnamed)
    · exact hother (hcall ▸ hcreated)
  | statement t locks write next ht hp hfree =>
    exact freshIds_of_replace hfresh ht _ rfl rfl
  | enqueue t job next ht hp => exact freshIds_of_replace hfresh ht _ rfl rfl
  | rollback _ t ht =>
    intro u hu n hn
    obtain ⟨hunknown, hself, hothers⟩ := hfresh u (List.mem_filter.mp hu).1 n hn
    exact ⟨hunknown, hself, fun w hw => hothers w (List.mem_filter.mp hw).1⟩

/-- **Run lemma:** from an acyclic graph a run without stale parents reaches only consistent
states. -/
theorem consistent_of_run {db : RoleDb} {s : RoleState} (hdb : db.Acyclic)
    (hreach : roleService.Reaches (fun s e => DrawsFreshIds s e ∧ NoStaleParent s e)
      (System.idle db) s) :
    inheritanceProtocol.Consistent roleService s ∧ FreshIds s := by
  induction hreach with
  | refl => exact ⟨consistent_idle hdb, fun t ht => nomatch ht⟩
  | tail _ hstep ih =>
    obtain ⟨e, hcond, hs⟩ := hstep
    have horderly : Orderly _ e := ⟨hcond.1, hcond.2, ih.2⟩
    exact ⟨consistent_of_step inheritanceProtocol_sound ih.1 horderly hs,
      freshIds_of_step ih.1 horderly hs⟩

/-- **Inheritance stays acyclic** in every run in which no stale parent is saved. -/
theorem inheritanceAcyclic_of_noStaleParent (db : RoleDb) (s : RoleState) (hdb : db.Acyclic)
    (hreach : roleService.Reaches (fun s e => DrawsFreshIds s e ∧ NoStaleParent s e)
      (System.idle db) s) : s.db.Acyclic :=
  (consistent_of_run hdb hreach).1.inv

/-- A tenant with two roles, the first of which inherits the second. -/
def editorAndAuthor : RoleDb where
  roles :=
    { rows :=
        [⟨1, "Editor", none, false, some []⟩, ⟨2, "Author", none, false, some []⟩]
      nodup := by decide }
  inheritance := [⟨2, 1⟩]
  userRoles := []
  users := []

/-- Nothing is inherited in a circle. -/
theorem acyclic_editorAndAuthor : editorAndAuthor.Acyclic := by
  have hempty : Graph.Acyclic ([] : List (RoleId × RoleId)) :=
    fun a hcycle => by cases hcycle with
      | single hedge => cases hedge
      | tail _ hedge => cases hedge
  refine hempty.attach (n := 1) fun a b hedge => .inr ?_
  obtain ⟨rfl, rfl⟩ : a = 1 ∧ b = 2 := by simpa [Graph.Edge, RoleDb.parentEdges,
    editorAndAuthor] using hedge
  refine ⟨rfl, fun hlead => ?_⟩
  cases hlead with
  | tail _ hedge => cases hedge

/-- The first role ceases to inherit the second, and the second comes to inherit the first. -/
def turnedRound : List (Event Mutation) :=
  .start (.update 1 { inheritedRoleIds := some [] }) :: List.replicate 8 (.exec 0) ++
  .start (.update 2 { inheritedRoleIds := some [1] }) :: List.replicate 8 (.exec 1)

/-- The second role inherits the first, and nothing is inherited in a circle. -/
theorem inheritanceAcyclic_of_noStaleParent_turnedRound :
    (roleService.endState (System.idle editorAndAuthor) turnedRound).db.inheritance = [⟨1, 2⟩] ∧
      (roleService.endState (System.idle editorAndAuthor) turnedRound).db.Acyclic := by
  refine ⟨by decide +kernel,
    inheritanceAcyclic_of_noStaleParent editorAndAuthor _ acyclic_editorAndAuthor ?_⟩
  have hstarts : roleService.Reaches (Machine.StartsOnly fun call => ∃ id ids,
      call = .update id { inheritedRoleIds := some ids }) (System.idle editorAndAuthor)
      (roleService.endState (System.idle editorAndAuthor) turnedRound) := by
    refine Machine.reaches_endState (by decide +kernel) fun s e he call hstart => ?_
    subst hstart
    simp only [turnedRound, List.mem_append, List.mem_cons, List.mem_replicate,
      Event.start.injEq, reduceCtorEq, and_false, or_false] at he
    rcases he with rfl | rfl
    · exact ⟨1, [], rfl⟩
    · exact ⟨2, [1], rfl⟩
  refine (hstarts.of_startsOnly fun s e hactive hstart => ⟨fun call hcall => ⟨?_, ?_⟩, ?_⟩).1
  · obtain ⟨id, ids, rfl⟩ := hstart call hcall
    exact fun n hn => nomatch hn
  · intro t ht n hn
    obtain ⟨id, ids, hupdate⟩ := hactive t ht
    rw [hupdate] at hn
    cases hn
  · intro t ht _ id dto hcall hnone
    obtain ⟨id', ids, hupdate⟩ := hactive t ht
    cases hcall.symm.trans hupdate
    cases hnone

/-- The description of the first role is edited; before it is saved, the first role ceases
to inherit the second and the second comes to inherit the first. -/
def staleEdit : List (Event Mutation) :=
  [.start (.update 1 { description := some "edits" }), .exec 0] ++
  .start (.update 1 { inheritedRoleIds := some [] }) :: List.replicate 8 (.exec 1) ++
  .start (.update 2 { inheritedRoleIds := some [1] }) :: List.replicate 8 (.exec 2) ++
  List.replicate 5 (.exec 0)

/-- Concurrent updates can close a cycle: an edit of a description restores a parent that
has been removed meanwhile. -/
theorem not_inheritanceAcyclic : ¬InheritanceAcyclic DrawsFreshIds := by
  intro h
  have hreach : roleService.Reaches DrawsFreshIds (System.idle editorAndAuthor)
      (roleService.endState (System.idle editorAndAuthor) staleEdit) := by
    -- nothing is created in the run
    have hstarts : roleService.Reaches (Machine.StartsOnly fun call => call.newId = none)
        (System.idle editorAndAuthor)
        (roleService.endState (System.idle editorAndAuthor) staleEdit) := by
      refine Machine.reaches_endState (by decide +kernel) fun s e he call hstart => ?_
      subst hstart
      simp only [staleEdit, List.mem_append, List.mem_cons, List.mem_replicate, Event.start.injEq,
        reduceCtorEq, and_false, or_false, List.not_mem_nil] at he
      rcases he with (rfl | rfl) | rfl <;> rfl
    refine (hstarts.of_startsOnly fun s e hactive hstart call hcall => ⟨?_, ?_⟩).1
    · intro n hn
      rw [hstart call hcall] at hn
      cases hn
    · intro t ht n hn
      rw [hactive t ht] at hn
      cases hn
  have hforth : Graph.Edge (roleService.endState (System.idle editorAndAuthor)
      staleEdit).db.parentEdges 1 2 := RoleDb.edge_parentEdges.mpr (by decide +kernel)
  have hback : Graph.Edge (roleService.endState (System.idle editorAndAuthor)
      staleEdit).db.parentEdges 2 1 := RoleDb.edge_parentEdges.mpr (by decide +kernel)
  exact h editorAndAuthor _ acyclic_editorAndAuthor hreach 1 (.tail (.single hforth) hback)

end Odiseo.Roles
