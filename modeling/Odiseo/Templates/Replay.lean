import Odiseo.Database.Protocol
import Odiseo.Templates.Store

/-!
# Concurrent edits of the templates

Creations, updates and deletions run interleaved, and the check of an update is even a transaction
before the one that writes. Still the templates are always what the committed calls make of them
one after the other: the row of a template is written before its courses and stays locked, its cycle
never changes, and an identifier that has been used is never drawn again.
-/

namespace Odiseo.Templates

open Database Odiseo.Materials

/-- The committed state. -/
abbrev Committed := Snapshot TemplateCall Db Empty TemplateAnswer

/-- An open transaction. -/
abbrev Ctx := Context TemplateCall Db Row Empty

/-- An identifier was there at the start, or has been drawn by a committed call. -/
def Known (start : Db) (commits : List (Commit TemplateCall Empty TemplateAnswer)) (i : Uuid) :
    Prop :=
  start.Mentions i ∨ ∃ c ∈ commits, i ∈ c.call.draws

/-- What holds of every committed state. -/
structure Good (start : Db) (s : Committed) : Prop where
  replays : s.db.store = replay TemplateCall.effect start.store s.commits
  linked : s.db.Linked
  known : ∀ i, s.db.Mentions i → Known start s.commits i
  /-- A template that was found in a cycle has stayed in it. -/
  owned : ∀ c ∈ s.commits, ∀ templateId cycleId, c.call = .getTemplateInCycle templateId cycleId →
    c.result = .found true → Known start s.commits templateId ∧
      ∀ row, s.db.templates.find templateId = some row → row.cycleId = cycleId

/-- What a commit does under the rows that it holds. -/
structure Keeps (start : Db) (held : List Row) (s s' : Committed) : Prop where
  commits : s.commits ⊆ s'.commits
  frame : ∀ id, .template id ∉ held → SameTemplate id s.db s'.db
  /-- A known template neither comes back nor moves to another cycle. -/
  cycle : ∀ id, Known start s.commits id → ∀ row', s'.db.templates.find id = some row' →
    ∃ row, s.db.templates.find id = some row ∧ row'.cycleId = row.cycleId

/-- What is known of an open transaction: what it has drawn is new, and the check before it has
been answered. -/
def Pending (start : Db) (call : TemplateCall) (s : Committed) : Prop :=
  (∀ i ∈ call.draws, ¬Known start s.commits i) ∧ Checked s.commits call

/-- What the transactions of the templates promise to each other. -/
def templateProtocol (start : Db) : Protocol TemplateCall Db Row Empty TemplateAnswer where
  Inv := Good start
  Guar := Keeps start
  Local t _ s := Pending start t.call s
  Pre _ _ _ := True
  PreCommit _ _ _ := True

variable {start : Db} {s s' : Committed} {t : Ctx}

/-- What is known stays known. -/
theorem Known.mono {commits commits' : List (Commit TemplateCall Empty TemplateAnswer)}
    (h : commits ⊆ commits') {i : Uuid} (hi : Known start commits i) : Known start commits' i := by
  rcases hi with hstart | ⟨c, hc, hdrawn⟩
  · exact .inl hstart
  · exact .inr ⟨c, h hc, hdrawn⟩

/-- A check that has been answered stays answered. -/
theorem Checked.mono {commits commits' : List (Commit TemplateCall Empty TemplateAnswer)}
    (h : commits ⊆ commits') {call : TemplateCall} (hcall : Checked commits call) :
    Checked commits' call := by
  cases call with
  | createTemplate cycleId templateId dto rowIds =>
    obtain ⟨c, hc, hfound⟩ := hcall
    exact ⟨c, h hc, hfound⟩
  | updateTemplate cycleId templateId dto rowIds =>
    obtain ⟨c, hc, hfound⟩ := hcall
    exact ⟨c, h hc, hfound⟩
  | getCycleWithSyllabus cycleId => trivial
  | getTemplateInCycle templateId cycleId => trivial
  | deleteTemplate cycleId templateId => trivial
  | elsewhere change => trivial

/-- What the commits of others leave of a template whose row is locked. -/
structure Quiet (start : Db) (mine : List Row) (s s' : Committed) : Prop where
  commits : s.commits ⊆ s'.commits
  frame : ∀ id, .template id ∈ mine → SameTemplate id s.db s'.db
  cycle : ∀ id, Known start s.commits id → ∀ row', s'.db.templates.find id = some row' →
    ∃ row, s.db.templates.find id = some row ∧ row'.cycleId = row.cycleId

/-- Any number of commits under other rows are quiet. -/
theorem quiet_of_after {mine : List Row} (h : (templateProtocol start).After mine s s') :
    Quiet start mine s s' := by
  refine h.of_guar (fun a => ⟨fun _ h => h, fun id _ => .refl id _, ?_⟩) ?_ ?_
  · exact fun id _ row' hrow' => ⟨row', hrow', rfl⟩
  · intro a b c hab hbc
    refine ⟨fun _ hx => hbc.commits (hab.commits hx), ?_, ?_⟩
    · exact fun id hid => (hab.frame id hid).trans (hbc.frame id hid)
    · intro id hid row'' hrow''
      obtain ⟨row', hrow', hcycle'⟩ := hbc.cycle id (hid.mono hab.commits) row'' hrow''
      obtain ⟨row, hrow, hcycle⟩ := hab.cycle id hid row' hrow'
      exact ⟨row, hrow, hcycle'.trans hcycle⟩
  · intro held a b hdisj hguar _
    exact ⟨hguar.commits, fun id hid => hguar.frame id fun h => hdisj hid h, hguar.cycle⟩

/-- A known template that is gone stays gone. -/
theorem Quiet.find_eq_none {mine : List Row} (h : Quiet start mine s s') {id : Uuid}
    (hid : Known start s.commits id) (hnone : s.db.templates.find id = none) :
    s'.db.templates.find id = none := by
  cases hrow' : s'.db.templates.find id with
  | none => rfl
  | some row' =>
    obtain ⟨row, hrow, _⟩ := h.cycle id hid row' hrow'
    rw [hnone] at hrow
    cases hrow

/-- What the writes of a transaction have to do when it commits. -/
structure Does (t : Ctx) (s : Committed) : Prop where
  effect : (t.log s.db).store = t.call.effect s.db.store
  linked : (t.log s.db).Linked
  frame : ∀ id, .template id ∉ t.held → SameTemplate id s.db (t.log s.db)
  /-- The rows that are new have drawn identifiers, the others keep their cycle. -/
  rows : ∀ id row', (t.log s.db).templates.find id = some row' →
    (∃ row, s.db.templates.find id = some row ∧ row'.cycleId = row.cycleId) ∨ id ∈ t.call.draws
  courses : ∀ r ∈ (t.log s.db).templateCourses.rows,
    r ∈ s.db.templateCourses.rows ∨ r.id ∈ t.call.draws

/-- A transaction that leaves the tables of the templates alone does what it has to, when its call
has no effect. -/
theorem does_of_tables (hgood : Good start s)
    (htemplates : (t.log s.db).templates = s.db.templates)
    (hcourses : (t.log s.db).templateCourses = s.db.templateCourses)
    (heffect : t.call.effect s.db.store = s.db.store) : Does t s where
  effect := by
    rw [heffect]
    funext id
    simp only [Db.store, Db.coursesOf, htemplates, hcourses]
  linked := by
    intro r hr
    rw [hcourses] at hr
    rw [htemplates]
    exact hgood.linked r hr
  frame id _ := ⟨by rw [htemplates], by simp only [Db.coursesOf, hcourses]⟩
  rows id row' hrow' := .inl ⟨row', htemplates ▸ hrow', rfl⟩
  courses r hr := .inl (hcourses ▸ hr)

/-- What is known after a commit was known before it, or has been drawn by its call. -/
theorem known_commit {a : TemplateAnswer} {i : Uuid}
    (h : Known start (s.commit t a []).commits i) :
    Known start s.commits i ∨ i ∈ t.call.draws := by
  rcases h with hstart | ⟨c, hc, hdrawn⟩
  · exact .inl (.inl hstart)
  · rcases List.mem_append.mp hc with hc | hc
    · exact .inl (.inr ⟨c, hc, hdrawn⟩)
    · obtain rfl := List.mem_singleton.mp hc
      exact .inr hdrawn

/-- **A commit that does what it has to** keeps the invariant and the promises. -/
theorem commit_of_does (hgood : Good start s) (hpending : Pending start t.call s) (hdoes : Does t s)
    {a : TemplateAnswer} (hfound : ∀ templateId cycleId,
      t.call = .getTemplateInCycle templateId cycleId → a = .found true →
        Known start s.commits templateId ∧
          ∀ row, s.db.templates.find templateId = some row → row.cycleId = cycleId) :
    Good start (s.commit t a []) ∧ Keeps start t.held s (s.commit t a []) := by
  have hcommits : s.commits ⊆ (s.commit t a []).commits := List.subset_append_left _ _
  have hdrawn : ∀ i ∈ t.call.draws, Known start (s.commit t a []).commits i := fun i hi =>
    .inr ⟨⟨t.call, t.since, a, t.out ++ []⟩, by simp, hi⟩
  have hcycle : ∀ id, Known start s.commits id → ∀ row',
      (t.log s.db).templates.find id = some row' →
      ∃ row, s.db.templates.find id = some row ∧ row'.cycleId = row.cycleId :=
    fun id hid row' hrow' =>
      (hdoes.rows id row' hrow').resolve_right fun hnew => hpending.1 id hnew hid
  refine ⟨⟨?_, hdoes.linked, ?_, ?_⟩, ⟨hcommits, hdoes.frame, hcycle⟩⟩
  · rw [replay_commit, ← hgood.replays]
    exact hdoes.effect
  · rintro i (htemplate | hcourse)
    · obtain ⟨row', hrow'⟩ := Option.isSome_iff_exists.mp htemplate
      rcases hdoes.rows i row' hrow' with ⟨row, hrow, _⟩ | hnew
      · exact (hgood.known i (.inl (by simp [hrow]))).mono hcommits
      · exact hdrawn i hnew
    · obtain ⟨r, hr⟩ := Option.isSome_iff_exists.mp hcourse
      have hid : r.id = i := Table.key_of_find hr
      rcases hdoes.courses r (Table.mem_of_find hr) with hold | hnew
      · have hsome : s.db.templateCourses.find r.id = some r := Table.find_of_mem hold
        refine (hgood.known i (.inr ?_)).mono hcommits
        rw [← hid, hsome]
        rfl
      · exact hdrawn i (hid ▸ hnew)
  · intro c hc templateId cycleId hcall hresult
    have howned : Known start s.commits templateId ∧
        ∀ row, s.db.templates.find templateId = some row → row.cycleId = cycleId := by
      rcases List.mem_append.mp hc with hc | hc
      · exact hgood.owned c hc templateId cycleId hcall hresult
      · obtain rfl := List.mem_singleton.mp hc
        exact hfound templateId cycleId hcall hresult
    refine ⟨howned.1.mono hcommits, fun row' hrow' => ?_⟩
    obtain ⟨row, hrow, heq⟩ := hcycle templateId howned.1 row' hrow'
    exact heq.trans (howned.2 row hrow)

/-- What has to be shown of the transaction of a call. -/
abbrev Verified (start : Db) (t : Ctx) (p : Tx TemplateAnswer) (s : Committed) : Prop :=
  (templateProtocol start).Wp ((templateProtocol start).Commits templates) p t s

/-- A transaction may commit when its writes do what they have to at that moment. -/
theorem commits_of_does {a : TemplateAnswer} (hpending : Pending start t.call s)
    (h : ∀ s', Quiet start t.held s s' → Good start s' → Pending start t.call s' →
      Does t s' ∧ ∀ templateId cycleId, t.call = .getTemplateInCycle templateId cycleId →
        a = .found true → Known start s'.commits templateId ∧
          ∀ row, s'.db.templates.find templateId = some row → row.cycleId = cycleId) :
    Verified start t (.done a) s := by
  refine Protocol.commits_of_after hpending fun s' hafter hgood hp _ => ?_
  obtain ⟨hdoes, hfound⟩ := h s' (quiet_of_after hafter) hgood hp
  exact commit_of_does hgood hp hdoes hfound

section Checks

variable {templateId cycleId : Uuid}

/-- The check of a creation. -/
theorem verified_getCycleWithSyllabus (hcall : t.call = .getCycleWithSyllabus cycleId)
    (hlog : ∀ db, t.log db = db) (hpending : Pending start t.call s) :
    Verified start t (.found <$> getCycleWithSyllabus cycleId) s := by
  refine Protocol.wp_read hpending fun s₁ _ _ hp₁ => commits_of_does hp₁ fun s₂ _ hgood₂ _ => ?_
  refine ⟨does_of_tables hgood₂ (by rw [hlog]) (by rw [hlog]) (by rw [hcall]; rfl), ?_⟩
  intro templateId cycleId hcheck
  rw [hcall] at hcheck
  cases hcheck

/-- The check of an update: a template that is found in the cycle stays in it. -/
theorem verified_getTemplateInCycle (hcall : t.call = .getTemplateInCycle templateId cycleId)
    (hlog : ∀ db, t.log db = db) (hpending : Pending start t.call s) :
    Verified start t (.found <$> getTemplateInCycle templateId cycleId) s := by
  refine Protocol.wp_read hpending fun s₁ _ hgood₁ hp₁ => commits_of_does hp₁ fun s₂ hquiet hgood₂ _ => ?_
  refine ⟨does_of_tables hgood₂ (by rw [hlog]) (by rw [hlog]) (by rw [hcall]; rfl), ?_⟩
  intro id cycle hcheck hfound
  rw [hcall] at hcheck
  cases hcheck
  change TemplateAnswer.found ((t.log s₁.db).templates.find templateId |>.any _) = .found true
    at hfound
  rw [hlog, TemplateAnswer.found.injEq, Option.any_eq_true] at hfound
  obtain ⟨row, hrow, hcycle⟩ := hfound
  have hknown := hgood₁.known templateId (.inl (by simp [hrow]))
  refine ⟨hknown.mono hquiet.commits, fun row' hrow' => ?_⟩
  obtain ⟨row₁, hrow₁, heq⟩ := hquiet.cycle templateId hknown row' hrow'
  rw [hrow] at hrow₁
  cases hrow₁
  exact heq.trans (beq_iff_eq.mp hcycle)

/-- A transaction of another module. -/
theorem verified_elsewhere {change : Elsewhere → Elsewhere} (hcall : t.call = .elsewhere change)
    (hlog : ∀ db, t.log db = db) (hpending : Pending start t.call s) :
    Verified start t (TemplateCall.elsewhere change).program s := by
  refine Protocol.wp_write hpending fun s₁ _ _ hp₁ _ => commits_of_does hp₁ fun s₂ _ hgood₂ _ => ?_
  refine ⟨does_of_tables hgood₂ ?_ ?_ ?_, ?_⟩
  · rw [Context.wrote_log, hlog]
  · rw [Context.wrote_log, hlog]
  · rw [Context.wrote_call, hcall]
    rfl
  · intro templateId cycleId hcheck
    rw [Context.wrote_call, hcall] at hcheck
    cases hcheck

end Checks

/-- The insertion of the courses of a template, which is there when there are any. -/
theorem wp_saveCourses {Q : Ctx → TemplateAnswer → Committed → Prop}
    {rows : List CycleMaterialTemplateCourse} {g : Unit → Tx TemplateAnswer}
    (hgood : Good start s) (hpending : Pending start t.call s)
    (h : ∀ (u : Ctx) (s' : Committed), u.call = t.call → t.held ⊆ u.held →
      (∀ db, u.log db = insertCoursesIn rows (t.log db)) → Quiet start t.held s s' →
      Good start s' → Pending start u.call s' →
      (∀ r ∈ rows, ((t.log s'.db).templates.find r.templateId).isSome) →
      (templateProtocol start).Wp Q (g ()) u s') :
    (templateProtocol start).Wp Q ((saveCourses rows).bind g) t s := by
  rw [saveCourses]
  split
  · rename_i hempty
    obtain rfl := List.isEmpty_iff.mp hempty
    exact h t s rfl (fun _ h => h) (fun _ => rfl) (quiet_of_after .refl) hgood hpending nofun
  · refine Protocol.wp_attempt hpending (fun _ h => h) fun s' hafter hgood' hp _ hfree => ?_
    refine h _ s' rfl (List.subset_append_left _ _) (fun _ => rfl) (quiet_of_after hafter) hgood'
      hp ?_
    intro r hr
    have hrow := List.any_eq_false.mp hfree r hr
    simp only [Bool.or_eq_true, not_or] at hrow
    cases hfind : (t.log s'.db).templates.find r.templateId with
    | none => exact absurd (by rw [Context.view, hfind]; rfl) hrow.1.1.1
    | some row => rfl

section Create

variable {cycleId templateId : Uuid} {dto : CreateCycleMaterialTemplateDto} {rowIds : ℕ → Uuid}
  {courses : List TemplateCourse}

/-- The rows of the courses of a creation have drawn identifiers. -/
theorem draws_createTemplate (hmap : mapCourses dto.courses = .ok courses) :
    (TemplateCall.createTemplate cycleId templateId dto rowIds).draws =
      templateId :: (courseRows templateId rowIds courses).map (·.id) := by
  rw [map_id_courseRows, length_mapCourses hmap]
  rfl

/-- A creation does what it has to. -/
theorem does_createTemplate (hcall : t.call = .createTemplate cycleId templateId dto rowIds)
    (hnodup : t.call.draws.Nodup) (hmap : mapCourses dto.courses = .ok courses)
    (hlog : ∀ db, t.log db = insertCoursesIn (courseRows templateId rowIds courses)
      (insertTemplateIn (dto.templateData cycleId templateId) db))
    (hheld : .template templateId ∈ t.held) (hgood : Good start s)
    (hpending : Pending start t.call s) : Does t s := by
  have hdraws : t.call.draws = templateId :: (courseRows templateId rowIds courses).map (·.id) := by
    rw [hcall]
    exact draws_createTemplate hmap
  have hnew : ∀ i ∈ t.call.draws, ¬s.db.Mentions i := fun i hi hmention =>
    hpending.1 i hi (hgood.known i hmention)
  rw [hdraws] at hnodup hnew
  have hnone : s.db.templates.find templateId = none :=
    Option.not_isSome_iff_eq_none.mp fun h => hnew templateId List.mem_cons_self (.inl h)
  have hfresh : ∀ r ∈ courseRows templateId rowIds courses,
      s.db.templateCourses.find r.id = none := fun r hr =>
    Option.not_isSome_iff_eq_none.mp fun h =>
      hnew r.id (List.mem_cons_of_mem _ (List.mem_map_of_mem hr)) (.inr h)
  have hrows : ∀ r ∈ courseRows templateId rowIds courses, r.templateId = templateId := fun r hr =>
    templateId_of_mem_courseRows templateId rowIds courses hr
  have hfind : (t.log s.db).templates.find templateId =
      some (dto.templateData cycleId templateId) := by
    rw [hlog]
    exact (Table.find_insert _ _ _ hnone).trans (if_pos rfl)
  have hcourses : (t.log s.db).coursesOf templateId = courseRows templateId rowIds courses := by
    have hnil : (insertTemplateIn (dto.templateData cycleId templateId) s.db).coursesOf templateId =
        [] := hgood.linked.coursesOf_eq_nil hnone
    rw [hlog, coursesOf_insertCoursesIn hrows (List.nodup_cons.mp hnodup).2, hnil, List.nil_append]
    exact hfresh
  have hothers : ∀ k, k ≠ templateId → SameTemplate k s.db (t.log s.db) := by
    intro k hk
    rw [hlog]
    have hrow : SameTemplate k s.db (insertTemplateIn (dto.templateData cycleId templateId) s.db) :=
      sameTemplate_insertTemplateIn hk
    refine hrow.trans (sameTemplate_insertCoursesIn fun r hr => ?_)
    rw [hrows r hr]
    exact hk.symm
  refine ⟨?_, ?_, ?_, ?_, ?_⟩
  · rw [hcall, TemplateCall.effect, hmap]
    refine store_eq_update hothers ?_
    simp only [Db.store, hfind, hcourses, Option.map_some, CycleMaterialTemplate.value,
      map_course_courseRows]
    rfl
  · rw [hlog]
    refine linked_insertCoursesIn (linked_insertTemplateIn hgood.linked _) fun r hr => ?_
    rw [hrows r hr]
    exact Option.isSome_iff_exists.mpr ⟨_, (Table.find_insert _ _ _ hnone).trans (if_pos rfl)⟩
  · exact fun k hk => hothers k fun heq => hk (heq ▸ hheld)
  · intro k row' hrow'
    by_cases hk : k = templateId
    · right
      rw [hdraws, hk]
      exact List.mem_cons_self
    · exact .inl ⟨row', (hothers k hk).find ▸ hrow', rfl⟩
  · intro r hr
    rw [hlog] at hr
    rcases Table.mem_insertAll hr with hold | hnew
    · exact .inl hold
    · right
      rw [hdraws]
      exact List.mem_cons_of_mem _ (List.mem_map_of_mem hnew)

/-- The second transaction of a creation. -/
theorem verified_createTemplate (hcall : t.call = .createTemplate cycleId templateId dto rowIds)
    (hlog : ∀ db, t.log db = db) (hnodup : t.call.draws.Nodup)
    (hpending : Pending start t.call s) :
    Verified start t (.created <$> createTemplate cycleId templateId dto rowIds) s := by
  rw [createTemplate]
  cases hmap : mapCourses dto.courses with
  | error e => exact hpending
  | ok courses =>
    simp only [createTemplateRows, Program.bind_eq, Program.map_eq, Program.bind_assoc]
    refine Protocol.wp_attempt hpending (fun _ h => h) fun s₁ _ hgood₁ hp₁ _ _ => ?_
    refine wp_saveCourses hgood₁ hp₁ fun u s₂ hucall huheld hulog _ _ hp₂ _ => ?_
    refine commits_of_does hp₂ fun s₃ _ hgood₃ hp₃ => ⟨?_, ?_⟩
    · refine does_createTemplate (hucall.trans hcall) (hucall ▸ hnodup) hmap (fun db => ?_)
        (huheld (List.mem_append_right _ List.mem_cons_self)) hgood₃ hp₃
      rw [hulog, Context.wrote_log, hlog]
    · intro id cycle hcheck
      rw [hucall, Context.wrote_call, hcall] at hcheck
      cases hcheck

end Create

/-- The row of a template is locked, or there is none. -/
def Standing (id : Uuid) (held : List Row) (s : Committed) : Prop :=
  (.template id ∈ held ∧ (s.db.templates.find id).isSome) ∨ s.db.templates.find id = none

/-- More rows are locked. -/
theorem Standing.mono {id : Uuid} {held more : List Row} (h : Standing id held s)
    (hheld : held ⊆ more) : Standing id more s :=
  h.imp_left fun h => ⟨hheld h.1, h.2⟩

/-- The row of a known template stays locked, or away. -/
theorem Standing.later {id : Uuid} {held : List Row} (h : Standing id held s)
    (hid : Known start s.commits id) (hquiet : Quiet start held s s') : Standing id held s' := by
  rcases h with ⟨hlocked, hsome⟩ | hnone
  · left
    rw [(hquiet.frame id hlocked).find]
    exact ⟨hlocked, hsome⟩
  · exact .inr (hquiet.find_eq_none hid hnone)

/-- A statement locks the row of a template that it sees. -/
theorem standing_lockTemplate {id : Uuid} {held : List Row} {v : Db}
    (hv : v.templates.find id = s.db.templates.find id) :
    Standing id (held ++ lockTemplate id v) s := by
  cases hfind : s.db.templates.find id with
  | none => exact .inr hfind
  | some row =>
    left
    rw [lockTemplate, hv, hfind]
    exact ⟨by simp, rfl⟩

/-- Nobody else changes it. -/
theorem Standing.same {id : Uuid} {held : List Row} (h : Standing id held s)
    (hid : Known start s.commits id) (hgood : Good start s) (hgood' : Good start s')
    (hquiet : Quiet start held s s') : SameTemplate id s.db s'.db := by
  rcases h with ⟨hlocked, _⟩ | hnone
  · exact hquiet.frame id hlocked
  · have hnone' := hquiet.find_eq_none hid hnone
    refine ⟨hnone'.trans hnone.symm, ?_⟩
    rw [hgood.linked.coursesOf_eq_nil hnone, hgood'.linked.coursesOf_eq_nil hnone']

section Update

variable {cycleId templateId : Uuid} {dto : UpdateCycleMaterialTemplateDto} {rowIds : ℕ → Uuid}
  {courses : Option (List TemplateCourse)}

/-- The check before an update: the template is known, and it is in the cycle or gone. -/
theorem owned_of_pending {call : TemplateCall}
    (hcall : call = .updateTemplate cycleId templateId dto rowIds) (hgood : Good start s)
    (hpending : Pending start call s) : Known start s.commits templateId ∧
      ∀ row, s.db.templates.find templateId = some row → row.cycleId = cycleId := by
  subst hcall
  obtain ⟨c, hc, hcheck, hfound⟩ := hpending.2
  exact hgood.owned c hc templateId cycleId hcheck hfound

/-- An update maps its courses first. -/
theorem updateTemplate_eq (templateId : Uuid) (dto : UpdateCycleMaterialTemplateDto)
    (rowIds : ℕ → Uuid) : updateTemplate templateId dto rowIds =
      match dto.mapped with
      | .error e => Program.throw e
      | .ok courses =>
        updateTemplateRows templateId dto (courses.map (courseRows templateId rowIds)) := by
  rw [updateTemplate, UpdateCycleMaterialTemplateDto.mapped]
  cases dto.courses with
  | none => rfl
  | some cs =>
    simp only
    cases mapCourses cs <;> rfl

/-- The rows of the courses of an update have drawn identifiers. -/
theorem draws_updateTemplate {cs : List TemplateCourse} (hmap : dto.mapped = .ok (some cs)) :
    (TemplateCall.updateTemplate cycleId templateId dto rowIds).draws =
      (courseRows templateId rowIds cs).map (·.id) := by
  rw [UpdateCycleMaterialTemplateDto.mapped] at hmap
  rw [map_id_courseRows, TemplateCall.draws]
  cases hdto : dto.courses with
  | none => simp [hdto] at hmap
  | some raw =>
    cases hraw : mapCourses raw with
    | error e => simp [hdto, hraw, Except.map] at hmap
    | ok cs' =>
      obtain rfl : cs' = cs := by simpa [hdto, hraw, Except.map] using hmap
      rw [length_mapCourses hraw]
      rfl

/-- What an update leaves of the database does what it has to. -/
theorem does_updateTemplate (hcall : t.call = .updateTemplate cycleId templateId dto rowIds)
    (hmap : dto.mapped = .ok courses) (hgood : Good start s) (hpending : Pending start t.call s)
    (hstanding : Standing templateId t.held s)
    (hothers : ∀ k, k ≠ templateId → SameTemplate k s.db (t.log s.db))
    (hfind : (t.log s.db).templates.find templateId =
      (s.db.templates.find templateId).map (updateTemplateColumns dto))
    (hcourses : (s.db.templates.find templateId).isSome →
      ((t.log s.db).coursesOf templateId).map (·.course) =
        courses.getD ((s.db.coursesOf templateId).map (·.course)))
    (hlinked : (t.log s.db).Linked)
    (hrows : ∀ r ∈ (t.log s.db).templateCourses.rows,
      r ∈ s.db.templateCourses.rows ∨ r.id ∈ t.call.draws) : Does t s := by
  have hcycle := (owned_of_pending hcall hgood hpending).2
  refine ⟨?_, hlinked, ?_, ?_, hrows⟩
  · rw [hcall, TemplateCall.effect, hmap]
    refine store_eq_update hothers ?_
    simp only [Db.store, hfind]
    cases hrow : s.db.templates.find templateId with
    | none => rfl
    | some row =>
      have hc := hcourses (by simp [hrow])
      have hid := hcycle row hrow
      simp only [Option.map_some, CycleMaterialTemplate.value, Template.updated, hc, hid, if_true]
      simp [updateTemplateColumns, hid]
  · intro k hk
    by_cases hid : k = templateId
    · subst hid
      rcases hstanding with ⟨hlocked, _⟩ | hnone
      · exact absurd hlocked hk
      · have hgone : (t.log s.db).templates.find k = none := by rw [hfind, hnone]; rfl
        refine ⟨hgone.trans hnone.symm, ?_⟩
        rw [hlinked.coursesOf_eq_nil hgone, hgood.linked.coursesOf_eq_nil hnone]
    · exact hothers k hid
  · intro k row' hrow'
    left
    by_cases hid : k = templateId
    · subst hid
      rw [hfind] at hrow'
      obtain ⟨row, hrow, rfl⟩ := Option.map_eq_some_iff.mp hrow'
      exact ⟨row, hrow, rfl⟩
    · exact ⟨row', (hothers k hid).find ▸ hrow', rfl⟩

/-- The writes of an update that leaves the courses alone. -/
theorem does_updateColumns (hcall : t.call = .updateTemplate cycleId templateId dto rowIds)
    (hmap : dto.mapped = .ok none) (hgood : Good start s) (hpending : Pending start t.call s)
    (hstanding : Standing templateId t.held s)
    (hlog : t.log s.db = updateTemplateIn templateId dto s.db) : Does t s := by
  refine does_updateTemplate hcall hmap hgood hpending hstanding ?_ ?_ ?_ ?_ ?_
  · intro k hk
    rw [hlog]
    exact sameTemplate_updateTemplateIn hk
  · rw [hlog, find_updateTemplateIn]
  · intro _
    rw [hlog]
    rfl
  · rw [hlog]
    exact linked_updateTemplateIn hgood.linked dto
  · intro r hr
    rw [hlog] at hr
    exact .inl hr

/-- The writes of an update that replaces the courses. -/
theorem does_updateCourses {cs : List TemplateCourse} {v : Db}
    (hcall : t.call = .updateTemplate cycleId templateId dto rowIds)
    (hmap : dto.mapped = .ok (some cs)) (hnodup : t.call.draws.Nodup) (hgood : Good start s)
    (hpending : Pending start t.call s) (hstanding : Standing templateId t.held s)
    (hlog : t.log s.db = insertCoursesIn (courseRows templateId rowIds cs)
      (deleteCoursesIn templateId v (updateTemplateIn templateId dto s.db)))
    (hv : v.coursesOf templateId = s.db.coursesOf templateId)
    (hparent : ∀ r ∈ courseRows templateId rowIds cs,
      (s.db.templates.find templateId).isSome) : Does t s := by
  have hdraws : t.call.draws = (courseRows templateId rowIds cs).map (·.id) := by
    rw [hcall]
    exact draws_updateTemplate hmap
  have hrows : ∀ r ∈ courseRows templateId rowIds cs, r.templateId = templateId := fun r hr =>
    templateId_of_mem_courseRows templateId rowIds cs hr
  have hfresh : ∀ r ∈ courseRows templateId rowIds cs,
      (deleteCoursesIn templateId v (updateTemplateIn templateId dto s.db)).templateCourses.find
        r.id = none := by
    intro r hr
    have hnew : ¬s.db.Mentions r.id := fun hmention =>
      hpending.1 r.id (hdraws ▸ List.mem_map_of_mem hr) (hgood.known r.id hmention)
    refine Table.find_eq_none.mpr fun a ha hkey => hnew (.inr ?_)
    have hold : s.db.templateCourses.find (key a) = some a :=
      Table.find_of_mem (Table.mem_delete.mp ha).1
    rw [← hkey, hold]
    rfl
  have hempty : (deleteCoursesIn templateId v (updateTemplateIn templateId dto s.db)).coursesOf
      templateId = [] := coursesOf_deleteCoursesIn hv.symm
  refine does_updateTemplate hcall hmap hgood hpending hstanding ?_ ?_ ?_ ?_ ?_
  · intro k hk
    rw [hlog]
    refine ((sameTemplate_updateTemplateIn hk).trans (sameTemplate_deleteCoursesIn hk)).trans
      (sameTemplate_insertCoursesIn fun r hr => ?_)
    rw [hrows r hr]
    exact hk.symm
  · rw [hlog]
    exact find_updateTemplateIn dto s.db templateId
  · intro _
    rw [hlog, coursesOf_insertCoursesIn hrows (hdraws ▸ hnodup) hfresh, hempty, List.nil_append,
      map_course_courseRows]
    rfl
  · rw [hlog]
    refine linked_insertCoursesIn (linked_deleteCoursesIn
      (linked_updateTemplateIn hgood.linked dto)) fun r hr => ?_
    have hfind := find_updateTemplateIn dto s.db templateId
    rw [hrows r hr]
    change ((updateTemplateIn templateId dto s.db).templates.find templateId).isSome
    rw [hfind, Option.isSome_map]
    exact hparent r hr
  · intro r hr
    rw [hlog] at hr
    rcases Table.mem_insertAll hr with hold | hnew
    · exact .inl (Table.mem_delete.mp hold).1
    · right
      rw [hdraws]
      exact List.mem_map_of_mem hnew

/-- The rest of an update that replaces the courses, once the columns have been written. -/
theorem verified_replaceCourses {cs : List TemplateCourse}
    (hcall : t.call = .updateTemplate cycleId templateId dto rowIds)
    (hmap : dto.mapped = .ok (some cs)) (hnodup : t.call.draws.Nodup)
    (hlog : ∀ db, t.log db = updateTemplateIn templateId dto db) (hgood : Good start s)
    (hpending : Pending start t.call s) (hstanding : Standing templateId t.held s) :
    Verified start t ((deleteCourses templateId).bind fun _ =>
      (saveCourses (courseRows templateId rowIds cs)).bind fun _ => .done .done) s := by
  have hknown := (owned_of_pending hcall hgood hpending).1
  refine Protocol.wp_write hpending fun s₁ hafter hgood₁ hp₁ _ => ?_
  have hknown₁ := (owned_of_pending hcall hgood₁ hp₁).1
  have hlocked : ∀ locks, Standing templateId (t.held ++ locks) s₁ := fun locks =>
    (hstanding.later hknown (quiet_of_after hafter)).mono (List.subset_append_left _ _)
  refine wp_saveCourses hgood₁ hp₁ fun u s₂ hucall huheld hulog hquiet₂ hgood₂ hp₂ hparent => ?_
  have hknown₂ := hknown₁.mono hquiet₂.commits
  have hsame₂ := (hlocked _).same hknown₁ hgood₁ hgood₂ hquiet₂
  have hstanding₂ := ((hlocked _).later hknown₁ hquiet₂).mono huheld
  refine commits_of_does hp₂ fun s₃ hquiet₃ hgood₃ hp₃ => ⟨?_, fun id cycle hcheck => ?_⟩
  · have hsame₃ := hstanding₂.same hknown₂ hgood₂ hgood₃ hquiet₃
    refine does_updateCourses (v := t.view s₁) (hucall.trans hcall) hmap (hucall ▸ hnodup) hgood₃
      hp₃ (hstanding₂.later hknown₂ hquiet₃) ?_ ?_ ?_
    · rw [hulog, Context.wrote_log, hlog]
    · rw [(hsame₂.trans hsame₃).courses, Context.view, hlog]
      rfl
    · intro r hr
      have hsome := hparent r hr
      rw [templateId_of_mem_courseRows templateId rowIds cs hr, Context.wrote_log, hlog] at hsome
      change ((updateTemplateIn templateId dto s₂.db).templates.find templateId).isSome at hsome
      rw [find_updateTemplateIn, Option.isSome_map] at hsome
      rw [hsame₃.find]
      exact hsome
  · rw [hucall, Context.wrote_call, hcall] at hcheck
    cases hcheck

/-- The second transaction of an update. -/
theorem verified_updateTemplate (hcall : t.call = .updateTemplate cycleId templateId dto rowIds)
    (hlog : ∀ db, t.log db = db) (hnodup : t.call.draws.Nodup)
    (hpending : Pending start t.call s) :
    Verified start t ((fun _ => .done) <$> updateTemplate templateId dto rowIds) s := by
  rw [updateTemplate_eq]
  cases hmap : dto.mapped with
  | error e => exact hpending
  | ok courses =>
    simp only [updateTemplateRows, Program.bind_eq, Program.map_eq, Program.bind_assoc]
    refine Protocol.wp_attempt hpending (fun _ h => h) fun s₁ _ hgood₁ hp₁ _ _ => ?_
    have hstanding₁ : Standing templateId (t.held ++ lockTemplate templateId (t.view s₁)) s₁ :=
      standing_lockTemplate (by rw [Context.view, hlog])
    have hlog₁ : ∀ db, (t.wrote (lockTemplate templateId (t.view s₁))
        (updateTemplateIn templateId dto)).log db = updateTemplateIn templateId dto db := by
      intro db
      rw [Context.wrote_log, hlog]
    cases courses with
    | none =>
      refine commits_of_does hp₁ fun s₂ hquiet hgood₂ hp₂ => ⟨?_, fun id cycle hcheck => ?_⟩
      · have hknown₁ := (owned_of_pending hcall hgood₁ hp₁).1
        exact does_updateColumns hcall hmap hgood₂ hp₂ (hstanding₁.later hknown₁ hquiet) (hlog₁ _)
      · rw [Context.wrote_call, hcall] at hcheck
        cases hcheck
    | some cs =>
      simp only [Option.map_some, Program.bind_assoc]
      exact verified_replaceCourses hcall hmap hnodup hlog₁ hgood₁ hp₁ hstanding₁

end Update

section Delete

variable {cycleId templateId : Uuid}

/-- The writes of a deletion that finds the template. -/
theorem does_deleteTemplate {v w : Db} (hcall : t.call = .deleteTemplate cycleId templateId)
    (hlog : t.log s.db = deleteTemplateIn templateId v (deleteCoursesIn templateId w s.db))
    (hseen : (v.templates.find templateId).isSome) (hheld : .template templateId ∈ t.held)
    (hgood : Good start s)
    (hcycle : ∀ row, s.db.templates.find templateId = some row → row.cycleId = cycleId) :
    Does t s := by
  have hothers : ∀ k, k ≠ templateId → SameTemplate k s.db (t.log s.db) := by
    intro k hk
    rw [hlog]
    exact (sameTemplate_deleteCoursesIn hk).trans (sameTemplate_deleteTemplateIn hk)
  have hgone : (t.log s.db).templates.find templateId = none := by
    rw [hlog]
    exact find_deleteTemplateIn hseen
  refine ⟨?_, ?_, ?_, ?_, ?_⟩
  · rw [hcall]
    refine store_eq_update hothers ?_
    rw [Db.store, hgone, Option.map_none, Db.store]
    cases hrow : s.db.templates.find templateId with
    | none => rfl
    | some row => simp [CycleMaterialTemplate.value, Option.filter, hcycle row hrow]
  · rw [hlog]
    exact linked_deleteTemplateIn (linked_deleteCoursesIn hgood.linked)
  · exact fun k hk => hothers k fun heq => hk (heq ▸ hheld)
  · intro k row' hrow'
    by_cases hk : k = templateId
    · rw [hk, hgone] at hrow'
      cases hrow'
    · exact .inl ⟨row', (hothers k hk).find ▸ hrow', rfl⟩
  · intro r hr
    left
    rw [hlog, deleteTemplateIn, if_pos hseen] at hr
    exact (Table.mem_delete.mp (Table.mem_delete.mp hr).1).1

/-- A deletion that comes too late does nothing. -/
theorem does_deleteTemplate_of_none {v w : Db}
    (hcall : t.call = .deleteTemplate cycleId templateId)
    (hlog : t.log s.db = deleteTemplateIn templateId v (deleteCoursesIn templateId w s.db))
    (hunseen : v.templates.find templateId = none) (hgood : Good start s)
    (hnone : s.db.templates.find templateId = none) : Does t s := by
  have hsame : t.log s.db = s.db := by
    rw [hlog, deleteCoursesIn_of_nil (hgood.linked.coursesOf_eq_nil hnone), deleteTemplateIn,
      hunseen]
    rfl
  refine does_of_tables hgood (by rw [hsame]) (by rw [hsame]) ?_
  rw [hcall]
  refine Function.update_eq_self_iff.mpr ?_
  rw [Db.store, hnone]
  rfl

/-- The last statement of a deletion. -/
theorem verified_deleteTemplateRow {w : Db} (hcall : t.call = .deleteTemplate cycleId templateId)
    (hlog : ∀ db, t.log db = deleteCoursesIn templateId w db) (hpending : Pending start t.call s)
    (hknown : Known start s.commits templateId)
    (hcycle : ∀ row, s.db.templates.find templateId = some row → row.cycleId = cycleId) :
    Verified start t ((Program.write (fun v => lockTemplate templateId v ++
        (v.coursesOf templateId).map fun r => .templateCourse r.id)
      (deleteTemplateIn templateId) fun _ => ()).bind fun _ => .done .done) s := by
  refine Protocol.wp_write hpending fun s₁ hafter _ hp₁ _ => ?_
  have hquiet₁ := quiet_of_after hafter
  have hknown₁ := hknown.mono hquiet₁.commits
  have hview : (t.view s₁).templates = s₁.db.templates := by
    rw [Context.view, hlog]
    rfl
  refine commits_of_does hp₁ fun s₂ hquiet₂ hgood₂ _ => ⟨?_, fun id cycle hcheck => ?_⟩
  · cases hfind : s₁.db.templates.find templateId with
    | none =>
      refine does_deleteTemplate_of_none (v := t.view s₁) (w := w) hcall ?_ ?_ hgood₂
        (hquiet₂.find_eq_none hknown₁ hfind)
      · rw [Context.wrote_log, hlog]
      · rw [hview, hfind]
    | some row =>
      refine does_deleteTemplate (v := t.view s₁) (w := w) hcall ?_ ?_ ?_ hgood₂ ?_
      · rw [Context.wrote_log, hlog]
      · rw [hview, hfind]
        rfl
      · rw [Context.wrote_held, lockTemplate, hview, hfind]
        simp
      · intro row₂ hrow₂
        obtain ⟨row₁, hrow₁, heq₁⟩ := hquiet₂.cycle templateId hknown₁ row₂ hrow₂
        obtain ⟨row₀, hrow₀, heq₀⟩ := hquiet₁.cycle templateId hknown row₁ hrow₁
        rw [heq₁, heq₀, hcycle row₀ hrow₀]
  · rw [Context.wrote_call, hcall] at hcheck
    cases hcheck

/-- The rows of a deletion: the courses go first, then the template with what is left. -/
theorem verified_deleteTemplateRows (hcall : t.call = .deleteTemplate cycleId templateId)
    (hlog : ∀ db, t.log db = db) (hpending : Pending start t.call s)
    (hknown : Known start s.commits templateId)
    (hcycle : ∀ row, s.db.templates.find templateId = some row → row.cycleId = cycleId) :
    Verified start t ((deleteTemplateRows templateId).bind fun _ => .done .done) s := by
  simp only [deleteTemplateRows, deleteCourses, Program.bind_eq, Program.bind_assoc]
  refine Protocol.wp_write hpending fun s₁ hafter _ hp₁ _ => ?_
  have hquiet := quiet_of_after hafter
  refine verified_deleteTemplateRow (w := t.view s₁) hcall ?_ hp₁ (hknown.mono hquiet.commits) ?_
  · intro db
    rw [Context.wrote_log, hlog]
  · intro row₁ hrow₁
    obtain ⟨row₀, hrow₀, heq⟩ := hquiet.cycle templateId hknown row₁ hrow₁
    exact heq.trans (hcycle row₀ hrow₀)

/-- The transaction of a deletion. -/
theorem verified_deleteTemplate (hcall : t.call = .deleteTemplate cycleId templateId)
    (hlog : ∀ db, t.log db = db) (hpending : Pending start t.call s) :
    Verified start t ((fun _ => .done) <$> deleteTemplate cycleId templateId) s := by
  simp only [deleteTemplate, getTemplateInCycle, Program.bind_eq, Program.map_eq,
    Program.bind_assoc]
  refine Protocol.wp_read hpending fun s₁ _ hgood₁ hp₁ => ?_
  rw [Context.view, hlog]
  cases hfind : s₁.db.templates.find templateId with
  | none => exact hp₁
  | some row =>
    cases hcycle : row.cycleId == cycleId with
    | false =>
      simp only [Option.any_some, hcycle, Bool.false_eq_true, if_false]
      exact hp₁
    | true =>
      simp only [Option.any_some, hcycle, if_true, Program.bind_assoc]
      refine Protocol.wp_read hp₁ fun s₂ hafter _ hp₂ => ?_
      have hquiet := quiet_of_after hafter
      have hknown := hgood₁.known templateId (.inl (by simp [hfind]))
      split
      · refine verified_deleteTemplateRows hcall hlog hp₂ (hknown.mono hquiet.commits) ?_
        intro row₂ hrow₂
        obtain ⟨row₁, hrow₁, heq⟩ := hquiet.cycle templateId hknown row₂ hrow₂
        rw [hfind] at hrow₁
        cases hrow₁
        exact heq.trans (beq_iff_eq.mp hcycle)
      · exact hp₂

end Delete

section Runs

/-- Open transactions have drawn different identifiers. -/
def DrawnApart (s : State) : Prop :=
  ∀ t ∈ s.active, ∀ u ∈ s.active, t.id ≠ u.id → t.call.draws.Disjoint u.call.draws

/-- The next statement of a transaction draws nothing. -/
theorem drawnApart_replace {s : State} (h : DrawnApart s)
    {t u : Transaction TemplateCall Db Row Empty HttpError TemplateAnswer} (ht : t ∈ s.active)
    (hid : u.id = t.id) (hcall : u.call = t.call) : DrawnApart (s.replace u) := by
  have hold := System.exists_call_of_mem_replace ht hid hcall
  intro w hw x hx hne
  obtain ⟨w', hw', hwid, hwcall⟩ := hold w hw
  obtain ⟨x', hx', hxid, hxcall⟩ := hold x hx
  rw [← hwcall, ← hxcall]
  exact h w' hw' x' hx' fun heq => hne (hwid.symm.trans (heq.trans hxid))

/-- **Step lemma:** identifiers that are drawn in order stay apart. -/
theorem drawnApart_of_step {s s' : State} {e : Event TemplateCall} (h : DrawnApart s)
    (hcond : InOrder start s e) (hstep : templates.step s e = some s') : DrawnApart s' := by
  cases Machine.moves_of_step hstep with
  | start call =>
    have hnew : ∀ t ∈ s.active, call.draws.Disjoint t.call.draws := fun t ht i hi hold =>
      ((hcond call rfl).2.2 i hi).2.2 t ht hold
    intro t ht u hu hne
    rcases List.mem_append.mp ht with ht | ht <;> rcases List.mem_append.mp hu with hu | hu
    · exact h t ht u hu hne
    · obtain rfl := List.mem_singleton.mp hu
      exact (hnew t ht).symm
    · obtain rfl := List.mem_singleton.mp ht
      exact hnew u hu
    · obtain rfl := List.mem_singleton.mp ht
      obtain rfl := List.mem_singleton.mp hu
      exact absurd rfl hne
  | commit t a ht hp =>
    exact fun u hu w hw => h u (List.mem_filter.mp hu).1 w (List.mem_filter.mp hw).1
  | statement t locks write next ht hp hfree => exact drawnApart_replace h ht rfl rfl
  | enqueue t job next ht hp => exact drawnApart_replace h ht rfl rfl
  | rollback _ t ht =>
    exact fun u hu w hw => h u (List.mem_filter.mp hu).1 w (List.mem_filter.mp hw).1

/-- The condition on the run, with what is known of the states that such runs reach. -/
def Orderly (start : Db) (s : State) (e : Event TemplateCall) : Prop :=
  InOrder start s e ∧ DrawnApart s

/-- Every call keeps the protocol. -/
theorem templateProtocol_sound (start : Db) :
    (templateProtocol start).Sound templates (Orderly start) where
  starts := by
    intro s call _ hcond
    obtain ⟨hchecked, hnodup, hnew⟩ := hcond.1 call rfl
    have hpending : Pending start call s.toSnapshot := by
      refine ⟨fun i hi hknown => ?_, hchecked⟩
      obtain ⟨hstart, hcommits, _⟩ := hnew i hi
      rcases hknown with hmention | ⟨c, hc, hdrawn⟩
      · exact hstart hmention
      · exact hcommits c hc hdrawn
    cases call with
    | getCycleWithSyllabus cycleId =>
      exact verified_getCycleWithSyllabus rfl (fun _ => rfl) hpending
    | createTemplate cycleId templateId dto rowIds =>
      exact verified_createTemplate rfl (fun _ => rfl) hnodup hpending
    | getTemplateInCycle templateId cycleId =>
      exact verified_getTemplateInCycle rfl (fun _ => rfl) hpending
    | updateTemplate cycleId templateId dto rowIds =>
      exact verified_updateTemplate rfl (fun _ => rfl) hnodup hpending
    | deleteTemplate cycleId templateId =>
      exact verified_deleteTemplate rfl (fun _ => rfl) hpending
    | elsewhere change => exact verified_elsewhere rfl (fun _ => rfl) hpending
  pre _ _ _ _ _ _ _ _ _ := trivial
  preCommit _ _ _ _ _ _ _ := trivial
  stable := by
    intro s t u a hs ht hu hid _ hcond _ hguar
    obtain ⟨hnew, hchecked⟩ := Protocol.local_of_wp (hs.wp u hu)
    refine ⟨fun i hi hknown => ?_, hchecked.mono hguar.commits⟩
    rcases known_commit hknown with hold | hdrawn
    · exact hnew i hi hold
    · exact hcond.2 t ht u hu (fun heq => hid heq.symm) hdrawn hi

/-- **Run lemma:** a run in order is consistent, with identifiers drawn apart. -/
theorem consistent_of_reaches (hstart : start.Linked) {s : State}
    (h : templates.Reaches (InOrder start) (System.idle start) s) :
    (templateProtocol start).Consistent templates s ∧ DrawnApart s := by
  induction h with
  | refl =>
    refine ⟨Protocol.consistent_idle ⟨rfl, hstart, fun _ h => .inl h, ?_⟩, ?_⟩
    · intro c hc
      cases hc
    · intro t ht
      cases ht
  | tail _ hstep ih =>
    obtain ⟨e, hcond, hs⟩ := hstep
    exact ⟨Protocol.consistent_of_step (templateProtocol_sound start) ih.1 ⟨hcond, ih.2⟩ hs,
      drawnApart_of_step ih.2 hcond hs⟩

end Runs

/-- **Concurrent edits of templates serialise:** however creations, updates and deletions of
templates interleave, with the checks of the first two in transactions of their own, the templates
are at any time those that the committed calls leave one after the other in the order of their
commits. The courses of two updates never mix, no course is without its template, and a call
through one cycle never changes a template of another one. -/
theorem templates_replay (start : Db) (hstart : start.Linked) (s : State)
    (h : templates.Reaches (InOrder start) (System.idle start) s) :
    s.db.store = replay TemplateCall.effect start.store s.commits ∧ s.db.Linked := by
  have hgood := (consistent_of_reaches hstart h).1.inv
  exact ⟨hgood.replays, hgood.linked⟩

/-- A cycle with a template of one course. -/
def oneTemplate : Db where
  catalog := [3]
  elsewhere := ⟨[⟨1, false⟩], []⟩
  templates := Table.empty.insert ⟨5, 1, "Balotario", .currentWeek, none⟩
  templateCourses := Table.empty.insert ⟨10, 5, ⟨3, 2, 2, 0, 0, by decide, rfl⟩⟩

/-- An update of the template that replaces its course. -/
def replaceCourse (name : String) (easyCount : ℕ) (rowId : Uuid) : TemplateCall :=
  .updateTemplate 1 5
    ⟨some (some name), none, none, some [⟨3, easyCount + 1, some (easyCount + 1), none, none, by simp⟩]⟩
    fun i => rowId + i

/-- Two updates that overlap, after a check of both. -/
def overlappingUpdates : List (Event TemplateCall) :=
  [.start (.getTemplateInCycle 5 1), .exec 0, .exec 0, .start (replaceCourse "A" 3 20),
    .start (replaceCourse "B" 5 30), .exec 1, .exec 1, .exec 1, .exec 1, .exec 2, .exec 2, .exec 2,
    .exec 2]

/-- The state after them. -/
def overlappedState : State := templates.endState (System.idle oneTemplate) overlappingUpdates

/-- The updates are in order. -/
theorem reaches_overlappedState :
    templates.Reaches (InOrder oneTemplate) (System.idle oneTemplate) overlappedState := by
  refine Machine.reaches_endState_of_steps rfl fun n e he call hcall => ?_
  subst hcall
  match n, he with
  | 1, he | 2, he | 5, he | 6, he | 7, he | 8, he | 9, he | 10, he | 11, he | 12, he => cases he
  | 0, he =>
    cases he
    exact ⟨trivial, List.nodup_nil, fun i hi => nomatch hi⟩
  | 3, he =>
    cases he
    refine ⟨⟨⟨.getTemplateInCycle 5 1, 0, .found true, []⟩, List.mem_singleton_self _, rfl, rfl⟩,
      List.nodup_singleton _, fun i hi => ?_⟩
    obtain rfl := List.mem_singleton.mp hi
    refine ⟨by decide, fun c hc => ?_, fun t ht => nomatch ht⟩
    obtain rfl := List.mem_singleton.mp hc
    exact List.not_mem_nil
  | 4, he =>
    cases he
    refine ⟨⟨⟨.getTemplateInCycle 5 1, 0, .found true, []⟩, List.mem_singleton_self _, rfl, rfl⟩,
      List.nodup_singleton _, fun i hi => ?_⟩
    obtain rfl := List.mem_singleton.mp hi
    refine ⟨by decide, fun c hc => ?_, fun t ht => ?_⟩
    · obtain rfl := List.mem_singleton.mp hc
      exact List.not_mem_nil
    · obtain rfl := List.mem_singleton.mp ht
      decide

/-- The later update has replaced the courses of the earlier one. -/
theorem templates_replay_overlapping :
    (overlappedState.db.store 5).map (fun t => (t.name, t.courses.map (·.questionsQuantity))) =
      some ("B", [6]) ∧
    overlappedState.db.store =
      replay TemplateCall.effect oneTemplate.store overlappedState.commits ∧
    overlappedState.db.Linked :=
  ⟨rfl, templates_replay oneTemplate (by unfold Db.Linked; decide) overlappedState
    reaches_overlappedState⟩

end Odiseo.Templates
