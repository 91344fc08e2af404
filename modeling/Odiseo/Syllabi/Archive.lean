import Odiseo.Syllabi.UseCase

/-!
# Syllabi of a deactivated cycle

Hiding a cycle archives its syllabi. Nothing else looks at the flag of the cycle, so the syllabi of
a hidden cycle stay archived as long as no call creates one there, or makes one active again.
-/

namespace Odiseo.Syllabi

open Database

/-- A call of the two use cases. -/
inductive Call
  | createCycle (dto : CreateCycle) (cycleId : Uuid) (weekIds : ℕ → Uuid)
  | updateCycle (id : Uuid) (dto : UpdateCycle) (weekIds : ℕ → Uuid)
  | toggleCycleVisibility (id : Uuid) (isActive : Bool)
  | create (dto : CreateSyllabus) (id : Uuid)
  | archiveSyllabus (id : Uuid) (isActive : Bool)
  | cloneSyllabus (syllabusId sourceSyllabusId : Uuid) (rowIds : ℕ → Uuid)
  | cloneCycleSyllabuses (targetCycleId sourceCycleId : Uuid) (ids : CloneIds)

/-- What a call runs. -/
def transactionOf (normalize : String → String) : Call → Tx Unit
  | .createCycle dto cycleId weekIds => (createCycle dto cycleId weekIds).bind fun _ => pure ()
  | .updateCycle id dto weekIds => updateCycle id dto weekIds
  | .toggleCycleVisibility id isActive => toggleCycleVisibility id isActive
  | .create dto id => (create dto id).bind fun _ => pure ()
  | .archiveSyllabus id isActive => archiveSyllabus id isActive
  | .cloneSyllabus syllabusId sourceSyllabusId rowIds =>
    (cloneSyllabus normalize syllabusId sourceSyllabusId none rowIds).bind fun _ => pure ()
  | .cloneCycleSyllabuses targetCycleId sourceCycleId ids =>
    (cloneCycleSyllabuses normalize targetCycleId sourceCycleId ids).bind fun _ => pure ()

/-- The database after a call. A call that throws is rolled back. -/
def perform (normalize : String → String) (db : Db) (call : Call) : Db :=
  match (transactionOf normalize call).run db with
  | .ok (_, db', _) => db'
  | .error _ => db

/-- The states of a run: the first one, and the one after each call. -/
def states (normalize : String → String) : Db → List Call → List Db
  | db, [] => [db]
  | db, call :: calls => db :: states normalize (perform normalize db call) calls

/-- The cycle is there and deactivated. -/
def Db.Deactivated (db : Db) (cycleId : Uuid) : Prop :=
  ∃ c ∈ db.cycles.rows, c.id = cycleId ∧ c.isActive = false

/-- A deactivated cycle has no active syllabus. -/
def Db.ArchivedWithCycle (db : Db) : Prop :=
  ∀ s ∈ db.syllabuses.rows, db.Deactivated s.cycleId → s.isActive = false

instance (db : Db) (cycleId : Uuid) : Decidable (db.Deactivated cycleId) :=
  inferInstanceAs (Decidable (∃ c ∈ db.cycles.rows, c.id = cycleId ∧ c.isActive = false))

instance (db : Db) : Decidable db.ArchivedWithCycle :=
  inferInstanceAs (Decidable (∀ s ∈ db.syllabuses.rows,
    db.Deactivated s.cycleId → s.isActive = false))

/-- The cycle that a call gives an active syllabus. -/
def Call.revives (db : Db) : Call → Option Uuid
  | .create dto _ => some dto.cycleId
  | .archiveSyllabus id true => (db.syllabuses.find id).map (·.cycleId)
  | .cloneCycleSyllabuses targetCycleId _ _ => some targetCycleId
  | _ => none

/-- A call that gives a deactivated cycle an active syllabus is refused. -/
def Call.Spares (normalize : String → String) (db : Db) (call : Call) : Prop :=
  ∀ cycleId, call.revives db = some cycleId → db.Deactivated cycleId →
    ∃ e, (transactionOf normalize call).run db = .error e

/-- Each call of a run spares the deactivated cycles of its state. -/
def SparesDeactivated (normalize : String → String) : Db → List Call → Prop
  | _, [] => True
  | db, call :: calls =>
    call.Spares normalize db ∧ SparesDeactivated normalize (perform normalize db call) calls

/-- In every state of a run, no deactivated cycle has an active syllabus. -/
def StaysArchived (normalize : String → String) (db : Db) (calls : List Call) : Prop :=
  ∀ state ∈ states normalize db calls, state.ArchivedWithCycle

/-- What of the database the flags are: those of the cycles and of the syllabi. -/
def Db.flags (db : Db) : List (Uuid × Bool) × List (Uuid × Uuid × Bool) :=
  (db.cycles.rows.map fun c => (c.id, c.isActive),
    db.syllabuses.rows.map fun s => (s.id, s.cycleId, s.isActive))

/-- The cycle has an active syllabus. -/
def Db.HasActive (db : Db) (cycleId : Uuid) : Prop :=
  ∃ s ∈ db.syllabuses.rows, s.cycleId = cycleId ∧ s.isActive = true

section Flags

variable {db db' : Db}

/-- A deactivated cycle is known by the flags. -/
theorem deactivated_iff (db : Db) (cycleId : Uuid) :
    db.Deactivated cycleId ↔ (cycleId, false) ∈ db.flags.1 := by
  unfold Db.Deactivated Db.flags
  simp only [List.mem_map, Prod.mk.injEq]

/-- An active syllabus is known by the flags. -/
theorem hasActive_iff (db : Db) (cycleId : Uuid) :
    db.HasActive cycleId ↔ ∃ id, (id, cycleId, true) ∈ db.flags.2 := by
  unfold Db.HasActive Db.flags
  simp only [List.mem_map, Prod.mk.injEq]
  constructor
  · rintro ⟨s, hs, hcycle, hactive⟩
    exact ⟨s.id, s, hs, rfl, hcycle, hactive⟩
  · rintro ⟨_, s, hs, _, hcycle, hactive⟩
    exact ⟨s, hs, hcycle, hactive⟩

/-- No cycle is deactivated and has an active syllabus. -/
theorem archivedWithCycle_iff (db : Db) :
    db.ArchivedWithCycle ↔ ∀ cycleId, db.Deactivated cycleId → ¬db.HasActive cycleId := by
  constructor
  · rintro harchived cycleId hdeactivated ⟨s, hs, rfl, hactive⟩
    rw [harchived s hs hdeactivated] at hactive
    cases hactive
  · intro hnone s hs hdeactivated
    by_contra hactive
    exact hnone s.cycleId hdeactivated ⟨s, hs, rfl, Bool.not_eq_false _ ▸ hactive⟩

/-- The same flags deactivate the same cycles. -/
theorem Db.Deactivated.of_flags (hflags : db'.flags = db.flags) {cycleId : Uuid} :
    db'.Deactivated cycleId ↔ db.Deactivated cycleId := by
  rw [deactivated_iff, deactivated_iff, hflags]

/-- The same flags give the same cycles active syllabi. -/
theorem Db.HasActive.of_flags (hflags : db'.flags = db.flags) {cycleId : Uuid} :
    db'.HasActive cycleId ↔ db.HasActive cycleId := by
  rw [hasActive_iff, hasActive_iff, hflags]

/-- The same flags keep the invariant. -/
theorem archivedWithCycle_of_flags (hflags : db'.flags = db.flags) :
    db'.ArchivedWithCycle ↔ db.ArchivedWithCycle := by
  rw [archivedWithCycle_iff, archivedWithCycle_iff]
  simp only [Db.Deactivated.of_flags hflags, Db.HasActive.of_flags hflags]

end Flags

/-- A change that leaves the flags as they are. -/
def KeepsFlags (v : Db) (_ : List Row) (change : Db → Db) : Prop := (change v).flags = v.flags

section Writes

variable {normalize : String → String}

/-- What the update of a cycle writes: its columns and its weeks. -/
inductive CalendarWrite : (Db → Db) → Prop
  | nothing : CalendarWrite fun db => db
  | updateCycle (id : Uuid) (dto : UpdateCycle) (weeks : List CycleWeek) :
    CalendarWrite (updateCycleIn id dto weeks)
  | saveWeek (week : CycleWeek) : CalendarWrite (saveWeekIn week)
  | softDeleteWeeks (ids : List Uuid) : CalendarWrite (softDeleteWeeksIn ids)

/-- Saving weeks writes weeks. -/
theorem calendarWrites_saveWeeksSafely (weeks : List CycleWeek) :
    (saveWeeksSafely weeks).Writes fun _ _ change => CalendarWrite change :=
  writes_forEach weeks fun week _ =>
    Program.writes_attempt (fun _ => .nothing) fun _ _ => .saveWeek week

/-- The creation of a cycle writes the cycle as well. -/
theorem calendarWrites_createCycle (dto : CreateCycle) (cycleId : Uuid) (weekIds : ℕ → Uuid) :
    (createCycle dto cycleId weekIds).Writes fun _ _ change =>
      CalendarWrite change ∨ ∃ cycle, change = insertCycleIn cycle := by
  unfold createCycle
  dsimp only
  split
  · trivial
  · refine Program.Writes.bind ?_ fun _ => Program.Writes.bind ?_ fun _ => trivial
    · exact Program.writes_attempt (fun _ => Or.inl .nothing) fun _ _ => Or.inr ⟨_, rfl⟩
    · exact (calendarWrites_saveWeeksSafely _).mono fun _ _ _ => Or.inl

/-- What the update of a cycle writes. -/
theorem calendarWrites_updateCycle (id : Uuid) (dto : UpdateCycle) (weekIds : ℕ → Uuid) :
    (updateCycle id dto weekIds).Writes fun _ _ change => CalendarWrite change := by
  have hselect : ∀ {α : Type} (f : Db → α),
      (Program.select f : Tx α).Writes fun _ _ change => CalendarWrite change :=
    fun f => Program.writes_select (fun _ => .nothing) f
  have hwrite : ∀ weeks, (writeCycle id dto weeks).Writes fun _ _ change =>
      CalendarWrite change := by
    intro weeks
    refine Program.Writes.bind (fun v => ⟨.updateCycle id dto weeks, trivial⟩) fun _ => ?_
    split
    · trivial
    · refine (hselect _).bind fun currentWeeks => ?_
      exact Program.Writes.bind (fun _ => ⟨.softDeleteWeeks _, trivial⟩) fun _ =>
        calendarWrites_saveWeeksSafely weeks
  refine (hselect _).bind fun existingCycle => ?_
  cases existingCycle with
  | none => trivial
  | some existing =>
    obtain ⟨cycle, hasSyllabus⟩ := existing
    dsimp only
    split
    · trivial
    · split
      · exact (hselect _).bind fun _ => hwrite _
      · exact hwrite []

/-- The columns of a cycle are written beside its flag. -/
theorem flags_updateCycleIn (id : Uuid) (dto : UpdateCycle) (weeks : List CycleWeek) (db : Db) :
    (updateCycleIn id dto weeks db).flags = db.flags := by
  unfold Db.flags updateCycleIn Table.modify
  simp only [List.map_map]
  congr 1
  refine List.map_congr_left fun c _ => ?_
  simp only [Function.comp_apply]
  split <;> rfl

/-- An edit of a cycle leaves the flags as they are. -/
theorem flags_of_calendarWrite {change : Db → Db} (h : CalendarWrite change) (v : Db) :
    (change v).flags = v.flags := by
  cases h with
  | nothing => rfl
  | updateCycle id dto weeks => exact flags_updateCycleIn id dto weeks v
  | saveWeek week => rfl
  | softDeleteWeeks ids => rfl

/-- An update of a cycle leaves the flags as they are. -/
theorem writes_updateCycle (id : Uuid) (dto : UpdateCycle) (weekIds : ℕ → Uuid) :
    (updateCycle id dto weekIds).Writes KeepsFlags :=
  (calendarWrites_updateCycle id dto weekIds).mono fun v _ _ hchange =>
    flags_of_calendarWrite hchange v

/-- The template of a syllabus is written beside its flag. -/
theorem flags_setTemplateIn (syllabusId templateId : Uuid) (db : Db) :
    (setTemplateIn syllabusId templateId db).flags = db.flags := by
  unfold Db.flags setTemplateIn Table.modify
  simp only [List.map_map]
  congr 1
  refine List.map_congr_left fun s _ => ?_
  simp only [Function.comp_apply]
  split <;> rfl

/-- What the cloning of a syllabus writes: distributions, and the template of a syllabus. -/
inductive CloneWrite : (Db → Db) → Prop
  | nothing : CloneWrite fun db => db
  | insertDistribution (dist : SyllabusDistribution) : CloneWrite (insertDistributionIn dist)
  | clearDistributions (syllabusId : Uuid) : CloneWrite (clearDistributionsIn syllabusId)
  | setTemplate (syllabusId templateId : Uuid) : CloneWrite (setTemplateIn syllabusId templateId)

/-- The mapping of the templates is only read. -/
theorem cloneWrites_buildTemplateMapping (source target : Syllabus)
    (distributions : List SyllabusDistribution) :
    (buildTemplateMapping normalize source target distributions).Writes
      fun _ _ change => CloneWrite change := by
  unfold buildTemplateMapping
  dsimp only
  split
  · trivial
  · split
    · trivial
    · refine (Program.writes_select (fun _ => .nothing) _).bind fun sourceTemplates => ?_
      refine (Program.writes_select (fun _ => .nothing) _).bind fun targetTemplates => ?_
      split
      · trivial
      · split <;> trivial

/-- Copying distributions inserts them. -/
theorem cloneWrites_copyDistributions (rows : List SyllabusDistribution) :
    (copyDistributions rows).Writes fun _ _ change => CloneWrite change := by
  unfold copyDistributions
  dsimp only
  split
  · exact writes_forEach rows fun dist _ =>
      Program.writes_attempt (fun _ => .nothing) fun _ _ => .insertDistribution dist
  · trivial

/-- **What the cloning of a syllabus writes.** -/
theorem cloneWrites_cloneSyllabus (syllabusId sourceSyllabusId : Uuid)
    (targetActiveWeeks : Option (List ℕ)) (rowIds : ℕ → Uuid) :
    (cloneSyllabus normalize syllabusId sourceSyllabusId targetActiveWeeks rowIds).Writes
      fun _ _ change => CloneWrite change := by
  have hselect : ∀ {α : Type} (f : Db → α),
      (Program.select f : Tx α).Writes fun _ _ change => CloneWrite change :=
    fun f => Program.writes_select (fun _ => .nothing) f
  refine (hselect _).bind fun targetSyllabus => ?_
  cases targetSyllabus with
  | none => trivial
  | some target =>
    refine (hselect _).bind fun sourceSyllabus => ?_
    cases sourceSyllabus with
    | none => trivial
    | some source =>
      have hrest : ∀ activeWeeks : List ℕ, ((getSummaryBySyllabus source.id).bind
          fun sourceDistributions =>
            (buildTemplateMapping normalize source target sourceDistributions).bind
              fun templateMap => (clearExistingDistributions target.id).bind fun _ =>
                (copyDistributions (distributionsToCreate source target templateMap activeWeeks
                  rowIds sourceDistributions)).bind fun _ =>
                    (setDefaultTemplate source target templateMap).bind fun _ =>
                      getSummaryBySyllabus target.id).Writes fun _ _ change =>
                        CloneWrite change := by
        intro activeWeeks
        refine (hselect _).bind fun sourceDistributions => ?_
        refine (cloneWrites_buildTemplateMapping source target _).bind fun templateMap => ?_
        refine Program.Writes.bind (fun _ => ⟨.clearDistributions _, trivial⟩) fun _ => ?_
        refine (cloneWrites_copyDistributions _).bind fun _ => ?_
        refine Program.Writes.bind ?_ fun _ => hselect _
        unfold setDefaultTemplate
        split
        · trivial
        · exact fun v => ⟨.setTemplate _ _, trivial⟩
      cases targetActiveWeeks with
      | none => exact (hselect _).bind hrest
      | some weeks => exact hrest weeks

/-- A clone leaves the flags as they are. -/
theorem flags_of_cloneWrite {change : Db → Db} (h : CloneWrite change) (v : Db) :
    (change v).flags = v.flags := by
  cases h with
  | nothing => rfl
  | insertDistribution dist => rfl
  | clearDistributions syllabusId => rfl
  | setTemplate syllabusId templateId => exact flags_setTemplateIn _ _ v

/-- The cloning of a syllabus leaves the flags as they are. -/
theorem writes_cloneSyllabus (syllabusId sourceSyllabusId : Uuid)
    (targetActiveWeeks : Option (List ℕ)) (rowIds : ℕ → Uuid) :
    (cloneSyllabus normalize syllabusId sourceSyllabusId targetActiveWeeks rowIds).Writes
      KeepsFlags :=
  (cloneWrites_cloneSyllabus _ _ _ _).mono fun v _ _ hchange => flags_of_cloneWrite hchange v

/-- A run that keeps the flags at each statement keeps them. -/
theorem flags_of_run {α : Type} {p : Tx α} (hp : p.Writes KeepsFlags) {db db' : Db} {a : α}
    {jobs : List Empty} (h : p.run db = .ok (a, db', jobs)) : db'.flags = db.flags := by
  have hkeeps : p.Writes fun v _ change => v.flags = db.flags → (change v).flags = db.flags :=
    hp.mono fun _ _ _ hchange hv => hchange.trans hv
  exact hkeeps.of_run rfl h

end Writes

section Steps

variable {normalize : String → String} {db db' : Db}

/-- A syllabus whose key is free is inserted. -/
theorem mem_insertSyllabusIn {syllabus s : Syllabus} (hfree : syllabusRefusal syllabus db = none) :
    s ∈ (insertSyllabusIn syllabus db).syllabuses.rows ↔
      s ∈ db.syllabuses.rows ∨ s = syllabus := by
  have hkey : db.syllabuses.find syllabus.id = none := by
    unfold syllabusRefusal at hfree
    cases hfind : db.syllabuses.find syllabus.id with
    | none => rfl
    | some _ =>
      rw [hfind] at hfree
      simp at hfree
  have hnot : key syllabus ∉ db.syllabuses.rows.map key := by
    intro hmem
    obtain ⟨r, hr, hkeyr⟩ := List.mem_map.mp hmem
    exact Table.find_eq_none.mp hkey r hr hkeyr
  unfold insertSyllabusIn Table.insert
  rw [dif_neg hnot, List.mem_append, List.mem_singleton]

/-- A new active syllabus makes its cycle have one, and changes nothing for the others. -/
theorem hasActive_insertSyllabusIn {syllabus : Syllabus} (hactive : syllabus.isActive = true)
    (hfree : syllabusRefusal syllabus db = none) (cycleId : Uuid) :
    (insertSyllabusIn syllabus db).HasActive cycleId ↔
      db.HasActive cycleId ∨ syllabus.cycleId = cycleId := by
  unfold Db.HasActive
  simp only [mem_insertSyllabusIn hfree]
  constructor
  · rintro ⟨s, hs | rfl, hcycle, hs'⟩
    · exact Or.inl ⟨s, hs, hcycle, hs'⟩
    · exact Or.inr hcycle
  · rintro (⟨s, hs, hcycle, hs'⟩ | hcycle)
    · exact ⟨s, Or.inl hs, hcycle, hs'⟩
    · exact ⟨syllabus, Or.inr rfl, hcycle, hactive⟩

/-- What a call that changes syllabi only keeps of the cycles. -/
theorem deactivated_insertSyllabusIn (syllabus : Syllabus) (cycleId : Uuid) :
    (insertSyllabusIn syllabus db).Deactivated cycleId ↔ db.Deactivated cycleId := Iff.rfl

/-- Inserting an active syllabus keeps the invariant when its cycle is not deactivated. -/
theorem archivedWithCycle_insert_iff {syllabus : Syllabus} (hactive : syllabus.isActive = true)
    (hfree : syllabusRefusal syllabus db = none) :
    (insertSyllabusIn syllabus db).ArchivedWithCycle ↔
      db.ArchivedWithCycle ∧ ¬db.Deactivated syllabus.cycleId := by
  rw [archivedWithCycle_iff, archivedWithCycle_iff]
  simp only [hasActive_insertSyllabusIn hactive hfree, deactivated_insertSyllabusIn, not_or]
  constructor
  · intro hnone
    exact ⟨fun cycleId hdeactivated => (hnone cycleId hdeactivated).1,
      fun hdeactivated => (hnone _ hdeactivated).2 rfl⟩
  · rintro ⟨hnone, hcycle⟩ cycleId hdeactivated
    refine ⟨hnone cycleId hdeactivated, ?_⟩
    rintro rfl
    exact hcycle hdeactivated

/-- A syllabus that is not refused is inserted. -/
theorem of_run_createSyllabus {s : Syllabus} {out : Unit} {jobs : List Empty}
    (h : (createSyllabus s).run db = .ok (out, db', jobs)) :
    syllabusRefusal s db = none ∧ db' = insertSyllabusIn s db := by
  unfold createSyllabus at h
  rw [run_insertUnless] at h
  split at h
  · cases h
  · rename_i hfree
    cases h
    exact ⟨hfree, rfl⟩

/-- A creation that is not refused inserts its syllabus. -/
theorem of_run_create {dto : CreateSyllabus} {id : Uuid} {out : Syllabus} {jobs : List Empty}
    (h : (create dto id).run db = .ok (out, db', jobs)) :
    syllabusRefusal (newSyllabus dto id) db = none ∧
      db' = insertSyllabusIn (newSyllabus dto id) db := by
  unfold create findByCourseAndCycle at h
  simp only [Program.bind_eq, Program.run_select_bind] at h
  split at h
  · cases h
  · simp only [Program.run_select_bind] at h
    split at h
    · cases h
    · obtain ⟨_, db₁, _, _, hinsert, hdone, _⟩ := Program.of_run_bind h
      cases hdone
      exact of_run_createSyllabus hinsert

/-- What the cloning of a cycle writes: clones, and active syllabi of the target cycle. -/
theorem cloneWrites_cloneEach {ids : CloneIds} {targetCycleId : Uuid} {targetActiveWeeks : List ℕ}
    {existingTargets : List Syllabus} (i : ℕ) (sources : List Syllabus) :
    (cloneEach normalize ids targetCycleId targetActiveWeeks existingTargets i sources).Writes
      fun v _ change => CloneWrite change ∨ ∃ s : Syllabus, s.cycleId = targetCycleId ∧
        s.isActive = true ∧ syllabusRefusal s v = none ∧ change = insertSyllabusIn s := by
  induction sources generalizing i with
  | nil => trivial
  | cons source sources ih =>
    refine Program.Writes.bind ?_ fun targetSyllabusId => ?_
    · unfold targetOf
      split
      · trivial
      · refine Program.Writes.bind ?_ fun _ => trivial
        exact writes_insertUnless (fun _ => Or.inl .nothing) fun v hfree =>
          Or.inr ⟨_, rfl, rfl, hfree, rfl⟩
    · refine Program.Writes.bind ?_ fun _ => ih (i + 1)
      exact (cloneWrites_cloneSyllabus _ _ _ _).mono fun _ _ _ => Or.inl

/-- What an insertion into the target cycle keeps, the cloning of a cycle keeps. -/
theorem writes_cloneEach {P : Db → Prop} {ids : CloneIds} {targetCycleId : Uuid}
    {targetActiveWeeks : List ℕ} {existingTargets : List Syllabus}
    (hflags : ∀ v v', v'.flags = v.flags → P v → P v')
    (hinsert : ∀ v s, s.cycleId = targetCycleId → s.isActive = true →
      syllabusRefusal s v = none → P v → P (insertSyllabusIn s v))
    (i : ℕ) (sources : List Syllabus) :
    (cloneEach normalize ids targetCycleId targetActiveWeeks existingTargets i sources).Writes
      fun v _ change => P v → P (change v) := by
  refine (cloneWrites_cloneEach i sources).mono fun v _ change hchange => ?_
  rcases hchange with hchange | ⟨s, hcycle, hactive, hfree, rfl⟩
  · exact hflags v _ (flags_of_cloneWrite hchange v)
  · exact hinsert v s hcycle hactive hfree

/-- A clone that is not refused has an active target. -/
theorem active_of_run_cloneSyllabus {syllabusId sourceSyllabusId : Uuid}
    {targetActiveWeeks : Option (List ℕ)} {rowIds : ℕ → Uuid} {out : List SyllabusDistribution}
    {jobs : List Empty} (h : (cloneSyllabus normalize syllabusId sourceSyllabusId targetActiveWeeks
      rowIds).run db = .ok (out, db', jobs)) :
    ∃ s, db.syllabuses.find syllabusId = some s ∧ s.isActive = true := by
  unfold cloneSyllabus findById at h
  simp only [Program.bind_eq, Program.run_select_bind] at h
  cases hfound : (db.syllabuses.find syllabusId).filter (·.isActive) with
  | none =>
    rw [hfound] at h
    cases h
  | some s => exact ⟨s, Option.filter_eq_some_iff.mp hfound⟩

/-- The first target is a syllabus of the target cycle. -/
theorem mem_of_run_targetOf {existingTargets : List Syllabus} {targetCycleId id out : Uuid}
    {source : Syllabus} {jobs : List Empty}
    (hexisting : ∀ s ∈ existingTargets, s ∈ db.syllabuses.rows ∧ s.cycleId = targetCycleId)
    (h : (targetOf existingTargets targetCycleId source id).run db = .ok (out, db', jobs)) :
    ∃ s ∈ db'.syllabuses.rows, s.id = out ∧ s.cycleId = targetCycleId := by
  unfold targetOf at h
  split at h
  · rename_i existing hfind
    cases h
    have hmem := List.mem_reverse.mp (List.mem_of_find?_eq_some hfind)
    obtain ⟨hrow, hcycle⟩ := hexisting existing hmem
    exact ⟨existing, hrow, rfl, hcycle⟩
  · obtain ⟨_, db₁, _, _, hinsert, hdone, _⟩ := Program.of_run_bind h
    cases hdone
    obtain ⟨hfree, rfl⟩ := of_run_createSyllabus hinsert
    exact ⟨_, (mem_insertSyllabusIn hfree).mpr (Or.inr rfl), rfl, rfl⟩

/-- A loop over source syllabi that is not refused leaves the target cycle an active syllabus. -/
theorem hasActive_of_run_cloneEach {ids : CloneIds} {targetCycleId : Uuid}
    {targetActiveWeeks : List ℕ} {existingTargets sources : List Syllabus} {source : Syllabus}
    {jobs : List Empty} {i : ℕ} {out : Unit}
    (hexisting : ∀ s ∈ existingTargets, s ∈ db.syllabuses.rows ∧ s.cycleId = targetCycleId)
    (h : (cloneEach normalize ids targetCycleId targetActiveWeeks existingTargets i
      (source :: sources)).run db = .ok (out, db', jobs)) : db'.HasActive targetCycleId := by
  obtain ⟨targetSyllabusId, db₁, _, _, htarget, hrest, _⟩ := Program.of_run_bind h
  obtain ⟨distributions, db₂, _, _, hclone, hothers, _⟩ := Program.of_run_bind hrest
  obtain ⟨s, hs, hid, hcycle⟩ := mem_of_run_targetOf hexisting htarget
  obtain ⟨s', hfind, hactive⟩ := active_of_run_cloneSyllabus hclone
  have hsame : s' = s := by
    have hown := Table.find_of_mem hs
    change db₁.syllabuses.find s.id = some s at hown
    rw [hid, hfind] at hown
    exact Option.some.inj hown
  have hfirst : db₁.HasActive targetCycleId := ⟨s, hs, hcycle, hsame ▸ hactive⟩
  have hsecond : db₂.HasActive targetCycleId :=
    (Db.HasActive.of_flags (flags_of_run (writes_cloneSyllabus _ _ _ _) hclone)).mpr hfirst
  refine (writes_cloneEach (P := fun v => v.HasActive targetCycleId) ?_ ?_ _ _).of_run hsecond
    hothers
  · exact fun v v' hflags hv => (Db.HasActive.of_flags hflags).mpr hv
  · exact fun v s _ hactive hfree hv => (hasActive_insertSyllabusIn hactive hfree _).mpr (Or.inl hv)

/-- **Cloning a cycle** keeps the invariant exactly when the target cycle is not deactivated. -/
theorem archivedWithCycle_cloneCycle_iff {targetCycleId sourceCycleId : Uuid} {ids : CloneIds}
    {jobs : List Empty} {out : ℕ} (hdb : db.ArchivedWithCycle)
    (h : (cloneCycleSyllabuses normalize targetCycleId sourceCycleId ids).run db =
      .ok (out, db', jobs)) :
    db'.ArchivedWithCycle ↔ ¬db.Deactivated targetCycleId := by
  unfold cloneCycleSyllabuses findByCycle getActiveWeekNumbers at h
  simp only [Program.bind_eq, Program.run_select_bind] at h
  split at h
  · cases h
  · rename_i hne
    simp only [Program.run_select_bind] at h
    obtain ⟨_, _, _, _, heach, hdone, _⟩ := Program.of_run_bind h
    cases hdone
    constructor
    · intro harchived hdeactivated
      cases hsources : db.syllabuses.filter (·.cycleId == sourceCycleId) with
      | nil =>
        rw [hsources] at hne
        exact hne rfl
      | cons source sources =>
        rw [hsources] at heach
        have hkeeps : db'.Deactivated targetCycleId :=
          (writes_cloneEach (P := fun v => v.Deactivated targetCycleId)
            (fun v v' hflags hv => (Db.Deactivated.of_flags hflags).mpr hv)
            (fun _ _ _ _ _ hv => hv) _ _).of_run hdeactivated heach
        refine (archivedWithCycle_iff db').mp harchived targetCycleId hkeeps ?_
        refine hasActive_of_run_cloneEach (fun s hs => ?_) heach
        obtain ⟨hrow, hcycle⟩ := List.mem_filter.mp hs
        exact ⟨hrow, beq_iff_eq.mp hcycle⟩
    · intro hcycle
      refine ((writes_cloneEach (P := fun v => v.ArchivedWithCycle ∧
        ¬v.Deactivated targetCycleId) ?_ ?_ _ _).of_run ⟨hdb, hcycle⟩ heach).1
      · rintro v v' hflags ⟨harchived, hnot⟩
        exact ⟨(archivedWithCycle_of_flags hflags).mpr harchived,
          fun hdeactivated => hnot ((Db.Deactivated.of_flags hflags).mp hdeactivated)⟩
      · rintro v s rfl hactive hfree ⟨harchived, hnot⟩
        exact ⟨(archivedWithCycle_insert_iff hactive hfree).mpr ⟨harchived, hnot⟩, hnot⟩

/-- Creating a cycle adds an active one. -/
theorem archivedWithCycle_of_run_createCycle {dto : CreateCycle} {cycleId out : Uuid}
    {weekIds : ℕ → Uuid} {jobs : List Empty} (hdb : db.ArchivedWithCycle)
    (h : (createCycle dto cycleId weekIds).run db = .ok (out, db', jobs)) :
    db'.ArchivedWithCycle := by
  unfold createCycle at h
  dsimp only at h
  split at h
  · cases h
  · rename_i endDate _
    obtain ⟨_, db₁, _, _, hinsert, hrest, _⟩ := Program.of_run_bind h
    obtain ⟨_, db₂, _, _, hweeks, hdone, _⟩ := Program.of_run_bind hrest
    cases hdone
    have hflags := flags_of_run ((calendarWrites_saveWeeksSafely _).mono fun v _ _ hchange =>
      flags_of_calendarWrite hchange v) hweeks
    rw [archivedWithCycle_of_flags hflags]
    rw [Program.run_attempt] at hinsert
    split at hinsert
    · cases hinsert
    · cases hinsert
      intro s hs hdeactivated
      refine hdb s hs ?_
      obtain ⟨c, hc, hid, hinactive⟩ := hdeactivated
      unfold insertCycleIn Table.insert at hc
      split at hc
      · exact ⟨c, hc, hid, hinactive⟩
      · rcases List.mem_append.mp hc with hc | hc
        · exact ⟨c, hc, hid, hinactive⟩
        · rw [List.mem_singleton.mp hc] at hinactive
          cases hinactive

/-- Showing or hiding a cycle keeps the invariant: a cycle that is hidden takes its syllabi along. -/
theorem archivedWithCycle_of_run_toggle {id : Uuid} {isActive : Bool} {jobs : List Empty}
    {out : Unit} (hdb : db.ArchivedWithCycle)
    (h : (toggleCycleVisibility id isActive).run db = .ok (out, db', jobs)) :
    db'.ArchivedWithCycle := by
  have hcycles : ∀ c, c ∈ (setCycleActiveIn id isActive db).cycles.rows → c.isActive = false →
      (∃ c₀ ∈ db.cycles.rows, c₀.id = c.id ∧ c₀.isActive = false) ∨
        (c.id = id ∧ isActive = false) := by
    intro c hc hinactive
    obtain ⟨c₀, hc₀, rfl⟩ := List.mem_map.mp hc
    split at hinactive
    · rename_i hid
      rw [if_pos hid]
      exact Or.inr ⟨hid, hinactive⟩
    · rename_i hid
      rw [if_neg hid]
      exact Or.inl ⟨c₀, hc₀, rfl, hinactive⟩
  unfold toggleCycleVisibility at h
  simp only [Program.bind_eq, Program.run_write_bind] at h
  cases isActive with
  | true =>
    cases h
    rintro s hs ⟨c, hc, hid, hinactive⟩
    rcases hcycles c hc hinactive with ⟨c₀, hc₀, hid₀, hinactive₀⟩ | ⟨_, hfalse⟩
    · exact hdb s hs ⟨c₀, hc₀, hid₀.trans hid, hinactive₀⟩
    · cases hfalse
  | false =>
    cases h
    rintro s hs ⟨c, hc, hid, hinactive⟩
    obtain ⟨s₀, hs₀, rfl⟩ := List.mem_map.mp hs
    split at hid
    · rename_i hcycle
      rw [if_pos hcycle]
    · rename_i hcycle
      rw [if_neg hcycle]
      rcases hcycles c hc hinactive with ⟨c₀, hc₀, hid₀, hinactive₀⟩ | ⟨hown, _⟩
      · exact hdb s₀ hs₀ ⟨c₀, hc₀, hid₀.trans hid, hinactive₀⟩
      · exact absurd (hid.symm.trans hown) hcycle

/-- Archiving a syllabus keeps the invariant, making it active does when its cycle is not
deactivated. -/
theorem archivedWithCycle_setSyllabusActive_iff {id : Uuid} {isActive : Bool}
    (hdb : db.ArchivedWithCycle) :
    (setSyllabusActiveIn id isActive db).ArchivedWithCycle ↔
      ∀ s, db.syllabuses.find id = some s → isActive = true → ¬db.Deactivated s.cycleId := by
  constructor
  · rintro harchived s hfind rfl hdeactivated
    have hmem : ({ s with isActive := true } : Syllabus) ∈
        (setSyllabusActiveIn id true db).syllabuses.rows :=
      List.mem_map.mpr ⟨s, Table.mem_of_find hfind, if_pos (Table.key_of_find hfind)⟩
    exact Bool.noConfusion (harchived _ hmem hdeactivated)
  · intro hcycle s hs hdeactivated
    obtain ⟨s₀, hs₀, rfl⟩ := List.mem_map.mp hs
    split at hdeactivated
    · rename_i hid
      rw [if_pos hid]
      cases isActive with
      | false => rfl
      | true =>
        have hfind : db.syllabuses.find id = some s₀ := hid ▸ Table.find_of_mem hs₀
        exact absurd hdeactivated (hcycle s₀ hfind rfl)
    · rename_i hid
      rw [if_neg hid]
      exact hdb s₀ hs₀ hdeactivated

/-- **A call keeps the invariant exactly when it spares the deactivated cycles.** -/
theorem archivedWithCycle_perform_iff (hdb : db.ArchivedWithCycle) (call : Call) :
    (perform normalize db call).ArchivedWithCycle ↔ call.Spares normalize db := by
  unfold perform Call.Spares
  cases hrun : (transactionOf normalize call).run db with
  | error e => exact ⟨fun _ _ _ _ => ⟨e, rfl⟩, fun _ => hdb⟩
  | ok out =>
    obtain ⟨u, db', jobs⟩ := out
    have hspares : (∀ cycleId, call.revives db = some cycleId → db.Deactivated cycleId →
        ∃ e, (Except.ok (u, db', jobs) : Except AcademicError (Unit × Db × List Empty)) =
          .error e) ↔ ∀ cycleId, call.revives db = some cycleId → ¬db.Deactivated cycleId := by
      constructor
      · intro hrefused cycleId hrevives hdeactivated
        obtain ⟨e, he⟩ := hrefused cycleId hrevives hdeactivated
        cases he
      · intro hnot cycleId hrevives hdeactivated
        exact absurd hdeactivated (hnot cycleId hrevives)
    have hquiet : call.revives db = none → ∀ cycleId, call.revives db = some cycleId →
        ¬db.Deactivated cycleId := by
      intro hnone cycleId hsome
      rw [hnone] at hsome
      cases hsome
    rw [hspares]
    change db'.ArchivedWithCycle ↔ _
    cases call with
    | createCycle dto cycleId weekIds =>
      obtain ⟨_, _, _, _, hcreate, hdone, _⟩ := Program.of_run_bind hrun
      cases hdone
      exact iff_of_true (archivedWithCycle_of_run_createCycle hdb hcreate) (hquiet rfl)
    | updateCycle id dto weekIds =>
      have hflags := flags_of_run (writes_updateCycle _ _ _) hrun
      exact iff_of_true ((archivedWithCycle_of_flags hflags).mpr hdb) (hquiet rfl)
    | toggleCycleVisibility id isActive =>
      exact iff_of_true (archivedWithCycle_of_run_toggle hdb hrun) (hquiet rfl)
    | create dto id =>
      obtain ⟨_, _, _, _, hcreate, hdone, _⟩ := Program.of_run_bind hrun
      cases hdone
      obtain ⟨hfree, rfl⟩ := of_run_create hcreate
      rw [archivedWithCycle_insert_iff rfl hfree]
      constructor
      · rintro ⟨_, hcycle⟩ _ ⟨⟩
        exact hcycle
      · exact fun hnot => ⟨hdb, hnot dto.cycleId rfl⟩
    | archiveSyllabus id isActive =>
      have hwrite := hrun
      change (archiveSyllabus id isActive).run db = _ at hwrite
      unfold archiveSyllabus at hwrite
      rw [Program.run_attempt] at hwrite
      split at hwrite
      · cases hwrite
      · cases hwrite
        rw [archivedWithCycle_setSyllabusActive_iff hdb]
        cases isActive with
        | false => exact iff_of_true (fun _ _ hfalse => Bool.noConfusion hfalse) (hquiet rfl)
        | true =>
          constructor
          · intro hcycle cycleId hrevives
            obtain ⟨s, hfind, rfl⟩ := Option.map_eq_some_iff.mp hrevives
            exact hcycle s hfind rfl
          · intro hnot s hfind _
            exact hnot s.cycleId (Option.map_eq_some_iff.mpr ⟨s, hfind, rfl⟩)
    | cloneSyllabus syllabusId sourceSyllabusId rowIds =>
      obtain ⟨_, _, _, _, hclone, hdone, _⟩ := Program.of_run_bind hrun
      cases hdone
      have hflags := flags_of_run (writes_cloneSyllabus _ _ _ _) hclone
      exact iff_of_true ((archivedWithCycle_of_flags hflags).mpr hdb) (hquiet rfl)
    | cloneCycleSyllabuses targetCycleId sourceCycleId ids =>
      obtain ⟨_, _, _, _, hclone, hdone, _⟩ := Program.of_run_bind hrun
      cases hdone
      rw [archivedWithCycle_cloneCycle_iff hdb hclone]
      constructor
      · rintro hcycle _ ⟨⟩
        exact hcycle
      · exact fun hnot => hnot targetCycleId rfl

end Steps

/-- **A run keeps the invariant exactly when each of its calls spares the deactivated cycles**: from
every database that has it, every state that a run reaches has it when, at the time of each call, a
call that gives a deactivated cycle an active syllabus is refused, and only then. -/
theorem archivedWithCycle_states_iff (normalize : String → String) (db : Db)
    (hdb : db.ArchivedWithCycle) (calls : List Call) :
    StaysArchived normalize db calls ↔ SparesDeactivated normalize db calls := by
  induction calls generalizing db with
  | nil =>
    constructor
    · exact fun _ => trivial
    · intro _ state hstate
      rw [List.mem_singleton.mp hstate]
      exact hdb
  | cons call calls ih =>
    constructor
    · intro hall
      have hnext : (perform normalize db call).ArchivedWithCycle := by
        refine hall _ (List.mem_cons_of_mem db ?_)
        cases calls <;> exact List.mem_cons_self
      exact ⟨(archivedWithCycle_perform_iff hdb call).mp hnext,
        (ih _ hnext).mp fun state hstate => hall state (List.mem_cons_of_mem db hstate)⟩
    · rintro ⟨hcall, hcalls⟩ state hstate
      have hnext := (archivedWithCycle_perform_iff hdb call).mpr hcall
      rcases List.mem_cons.mp hstate with rfl | hstate
      · exact hdb
      · exact (ih _ hnext).mpr hcalls state hstate

/-- The bounds of the cycle below. -/
theorem semester_mem : (2000 ≤ 2026 ∧ 2026 ≤ 2100) ∧ (1 ≤ 5 ∧ 5 ≤ 7) ∧ (1 ≤ 1 ∧ 1 ≤ 52) := by
  decide

/-- A cycle of one week. -/
def semester : CreateCycle where
  name := "2026-I"
  year := 2026
  startDate := 0
  daysPerWeek := 5
  totalWeeks := 1
  year_mem := semester_mem.1
  daysPerWeek_mem := semester_mem.2.1
  totalWeeks_mem := semester_mem.2.2

/-- A syllabus is archived with its cycle and comes back after it. -/
def archivedSemester : List Call :=
  [.createCycle semester 1 id, .create ⟨1, 1⟩ 1, .toggleCycleVisibility 1 false,
    .toggleCycleVisibility 1 true, .archiveSyllabus 1 true]

/-- This run keeps the invariant. -/
theorem archivedWithCycle_archivedSemester :
    StaysArchived id (Db.provisioned [1]) archivedSemester := by
  refine (archivedWithCycle_states_iff id (Db.provisioned [1]) (by decide) archivedSemester).mpr
    ⟨?_, ?_, ?_, ?_, ?_, trivial⟩
  · rintro cycleId ⟨⟩
  · rintro cycleId ⟨⟩ hdeactivated
    exact absurd hdeactivated (by decide)
  · rintro cycleId ⟨⟩
  · rintro cycleId ⟨⟩
  · intro cycleId hrevives hdeactivated
    have hcycle : some 1 = some cycleId := hrevives
    cases hcycle
    exact absurd hdeactivated (by decide)

/-- A syllabus is created in a cycle that is deactivated. -/
theorem not_archivedWithCycle_states :
    ¬∀ calls, StaysArchived id (Db.provisioned [1]) calls := by
  intro hall
  have harchived := hall [.createCycle semester 1 id, .toggleCycleVisibility 1 false,
    .create ⟨1, 1⟩ 1] _ (List.mem_cons_of_mem _ (List.mem_cons_of_mem _
      (List.mem_cons_of_mem _ List.mem_cons_self)))
  revert harchived
  decide

end Odiseo.Syllabi
