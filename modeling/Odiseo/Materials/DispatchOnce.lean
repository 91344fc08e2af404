import Odiseo.Materials.Execution

/-!
# Every course of a generation is dispatched once

The rows of the courses are inserted one for each entry of `realDistributions`; each entry is then
given the first row whose course has the same text. Where the request names a course twice, both
entries of the job point at the first of its rows, and nobody reports on the second one.
-/

namespace Odiseo.Materials

open Database

section Lookup

variable {κ ι : Type} [DecidableEq κ]

/-- With distinct keys, looking up the key of a member finds the member. -/
theorem find_of_nodup {xs : List (κ × ι)} (hnodup : (xs.map Prod.fst).Nodup) {x : κ × ι}
    (hx : x ∈ xs) : (xs.find? fun y => y.1 == x.1) = some x := by
  induction xs with
  | nil => exact absurd hx List.not_mem_nil
  | cons a rest ih =>
    rw [List.map_cons, List.nodup_cons] at hnodup
    rcases List.mem_cons.mp hx with rfl | hmem
    · simp
    · have hne : ¬a.1 = x.1 := fun heq => hnodup.1 (heq ▸ List.mem_map_of_mem hmem)
      rw [List.find?_cons_of_neg (by simpa using hne)]
      exact ih hnodup.2 hmem

/-- **Looking every key up gives each value once exactly when the keys are distinct**, among
distinct values. -/
theorem lookup_perm_iff {xs : List (κ × ι)} (hvalues : (xs.map Prod.snd).Nodup) :
    (xs.map fun x => (xs.find? fun y => y.1 == x.1).map Prod.snd).Perm
      (xs.map fun x => some x.2) ↔ (xs.map Prod.fst).Nodup := by
  constructor
  · intro hperm
    have hsome : (xs.map fun x => some x.2).Nodup := by
      have hmap : (xs.map fun x => some x.2) = (xs.map Prod.snd).map some := by
        rw [List.map_map]
        rfl
      rw [hmap]
      exact hvalues.map (Option.some_injective ι)
    have hlookup : (xs.map fun x => (xs.find? fun y => y.1 == x.1).map Prod.snd) =
        (xs.map Prod.fst).map fun k => (xs.find? fun y => y.1 == k).map Prod.snd := by
      rw [List.map_map]
      rfl
    rw [hlookup] at hperm
    exact List.Nodup.of_map _ (hperm.nodup_iff.mpr hsome)
  · intro hnodup
    have hself : (xs.map fun x => (xs.find? fun y => y.1 == x.1).map Prod.snd) =
        xs.map fun x => some x.2 :=
      List.map_congr_left fun x hx => by rw [find_of_nodup hnodup hx, Option.map_some]
    rw [hself]

end Lookup

/-- The rows that a generation has committed as `PROCESSING`. -/
def Execution.processingRows (e : Execution) (tenant : GenerationTenant) :
    List MaterialRequestCourse :=
  e.db.courses.filter fun c => c.status == .processing && (tenant.db.courses.find c.id).isNone

/-- There is one job, its entries and the rows that have been put to `PROCESSING` correspond one to
one, and each entry carries the course of its row. -/
def DispatchesEachOnce (tenant : GenerationTenant) (e : Execution) : Prop :=
  ∃ job, e.jobs = [job] ∧
    (job.distributions.map (·.courseRequestId)).Perm
      ((e.processingRows tenant).map fun row => some row.id) ∧
    ∀ dist ∈ job.distributions, ∀ row ∈ e.processingRows tenant,
      dist.courseRequestId = some row.id → row.courseId = dist.courseId

/-- The requested courses for which there is something to generate. -/
def GenerationTenant.selected (tenant : GenerationTenant) (bigint : String → Option CatalogId)
    (dto : GenerateMaterialDto) : List String :=
  match tenant.profiles.find? fun p => p.id == dto.profileId with
  | none => []
  | some profile =>
    dto.courses.filter (selects bigint tenant.db.catalog profile dto.weekNumber)

/-- A generation that succeeds has found its template and has written its plan. -/
theorem of_execute {env : Surroundings} {tenantId : Uuid} {dto : GenerateMaterialDto}
    {tenant : GenerationTenant} {e : Execution} (h : execute env tenantId dto tenant = .ok e)
    (hreview : dto.requiresReview = false) :
    ∃ (entries : List (String × Distribution × CourseRequestId)) (inputs : GenerateInputs)
      (result : GenerateResult) (more : List Job),
      entries.map Prod.fst = tenant.selected env.bigint dto ∧
      entries.map Prod.snd = inputs.courses ∧ (entries.map fun x => x.2.2).Nodup ∧
      inputs.requiresReview = false ∧
      (generateMaterial inputs).run tenant.db = .ok (result, e.db, more) ∧
      e.jobs = [{ inputs.jobPayload with
        distributions := linkedDistributions (entries.map Prod.fst) inputs.courses }] := by
  unfold execute at h
  split at h
  · cases h
  · rename_i profile hprofile
    split at h
    · cases h
    · rename_i requested hrequested
      split at h
      · cases h
      · rename_i inputs result db jobs hrun
        cases h
        obtain ⟨planned, hcourses, hinputs, more, hgenerate⟩ := run_order hrun
        have htexts := texts_requestedCourses hrequested
        have hids : inputs.courses.map Prod.snd = (env.courses requested).map Prod.snd := by
          have horder : planned.map Prod.fst = env.courses requested := hcourses
          rw [hinputs, ← horder]
          simp [GenerateOrder.inputs, Function.comp_def]
        have hlength : (requested.map (·.text)).length = inputs.courses.length := by
          have hlen := congrArg List.length hids
          simpa [Surroundings.courses] using hlen.symm
        refine ⟨(requested.map (·.text)).zip inputs.courses, inputs, result, more, ?_, ?_, ?_, ?_,
          hgenerate, ?_⟩
        · rw [List.map_fst_zip (le_of_eq hlength), htexts, GenerationTenant.selected, hprofile]
        · exact List.map_snd_zip (le_of_eq hlength.symm)
        · have hsnd : ((requested.map (·.text)).zip inputs.courses).map (fun x => x.2.2) =
              (((requested.map (·.text)).zip inputs.courses).map Prod.snd).map Prod.snd := by
            rw [List.map_map]
            rfl
          rw [hsnd, List.map_snd_zip (le_of_eq hlength.symm), hids]
          exact env.nodup_courses requested
        · rw [hinputs]
          exact hreview
        · rw [hreview, List.map_fst_zip (le_of_eq hlength)]
          rfl

/-- The rows that a generation without review puts to `PROCESSING` are those that it inserts. -/
theorem mem_processingRows {tenant : GenerationTenant} {e : Execution} {inputs : GenerateInputs}
    {result : GenerateResult} {more : List Job} (hreview : inputs.requiresReview = false)
    (h : (generateMaterial inputs).run tenant.db = .ok (result, e.db, more))
    {row : MaterialRequestCourse} : row ∈ e.processingRows tenant ↔
      ∃ x ∈ inputs.createdCourses, row = { x with status := .processing } := by
  obtain ⟨hcreated, -, -⟩ := run_generateMaterial h
  constructor
  · intro hrow
    obtain ⟨hmem, hnew⟩ := List.mem_filter.mp hrow
    simp only [Bool.and_eq_true, beq_iff_eq, Option.isNone_iff_eq_none] at hnew
    rcases hcreated.courses row.id row (Table.find_of_mem hmem) with
      hold | ⟨x, hx, status, hsame, -⟩
    · rw [hold] at hnew
      cases hnew.2
    · refine ⟨x, hx, ?_⟩
      have hstatus : status = .processing := by
        rw [← hnew.1, hsame]
      rw [hsame, hstatus]
  · rintro ⟨x, hx, rfl⟩
    have hfind := processing_of_run hreview h hx
    refine List.mem_filter.mpr ⟨Table.mem_of_find hfind, ?_⟩
    have hfree := hcreated.freshCourses x hx
    simp [hfree]

/-- The rows that have been put to `PROCESSING` have the identifiers that were drawn for the
entries. -/
theorem processingRows_perm {tenant : GenerationTenant} {e : Execution} {inputs : GenerateInputs}
    {result : GenerateResult} {more : List Job} (hreview : inputs.requiresReview = false)
    (h : (generateMaterial inputs).run tenant.db = .ok (result, e.db, more))
    (hnodup : (inputs.courses.map Prod.snd).Nodup) :
    (inputs.courses.map Prod.snd).Perm ((e.processingRows tenant).map (·.id)) := by
  have hrows : ((e.processingRows tenant).map (·.id)).Nodup :=
    e.db.courses.nodup.sublist ((List.filter_sublist).map _)
  refine (List.perm_ext_iff_of_nodup hnodup hrows).mpr fun id => ?_
  constructor
  · intro hid
    obtain ⟨course, hcourse, rfl⟩ := List.mem_map.mp hid
    exact List.mem_map.mpr ⟨_, (mem_processingRows hreview h).mpr
      ⟨inputs.newCourse course, List.mem_map_of_mem hcourse, rfl⟩, rfl⟩
  · intro hid
    obtain ⟨row, hrow, rfl⟩ := List.mem_map.mp hid
    obtain ⟨x, hx, rfl⟩ := (mem_processingRows hreview h).mp hrow
    obtain ⟨course, hcourse, rfl⟩ := List.mem_map.mp hx
    exact List.mem_map.mpr ⟨course, hcourse, rfl⟩

/-- The entries of a job, each with the identifier that it is given. -/
theorem linkedDistributions_map (entries : List (String × Distribution × CourseRequestId)) :
    linkedDistributions (entries.map Prod.fst) (entries.map Prod.snd) =
      entries.map fun x => { x.2.1 with courseRequestId :=
        (entries.find? fun y => y.1 == x.1).map fun y => y.2.2 } := by
  unfold linkedDistributions
  rw [List.zip_map']
  simp

/-- Where equal texts are equal numbers, matching the texts is matching the numbers, and the job is
the payload of the write transaction. -/
theorem linkedDistributions_eq {inputs : GenerateInputs}
    {entries : List (String × Distribution × CourseRequestId)}
    (hcourses : entries.map Prod.snd = inputs.courses)
    (hcanonical : ∀ x ∈ entries, ∀ y ∈ entries, y.1 = x.1 ↔ y.2.1.courseId = x.2.1.courseId) :
    linkedDistributions (entries.map Prod.fst) inputs.courses = inputs.distributions := by
  rw [← hcourses, linkedDistributions_map]
  unfold GenerateInputs.distributions GenerateInputs.createdCourses
  rw [← hcourses, List.map_map, List.map_map]
  refine List.map_congr_left fun x hx => ?_
  have hfind : (entries.find? fun y => y.1 == x.1) =
      entries.find? fun y => y.2.1.courseId == x.2.1.courseId := by
    rw [← List.head?_filter, ← List.head?_filter]
    refine congrArg List.head? (List.filter_congr fun y hy => ?_)
    rw [Bool.eq_iff_iff, beq_iff_eq, beq_iff_eq]
    exact hcanonical x hx y hy
  simp only [Function.comp_apply, List.find?_map, hfind, Option.map_map]
  rfl

/-- The identifiers of a job, by the texts of its entries. -/
theorem ids_linkedDistributions (entries : List (String × Distribution × CourseRequestId)) :
    (linkedDistributions (entries.map Prod.fst) (entries.map Prod.snd)).map (·.courseRequestId) =
      (entries.map fun x => (x.1, x.2.2)).map fun x =>
        ((entries.map fun x => (x.1, x.2.2)).find? fun y => y.1 == x.1).map Prod.snd := by
  rw [linkedDistributions_map, List.map_map, List.map_map]
  refine List.map_congr_left fun x _ => ?_
  simp only [Function.comp_apply, List.find?_map, Option.map_map]
  rfl

/-- **Each row has its entry in the job exactly when the request names no course twice**, among
the courses for which there is something to generate. -/
theorem dispatchesEachOnce_iff {env : Surroundings} {tenantId : Uuid} {dto : GenerateMaterialDto}
    {tenant : GenerationTenant} {e : Execution} (h : execute env tenantId dto tenant = .ok e)
    (hreview : dto.requiresReview = false) :
    DispatchesEachOnce tenant e ↔ (tenant.selected env.bigint dto).Nodup := by
  obtain ⟨entries, inputs, result, more, htexts, hcourses, hnodup, hnoReview, hgenerate, hjobs⟩ :=
    of_execute h hreview
  have hids : (inputs.courses.map Prod.snd).Nodup := by
    rw [← hcourses, List.map_map]
    exact hnodup
  have hrows : (entries.map fun x => some x.2.2).Perm
      ((e.processingRows tenant).map fun row => some row.id) := by
    have hperm := (processingRows_perm hnoReview hgenerate hids).map some
    rw [← hcourses, List.map_map, List.map_map, List.map_map] at hperm
    exact hperm
  have hvalues : ((entries.map fun x => (x.1, x.2.2)).map Prod.snd).Nodup := by
    rw [List.map_map]
    exact hnodup
  have hkeys : (entries.map fun x => (x.1, x.2.2)).map Prod.fst =
      tenant.selected env.bigint dto := by
    rw [← htexts, List.map_map]
    rfl
  have hlookup := lookup_perm_iff hvalues
  rw [hkeys, ← ids_linkedDistributions, List.map_map] at hlookup
  rw [← hcourses] at hjobs
  constructor
  · rintro ⟨job, hjob, hperm, -⟩
    rw [hjobs] at hjob
    obtain rfl := List.singleton_inj.mp hjob
    exact hlookup.mp (hperm.trans hrows.symm)
  · intro hdistinct
    refine ⟨_, hjobs, (hlookup.mpr hdistinct).trans hrows, ?_⟩
    intro dist hdist row hrow hid
    obtain ⟨x, hx, rfl⟩ := List.mem_map.mp ((linkedDistributions_map entries) ▸ hdist)
    obtain ⟨y, hy, rfl⟩ := (mem_processingRows hnoReview hgenerate).mp hrow
    obtain ⟨course, hcourse, rfl⟩ := List.mem_map.mp hy
    obtain ⟨z, hz, rfl⟩ := List.mem_map.mp (hcourses ▸ hcourse)
    have htext : (entries.map Prod.fst).Nodup := htexts ▸ hdistinct
    have hself : (entries.find? fun y => y.1 == x.1) = some x := find_of_nodup htext hx
    simp only [hself, Option.map_some, Option.some.injEq] at hid
    have hsame : x = z := List.inj_on_of_nodup_map hnodup hx hz hid
    rw [hsame]
    rfl

/-- A template for one week at a time. -/
def weeklyProfile : MaterialProfile where
  id := 1
  cycleId := 1
  name := "Semanal"
  scope := .currentWeek
  accumulationWeeks := none
  courses := [tenHard]
  positive := pos_of_none_eq_some

/-- A tenant with the template, and a syllabus of its course with a row in the first week. -/
def weeklyTenant : GenerationTenant where
  profiles := [weeklyProfile]
  defaultDesign := none
  db := emptyTenant firstWeekCatalog

/-- Identifiers drawn from 100 on are distinct. -/
theorem injective_drawn : Function.Injective fun i => 100 + i := by
  intro i j h
  simpa using h

/-- An empty question bank, and no shuffling. -/
def quietSurroundings : Surroundings where
  bigint text := if text == "1" then some 1 else none
  bank := { questions := [], mappings := [] }
  shuffled _ _ := 0
  random := []
  courseRequestId i := 100 + i
  slotId i := i
  newMaterialId := 1
  newRequestId := 1
  distinct := injective_drawn

/-- Weeks are numbered from one. -/
theorem weeklyRequest_pos : 1 ≤ 1 := by decide

/-- A request for the first week, without review. -/
def weeklyRequest (courses : List String) : GenerateMaterialDto where
  profileId := 1
  weekNumber := 1
  requiresReview := false
  courses := courses
  designTemplateId := none
  weekNumber_pos := weeklyRequest_pos

/-- The run of a request that names the course once. -/
theorem dispatchesEachOnce_once :
    ∃ e, execute quietSurroundings 1 (weeklyRequest ["1"]) weeklyTenant = .ok e ∧
      (DispatchesEachOnce weeklyTenant e ↔
        (weeklyTenant.selected quietSurroundings.bigint (weeklyRequest ["1"])).Nodup) := by
  have hsucceeds :
      (execute quietSurroundings 1 (weeklyRequest ["1"]) weeklyTenant).isOk = true := by
    decide +kernel
  cases hrun : execute quietSurroundings 1 (weeklyRequest ["1"]) weeklyTenant with
  | error e =>
    rw [hrun] at hsucceeds
    cases hsucceeds
  | ok e => exact ⟨e, rfl, dispatchesEachOnce_iff hrun rfl⟩

/-- A request names the course twice. Both entries of the job point at the first row, and the second
one stays `PROCESSING`. -/
theorem not_dispatchesEachOnce : ¬∀ (env : Surroundings) (tenantId : Uuid)
    (dto : GenerateMaterialDto) (tenant : GenerationTenant) (e : Execution),
    execute env tenantId dto tenant = .ok e → dto.requiresReview = false →
      DispatchesEachOnce tenant e := by
  intro hall
  have hids : (execute quietSurroundings 1 (weeklyRequest ["1", "1"]) weeklyTenant).toOption.map
      (fun e => (e.jobs.map fun job => job.distributions.map (·.courseRequestId),
        (e.processingRows weeklyTenant).map fun row => some row.id)) =
        some ([[some 100, some 100]], [some 100, some 101]) := by
    decide +kernel
  obtain ⟨e, hrun, hvalues⟩ := Option.map_eq_some_iff.mp hids
  obtain ⟨hjobs, hrows⟩ := Prod.mk.inj hvalues
  have hexecute : execute quietSurroundings 1 (weeklyRequest ["1", "1"]) weeklyTenant = .ok e := by
    cases hout : execute quietSurroundings 1 (weeklyRequest ["1", "1"]) weeklyTenant with
    | error err =>
      rw [hout] at hrun
      cases hrun
    | ok out =>
      rw [hout] at hrun
      cases hrun
      rfl
  obtain ⟨job, hjob, hperm, -⟩ := hall _ _ _ _ e hexecute rfl
  rw [hjob] at hjobs
  rw [List.map_singleton, List.singleton_inj] at hjobs
  rw [hjobs, hrows] at hperm
  revert hperm
  decide

end Odiseo.Materials
