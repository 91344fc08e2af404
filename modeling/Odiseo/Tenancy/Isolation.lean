import Odiseo.Tenancy.Worker

/-!
# Tenant isolation of the worker

Every table of a tenant that a job touches is reached through `runInSchema` or
`runInTenant`, on a connection of its tenant, except for the design template: the default
entity manager reads it on a connection of the pool, which only sees `public`. The read
finds no such table there, and the error is taken for a template that does not exist.
-/

namespace Odiseo.Tenancy

open Database Materials

/-- The tenant of a job. -/
def tenantOf : Job → Uuid
  | .generatePdf data => data.tenantId
  | .generate data => data.tenantId
  | .mergePdf _ tenantId => tenantId

/-- The design template that a job requests. -/
def designTemplateOf : Job → Option Uuid
  | .generatePdf data => data.designTemplateId
  | .generate data => data.designTemplateId
  | .mergePdf _ _ => none

/-- A call that touches tables of a tenant runs on a connection of this tenant. -/
def Call.ScopedTo {β : Type} (schema : Schema) (c : Call β) : Prop :=
  ∀ manager, c.connection = some manager → manager = Connection.setSearchPath schema

/-- Every access of a job, whatever the calls are answered, is on a connection of its
tenant. -/
def ScopesAccesses (job : Job) : Prop :=
  ∀ runs, (process job runs).Ensures (fun _ _ => True)
    (Call.ScopedTo (.tenant (tenantOf job))) fun _ => True

/-- The tables `pdf_design_templates` of the schemas that have one. -/
abbrev TemplateTables := Schema → Option (List PdfDesignTemplate)

/-- What the database answers to `findOne(PdfDesignTemplate)` on a connection. -/
def TemplateTables.find (templates : TemplateTables) (manager : Connection) (id : Uuid) :
    Except String (Option PdfDesignTemplate) :=
  match manager.searchPath.findSome? templates with
  | none => .error "relation \"pdf_design_templates\" does not exist"
  | some rows => .ok (rows.find? fun template => template.id == id)

/-- Templates are read from the tables; every other call may be answered in any way. -/
def TemplateTables.MayAnswer (templates : TemplateTables) {β : Type} :
    Call β → Except String β → Prop
  | .findDesignTemplate manager id, answer => answer = templates.find manager id
  | _, _ => True

/-- Every PDF of a job is rendered with the template that it requests, when the schema of its
tenant holds it. -/
def AppliesTemplate (job : Job) : Prop :=
  ∀ (runs : ℕ → CourseRun) (templates : TemplateTables) (id : Uuid)
    (rows : List PdfDesignTemplate) (template : PdfDesignTemplate),
    designTemplateOf job = some id → templates (.tenant (tenantOf job)) = some rows →
      rows.find? (fun t => t.id == id) = some template →
      (process job runs).Ensures templates.MayAnswer
        (fun c => ∀ design, c.design = some design →
          design = some template.toDesignTemplateConfig)
        fun _ => True

/-- A job stays on the schema of its tenant, and its PDFs carry the template stored there. -/
def TenantIsolation (job : Job) : Prop := ScopesAccesses job ∧ AppliesTemplate job

section Process

variable {may : ∀ {β : Type}, Call β → Except String β → Prop}
  {Φ : ∀ {β : Type}, Call β → Prop} {D : Option DesignTemplateConfig → Prop} {schema : Schema}

/-- The calls on a connection of a tenant and the calls elsewhere satisfy `Φ`, as long as
PDFs are rendered with a design in `D`. -/
structure Covers (schema : Schema) (Φ : ∀ {β : Type}, Call β → Prop)
    (D : Option DesignTemplateConfig → Prop) : Prop where
  onTenant : ∀ {β : Type} (c : Call β), c.connection = some (.setSearchPath schema) → Φ c
  elsewhere : ∀ {β : Type} (c : Call β), c.connection = none →
    (∀ design, c.design = some design → D design) → Φ c

/-- A call that renders nothing and touches no table is covered. -/
theorem Covers.external (h : Covers schema Φ D) {β : Type} (c : Call β)
    (hconnection : c.connection = none) (hdesign : c.design = none) : Φ c := by
  apply h.elsewhere c hconnection
  intro design hsome
  rw [hdesign] at hsome
  cases hsome

/-- The statements of a transaction on a connection of the tenant. -/
theorem Covers.statements (h : Covers schema Φ D) {α : Type} (tx : Tx α) :
    (statements (Connection.setSearchPath schema) tx).Ensures may Φ fun _ => True :=
  ensures_statements (fun _ _ => h.onTenant _ rfl) (fun _ => h.external _ rfl rfl) tx

/-- `runInSchema` is covered when its operation is. -/
theorem Covers.runInSchema (h : Covers schema Φ D) {α : Type} {cls : Store}
    {operation : Store → Connection → Worker α} {Ψ : α → Prop} (hcls : cls.WellScoped)
    (hoperation : ∀ cls' : Store, cls'.WellScoped → cls'.tenantSchema = cls.tenantSchema →
      (operation cls' (Connection.setSearchPath schema)).Ensures may Φ Ψ) :
    (runInSchema cls schema operation).Ensures may Φ Ψ :=
  ensures_runInSchema hcls (h.external _ rfl rfl) (h.external _ rfl rfl) hoperation

/-- `runInTenant` is covered when its operation is. -/
theorem Covers.runInTenant (h : Covers schema Φ D) {α : Type} {cls : Store}
    {operation : Store → Connection → Worker α} {Ψ : α → Prop} (hcls : cls.WellScoped)
    (htenant : cls.tenantSchema = some schema)
    (hoperation : ∀ cls' : Store, cls'.WellScoped → cls'.tenantSchema = some schema →
      (operation cls' (Connection.setSearchPath schema)).Ensures may Φ Ψ) :
    (runInTenant cls operation).Ensures may Φ Ψ :=
  ensures_runInTenant hcls htenant (h.external _ rfl rfl) (h.external _ rfl rfl) hoperation

/-- One call on a connection of the tenant. -/
theorem Covers.perform (h : Covers schema Φ D) {β : Type} (c : Call β)
    (hconnection : c.connection = some (.setSearchPath schema)) :
    (Procedure.perform c).Ensures may Φ fun _ => True :=
  Procedure.ensures_perform (h.onTenant c hconnection) fun _ _ => trivial

/-- One call that renders nothing and touches no table. -/
theorem Covers.performExternal (h : Covers schema Φ D) {β : Type} (c : Call β)
    (hconnection : c.connection = none) (hdesign : c.design = none) :
    (Procedure.perform c).Ensures may Φ fun _ => True :=
  Procedure.ensures_perform (h.external c hconnection hdesign) fun _ _ => trivial

/-- `handleMaterialGeneratedEvent` stays on the tenant of its context. -/
theorem Covers.handleMaterialGeneratedEvent (h : Covers schema Φ D) {cls : Store}
    (hcls : cls.WellScoped) (htenant : cls.tenantSchema = some schema)
    (event : MaterialGeneratedEvent) (attempts : ℕ) :
    (handleMaterialGeneratedEvent cls event attempts).Ensures may Φ fun _ => True := by
  induction attempts with
  | zero => trivial
  | succ attempts ih =>
    apply Procedure.Ensures.tryCatch
    · apply h.runInTenant hcls htenant
      intro _ _ _
      apply (h.perform (.findSyllabus _ event.cycleId event.courseId) rfl).bind
      intro syllabus _
      cases syllabus with
      | none => trivial
      | some id =>
        apply (h.perform (.updateDistribution _ id event.weekNumber) rfl).bind
        intro _ _
        trivial
    · intro _
      exact ih

/-- A callback stays on the tenant of its context. -/
theorem Covers.handleWebhook (h : Covers schema Φ D) {cls : Store} (hcls : cls.WellScoped)
    (htenant : cls.tenantSchema = some schema) (callback : Callback) :
    (handleWebhook cls callback).Ensures may Φ fun _ => True := by
  apply Procedure.Ensures.bind
  · exact h.runInTenant hcls htenant fun cls' _ _ => h.statements _
  · intro outcome _
    split
    · exact h.handleMaterialGeneratedEvent hcls htenant _ _
    · trivial

/-- The report of a course stays on the tenant of its context. -/
theorem Covers.reportCourse (h : Covers schema Φ D) {cls : Store} (hcls : cls.WellScoped)
    (htenant : cls.tenantSchema = some schema) (job : CourseJob) (callback : Callback) :
    (reportCourse cls job callback).Ensures may Φ fun _ => True := by
  unfold Tenancy.reportCourse
  split
  · trivial
  · exact h.handleWebhook hcls htenant callback

/-- The read of the cycle is on the tenant of the job. -/
theorem Covers.findCycle {job : CourseJob} (h : Covers (.tenant job.tenantId) Φ D) {cls : Store}
    (hcls : cls.WellScoped) : (findCycle cls job).Ensures may Φ fun _ => True := by
  apply h.runInSchema hcls
  intro _ _ _
  apply (h.perform (.findCycle _ job.cycleId) rfl).bind
  intro _ _
  trivial

/-- The reads of the cycle are on the tenant of the job. -/
theorem Covers.findCycles {job : CourseJob} (h : Covers (.tenant job.tenantId) Φ D)
    {cls : Store} (hcls : cls.WellScoped) (run : CourseRun) (slots : List MaterialReviewQuestion) :
    (findCycles cls job run slots).Ensures may Φ fun _ => True := by
  unfold Tenancy.findCycles
  split
  · apply Procedure.ensures_forEach
    intro i _
    unfold findCycleOfTopic
    split
    · trivial
    · exact h.findCycle hcls
  · exact h.findCycle hcls

/-- The questions of a course are loaded on the tenant of the job. -/
theorem Covers.loadCourseQuestions {job : CourseJob} (h : Covers (.tenant job.tenantId) Φ D)
    {cls : Store} (hcls : cls.WellScoped) (run : CourseRun) :
    (loadCourseQuestions cls job run).Ensures may Φ fun _ => True := by
  apply Procedure.Ensures.bind
  · exact h.runInSchema hcls fun _ _ _ => h.statements _
  · intro slots _
    apply (h.findCycles hcls run slots).bind
    intro _ _
    unfold loadedQuestions
    split <;> trivial

/-- Every PDF of a course is rendered with the design that was loaded. -/
theorem Covers.renderVariants (h : Covers schema Φ D) {design : Option DesignTemplateConfig}
    (hdesign : D design) (tenant : TenantInfo) (job : CourseJob) (loaded : LoadedQuestions) :
    (renderVariants tenant design job loaded).Ensures may Φ fun _ => True := by
  unfold Tenancy.renderVariants
  split
  · trivial
  · apply Procedure.ensures_forEach
    intro variant _
    have hrender : Φ (Call.generatePdf tenant job loaded.allQuestions design variant) := by
      apply h.elsewhere _ rfl
      intro design' hsame
      obtain rfl := Option.some.inj hsame
      exact hdesign
    apply (Procedure.ensures_perform (Ψ := fun _ => True) hrender fun _ _ => trivial).bind
    intro _ _
    exact h.performExternal _ rfl rfl

/-- One course of a job, with its `catch` block. -/
theorem Covers.generateCourse {job : CourseJob} (h : Covers (.tenant job.tenantId) Φ D)
    {cls : Store} (hcls : cls.WellScoped) (htenant : cls.tenantSchema = some (.tenant job.tenantId))
    {design : Option DesignTemplateConfig} (hdesign : D design) (tenant : TenantInfo)
    (run : CourseRun) :
    (generateCourse cls tenant design job run).Ensures may Φ fun _ => True := by
  apply Procedure.Ensures.tryCatch
  · apply (h.loadCourseQuestions hcls run).bind
    intro loaded _
    apply (h.renderVariants hdesign tenant job loaded).bind
    intro _ _
    exact h.reportCourse hcls htenant job _
  · intro message
    apply (h.reportCourse hcls htenant job _).bind
    intro _ _
    trivial

/-- The courses of a job belong to its tenant. -/
theorem tenantId_of_mem_courseJobs {job : Job} {cj : CourseJob} (h : cj ∈ job.courseJobs) :
    cj.tenantId = tenantOf job := by
  cases job with
  | generatePdf data =>
    obtain ⟨dist, _, rfl⟩ := List.mem_map.mp h
    rfl
  | generate data =>
    obtain rfl := List.mem_singleton.mp h
    rfl
  | mergePdf r tenantId => cases h

/-- The context of the generation handlers has no open transaction. -/
theorem wellScoped_generationContext (tenantId : Uuid) :
    (generationContext tenantId).WellScoped := by
  intro manager schema h
  cases h

/-- The context of a merge has no open transaction. -/
theorem wellScoped_mergeContext (tenantId : Uuid) : (mergeContext tenantId).WellScoped := by
  intro manager schema h
  cases h

/-- The courses of a generation job. -/
theorem Covers.courses {job : Job} (h : Covers (.tenant (tenantOf job)) Φ D)
    {design : Option DesignTemplateConfig} (hdesign : D design) (tenant : TenantInfo)
    (runs : ℕ → CourseRun) :
    (Procedure.forEach
      (fun (cj, i) => Tenancy.generateCourse (generationContext (tenantOf job)) tenant design cj (runs i))
      job.courseJobs.zipIdx).Ensures may Φ fun _ => True := by
  apply Procedure.ensures_forEach
  rintro ⟨cj, i⟩ hmem
  have hcj : cj ∈ job.courseJobs :=
    List.mem_of_getElem? (List.mem_zipIdx_iff_getElem?.mp hmem)
  have htenant := tenantId_of_mem_courseJobs hcj
  rw [← htenant] at h ⊢
  exact h.generateCourse (wellScoped_generationContext _) rfl hdesign tenant (runs i)

/-- The reads of the PDFs touch no table. -/
theorem Covers.addPages (h : Covers schema Φ D) (urls : List Url) :
    (addPages urls).Ensures may Φ fun _ => True := by
  induction urls with
  | nil => trivial
  | cons url urls ih =>
    apply Procedure.Ensures.bind (Ψ := fun _ => True)
    · apply Procedure.Ensures.tryCatch
      · apply (h.performExternal (.getObject url) rfl rfl).bind
        intro _ _
        trivial
      · intro _
        trivial
    · intro added _
      apply ih.bind
      intro _ _
      trivial

/-- A combined PDF is made without touching a table. -/
theorem Covers.mergeAndUpload (h : Covers schema Φ D) (courses : List MaterialRequestCourse)
    (variant : Variant) (url : Url) :
    (mergeAndUpload courses variant url).Ensures may Φ fun _ => True := by
  apply (h.addPages _).bind
  intro pagesAdded _
  unfold uploadMerged
  split
  · apply (h.performExternal (.uploadMerged url) rfl rfl).bind
    intro _ _
    trivial
  · trivial

/-- A merge stays on the tenant of its job. -/
theorem Covers.handleMergePdf {tenantId : Uuid} (h : Covers (.tenant tenantId) Φ D)
    (r : RequestId) : (handleMergePdf r tenantId).Ensures may Φ fun _ => True := by
  apply Procedure.Ensures.bind (Ψ := fun _ => True)
  · exact h.runInTenant (wellScoped_mergeContext _) rfl fun _ _ _ => h.statements _
  · intro courseRequests _
    split
    · trivial
    · apply (h.mergeAndUpload _ _ _).bind
      intro url _
      cases url with
      | none => trivial
      | some url =>
        apply (h.mergeAndUpload _ _ _).bind
        intro keyUrl _
        apply (h.mergeAndUpload _ _ _).bind
        intro solutionUrl _
        exact h.runInTenant (wellScoped_mergeContext _) rfl fun _ _ _ => h.statements _

/-- **A job** is covered when the load of its design template is. -/
theorem Covers.process {job : Job} (h : Covers (.tenant (tenantOf job)) Φ D)
    (hload : (loadDesignTemplate (tenantOf job) (designTemplateOf job)).Ensures may Φ D)
    (runs : ℕ → CourseRun) : (process job runs).Ensures may Φ fun _ => True := by
  cases job with
  | generatePdf data => exact hload.bind fun design hdesign => h.courses hdesign data.tenant runs
  | generate data => exact hload.bind fun design hdesign => h.courses hdesign data.tenant runs
  | mergePdf r tenantId => exact h.handleMergePdf r

end Process

/-- A run in which the question bank has nothing. -/
def quietRun : CourseRun where
  bank := []
  random := []
  error := none
  pageCount := none
  fileSizeBytes := 0
  now := 0
  ledgerFails := false

/-- A connection of the pool finds no template when `public` has none. -/
theorem TemplateTables.find_pooled_of_noShared {templates : TemplateTables}
    (h : templates .shared = none) (id : Uuid) :
    templates.find Connection.pooled id =
      .error "relation \"pdf_design_templates\" does not exist" := by
  simp [TemplateTables.find, Connection.pooled, h]

/-- Without a requested template every access is on the tenant of the job. -/
theorem scopesAccesses_of_noTemplate {job : Job} (h : designTemplateOf job = none) :
    ScopesAccesses job := by
  intro runs
  have hcovers : Covers (.tenant (tenantOf job)) (Call.ScopedTo (.tenant (tenantOf job)))
      fun _ => True := by
    constructor
    · intro β c hconnection manager hmanager
      exact Option.some.inj (hmanager.symm.trans hconnection)
    · intro β c hconnection _ manager hmanager
      rw [hconnection] at hmanager
      cases hmanager
  apply hcovers.process
  rw [h]
  trivial

/-- A requested template is read on a connection of the pool. -/
theorem not_scopesAccesses_of_template {job : Job} {id : Uuid}
    (h : designTemplateOf job = some id) : ¬ ScopesAccesses job := by
  intro hscopes
  have hload : (loadDesignTemplate (tenantOf job) (designTemplateOf job)).Ensures (fun _ _ => True)
      (Call.ScopedTo (.tenant (tenantOf job))) fun _ => True := by
    cases job with
    | generatePdf data => exact (hscopes fun _ => quietRun).of_bind
    | generate data => exact (hscopes fun _ => quietRun).of_bind
    | mergePdf r tenantId => cases h
  rw [h] at hload
  have hpooled := hload.1 Connection.pooled rfl
  cases hpooled

/-- **Tenant isolation** holds of exactly the jobs that request no design template. -/
theorem tenantIsolation_iff_noTemplate (job : Job) :
    TenantIsolation job ↔ designTemplateOf job = none := by
  constructor
  · rintro ⟨hscopes, _⟩
    cases h : designTemplateOf job with
    | none => rfl
    | some id => exact absurd hscopes (not_scopesAccesses_of_template h)
  · intro h
    constructor
    · exact scopesAccesses_of_noTemplate h
    · intro runs templates id rows template hid
      rw [h] at hid
      cases hid

/-- **The fallback:** while `public` has no design templates, no PDF is rendered with one. -/
theorem fallback_of_noSharedTemplates {templates : TemplateTables}
    (hshared : templates .shared = none) (job : Job) (runs : ℕ → CourseRun) :
    (process job runs).Ensures templates.MayAnswer
      (fun c => ∀ design, c.design = some design → design = none) fun _ => True := by
  have hcovers : Covers (.tenant (tenantOf job))
      (fun c => ∀ design, c.design = some design → design = none) fun design => design = none := by
    constructor
    · intro β c hconnection design hdesign
      cases c <;> simp_all [Call.connection, Call.design]
    · intro β c _ hdesign
      exact hdesign
  apply hcovers.process
  unfold loadDesignTemplate
  split
  · rfl
  · constructor
    · intro design hdesign
      cases hdesign
    · intro answer hanswer
      obtain rfl := hanswer.trans (TemplateTables.find_pooled_of_noShared hshared _)
      rfl

/-- The template that tenant 1 has stored. -/
def storedTemplate : PdfDesignTemplate where
  bannerImageUrl := some "banner.png"
  watermarkImageUrl := none
  coverImageUrl := none
  showCover := true
  primaryTitleColor := "2, 113, 184"
  secondaryTitleColor := "2, 113, 184"
  backgroundHighlightColor := "214, 238, 253"
  marginTop := "3cm"
  marginBottom := "1.5cm"
  marginInside := "1cm"
  marginOutside := "1cm"
  isBookMode := false
  fontFamily := "Arial"
  borderRadius := "4px"
  blocksConfig := none
  headerConfig := none
  footerConfig := none
  id := 7

/-- The migrations create the table in the schemas of tenants only. -/
def migratedTemplates : TemplateTables
  | .shared => none
  | .tenant _ => some [storedTemplate]

/-- An approved course of tenant 1 whose request names the stored template. -/
def templateJob : Job :=
  .generate
    { jobId := 1, materialRequestId := 1, tenantId := 1, cycleId := 1, weekNumber := 3
      templateName := "Material", designTemplateId := some 7, tenant := ⟨1, "Odiseo", ""⟩
      materialType := "practice", courseId := 10, difficultyLevel := "medium"
      syllabusDistribution := [⟨100, 1000, 1⟩], adminUserId := 5 }

/-- The question bank answers with one question. -/
def oneQuestion : CourseRun := { quietRun with bank := [42], random := [[⟨42, none, none⟩]] }

/-- Every call succeeds, on tables without rows. -/
def answerAll {β : Type} : Call β → Except String β
  | .begin _ => .ok ()
  | .commit => .ok ()
  | .statement _ _ _ => .ok (emptyTenant ⟨[], [], [], [], []⟩)
  | .findCycle _ _ => .ok none
  | .findDesignTemplate manager id => migratedTemplates.find manager id
  | .findSyllabus _ _ _ => .ok none
  | .updateDistribution _ _ _ => .ok 0
  | .generatePdf _ _ _ _ _ => .ok ()
  | .uploadBuffer _ => .ok ()
  | .getObject _ => .ok ()
  | .uploadMerged _ => .ok ()
  | .add _ => .ok ()

/-- The template is read outside the tenant, and the PDF is rendered without it. -/
theorem not_tenantIsolation :
    ¬ TenantIsolation templateJob ∧ ¬ ScopesAccesses templateJob ∧ ¬ AppliesTemplate templateJob := by
  have hscopes : ¬ ScopesAccesses templateJob :=
    not_scopesAccesses_of_template (show designTemplateOf templateJob = some 7 from rfl)
  have happlies : ¬ AppliesTemplate templateJob := by
    intro happlies
    have hstored := happlies (fun _ => oneQuestion) migratedTemplates 7 [storedTemplate]
      storedTemplate rfl rfl rfl
    have hrendered : ((process templateJob fun _ => oneQuestion).run answerAll).2.any
        (fun c => c.2.design == some none) = true := by decide +kernel
    obtain ⟨c, hc, hdesign⟩ := List.any_eq_true.mp hrendered
    have hcall := hstored.of_run answerAll (by intro β c; cases c <;> trivial) hc
    have hnone := hcall none (by simpa using hdesign)
    cases hnone
  exact ⟨fun h => hscopes h.1, hscopes, happlies⟩

end Odiseo.Tenancy
