import Odiseo.Database.Procedure
import Odiseo.Materials.Processor

/-!
# Connections and tenants

The context that a piece of backend code runs in, the connections that it uses, and
`TenantService`, which opens a transaction on the schema of a tenant. A connection finds
an unqualified table in the first schema of its `search_path` that has it.
-/

namespace Odiseo.Tenancy

open Database Materials

/-- A schema of the database. The name `tenant_<uuid>` is a valid identifier. -/
inductive Schema
  /-- `public`. -/
  | shared
  /-- The schema of a tenant. -/
  | tenant (id : Uuid)
  deriving DecidableEq, Repr

/-- A connection, by its `search_path`. -/
structure Connection where
  searchPath : List Schema
  deriving DecidableEq, Repr

/-- A connection as the pool hands it out. -/
def Connection.pooled : Connection := ⟨[.shared]⟩

/-- `SET LOCAL search_path TO "schema", public`. -/
def Connection.setSearchPath (schema : Schema) : Connection := ⟨[schema, .shared]⟩

/-- The store of the CLS context. -/
structure Store where
  tenantSchema : Option Schema := none
  companyId : Option Uuid := none
  /-- `tx_manager` and `tx_schema`. -/
  transaction : Option (Connection × Schema) := none
  deriving DecidableEq, Repr

/-- `DesignTemplateConfig`, the fields that the worker passes on. -/
structure DesignTemplateConfig where
  bannerImageUrl : Option String
  watermarkImageUrl : Option String
  coverImageUrl : Option String
  showCover : Bool
  primaryTitleColor : String
  secondaryTitleColor : String
  backgroundHighlightColor : String
  marginTop : String
  marginBottom : String
  marginInside : String
  marginOutside : String
  isBookMode : Bool
  fontFamily : String
  borderRadius : String
  blocksConfig : Option String
  headerConfig : Option String
  footerConfig : Option String
  deriving DecidableEq, Repr

/-- `PdfDesignTemplate`, as the worker reads it. -/
structure PdfDesignTemplate extends DesignTemplateConfig where
  id : Uuid
  deriving DecidableEq, Repr

/-- The calls of the worker to the database, the renderer, the object store and the
queue. -/
inductive Call : Type → Type
  /-- `BEGIN` and `SET LOCAL search_path`. -/
  | begin (schema : Schema) : Call Unit
  /-- `COMMIT`. -/
  | commit : Call Unit
  /-- A statement on the tables of the materials module. -/
  | statement (manager : Connection) (locks : Db → List Row) (write : Db → Db → Db) : Call Db
  /-- `findOne(Cycle)`, of which `universityId` is used. -/
  | findCycle (manager : Connection) (id : Uuid) : Call (Option Uuid)
  /-- `findOne(PdfDesignTemplate)`. -/
  | findDesignTemplate (manager : Connection) (id : Uuid) : Call (Option PdfDesignTemplate)
  /-- `findOne(Syllabus)`. -/
  | findSyllabus (manager : Connection) (cycleId : Uuid) (courseId : CatalogId) :
      Call (Option Uuid)
  /-- `update(SyllabusDistribution, .., { isGenerated: true })`, with `affected`. -/
  | updateDistribution (manager : Connection) (syllabusId : Uuid) (weekNumber : ℕ) : Call ℕ
  /-- `generatePdf`. -/
  | generatePdf (tenant : TenantInfo) (job : CourseJob)
      (questions : List ExtractedQuestion) (design : Option DesignTemplateConfig)
      (variant : Variant) : Call Unit
  /-- `uploadBuffer` for a PDF of a course. -/
  | uploadBuffer (key : ArtifactKey) : Call Unit
  /-- `getObject` and `PDFDocument.load`. -/
  | getObject (url : Url) : Call Unit
  /-- `uploadBuffer` for a combined PDF. -/
  | uploadMerged (url : Url) : Call Unit
  /-- `queue.add`. -/
  | add (job : Job) : Call Unit

/-- Code of the worker. An exception is its message. -/
abbrev Worker := Procedure Call String

/-- The connection on which a call reads or writes tables of a tenant. -/
def Call.connection {β : Type} : Call β → Option Connection
  | .statement manager _ _ => some manager
  | .findCycle manager _ => some manager
  | .findDesignTemplate manager _ => some manager
  | .findSyllabus manager _ _ => some manager
  | .updateDistribution manager _ _ => some manager
  | _ => none

/-- The template that a PDF is rendered with. -/
def Call.design {β : Type} : Call β → Option (Option DesignTemplateConfig)
  | .generatePdf _ _ _ design _ => some design
  | _ => none

/-- `error.message`. The database's own message for a refused statement is not modelled. -/
def HttpError.message : HttpError → String
  | .badRequest message => message
  | .notFound message => message
  | .conflict message => message
  | .queryFailed => "QueryFailedError"

/-- The statements of a transaction, on one connection. -/
def statements {α : Type} (manager : Connection) : Tx α → Worker α
  | .done a => .done a
  | .fail e => .fail (HttpError.message e)
  | .statement locks write next => .call (.statement manager locks write) fun
    | .ok v => statements manager (next v)
    | .error message => .fail message
  | .enqueue job next => .call (.add job) fun
    | .ok () => statements manager next
    | .error message => .fail message

/-- `dataSource.transaction`, with the search path set and the context extended. -/
def transaction {α : Type} (cls : Store) (schema : Schema)
    (operation : Store → Connection → Worker α) : Worker α := do
  let manager := Connection.setSearchPath schema
  Procedure.perform (.begin schema)
  let result ← operation { cls with transaction := some (manager, schema) } manager
  Procedure.perform .commit
  pure result

/-- `TenantService.runInSchema`: the open transaction is used again only for the schema that
it belongs to. -/
def runInSchema {α : Type} (cls : Store) (schema : Schema)
    (operation : Store → Connection → Worker α) : Worker α :=
  match cls.transaction with
  | some (existingManager, existingSchema) =>
    if existingSchema = schema then operation cls existingManager
    else transaction cls schema operation
  | none => transaction cls schema operation

/-- `TenantService.runInTenant`. -/
def runInTenant {α : Type} (cls : Store) (operation : Store → Connection → Worker α) :
    Worker α :=
  match cls.tenantSchema with
  | none => Procedure.throw "Tenant Schema no está definido en el contexto actual"
  | some tenantSchema => runInSchema cls tenantSchema operation

/-- The open transaction of a context runs on the schema that it is kept for. -/
def Store.WellScoped (cls : Store) : Prop :=
  ∀ manager schema, cls.transaction = some (manager, schema) →
    manager = Connection.setSearchPath schema

section Ensures

variable {α : Type} {may : ∀ {β : Type}, Call β → Except String β → Prop}
  {Φ : ∀ {β : Type}, Call β → Prop} {Ψ : α → Prop}

/-- The statements of a transaction use the connection that they are given. -/
theorem ensures_statements {manager : Connection}
    (hstatement : ∀ locks write, Φ (Call.statement manager locks write))
    (hadd : ∀ job, Φ (Call.add job)) (tx : Tx α) :
    (statements manager tx).Ensures may Φ fun _ => True := by
  induction tx with
  | done a => trivial
  | fail e => trivial
  | statement locks write next ih =>
    rw [statements]
    constructor
    · exact hstatement locks write
    · intro answer _
      cases answer with
      | ok v => exact ih v
      | error message => trivial
  | enqueue job next ih =>
    rw [statements]
    constructor
    · exact hadd job
    · intro answer _
      cases answer with
      | ok _ => exact ih
      | error message => trivial

/-- **`runInSchema`** hands its operation a connection on the schema. -/
theorem ensures_runInSchema {cls : Store} {schema : Schema}
    {operation : Store → Connection → Worker α} (hcls : cls.WellScoped)
    (hbegin : Φ (Call.begin schema)) (hcommit : Φ Call.commit)
    (hoperation : ∀ cls' : Store, cls'.WellScoped → cls'.tenantSchema = cls.tenantSchema →
      (operation cls' (Connection.setSearchPath schema)).Ensures may Φ Ψ) :
    (runInSchema cls schema operation).Ensures may Φ Ψ := by
  have hopen : (transaction cls schema operation).Ensures may Φ Ψ := by
    apply (Procedure.ensures_perform (Ψ := fun _ => True) hbegin (fun _ _ => trivial)).bind
    intro _ _
    apply Procedure.Ensures.bind
    · apply hoperation
      · intro manager schema' h
        obtain ⟨rfl, rfl⟩ := Prod.mk.inj (Option.some.inj h)
        rfl
      · rfl
    · intro a ha
      exact (Procedure.ensures_perform (Ψ := fun _ => True) hcommit fun _ _ => trivial).bind
        fun _ _ => ha
  unfold runInSchema
  split
  · rename_i existingManager existingSchema hexisting
    split
    · rename_i hsame
      have hmanager := hcls existingManager existingSchema hexisting
      rw [hmanager, hsame]
      exact hoperation cls hcls rfl
    · exact hopen
  · exact hopen

/-- `runInTenant` hands its operation a connection on the schema of the context. -/
theorem ensures_runInTenant {cls : Store} {schema : Schema}
    {operation : Store → Connection → Worker α} (hcls : cls.WellScoped)
    (htenant : cls.tenantSchema = some schema)
    (hbegin : Φ (Call.begin schema)) (hcommit : Φ Call.commit)
    (hoperation : ∀ cls' : Store, cls'.WellScoped → cls'.tenantSchema = some schema →
      (operation cls' (Connection.setSearchPath schema)).Ensures may Φ Ψ) :
    (runInTenant cls operation).Ensures may Φ Ψ := by
  unfold runInTenant
  rw [htenant]
  apply ensures_runInSchema hcls hbegin hcommit
  intro cls' hscoped hsame
  exact hoperation cls' hscoped (hsame.trans htenant)

end Ensures

end Odiseo.Tenancy
