import Odiseo.Database.Table

/-!
# PDF designs

`PdfDesignService.create`, `update` and `delete` on the `pdf_design_templates` of one
tenant schema. Each call is a transaction: it commits all of its statements or none. The
columns that shape the printed page are handled alike, and `is_default` by itself.
-/

namespace Odiseo.Designs

open Database

/-- A UUID, by its number. -/
abbrev Uuid := Nat

/-- A value of a request body or of a column. -/
inductive Value
  | null
  | text (content : String)
  | boolean (content : Bool)
  | number (content : Int)
  /-- An object or an array, by the text that the driver writes. -/
  | json (content : String)
  deriving DecidableEq, Repr

/-- The text that the driver writes for a value. -/
def textOf : Value → String
  | .text content => content
  | .json content => content
  | .boolean content => toString content
  | .number content => toString content
  | .null => "null"

/-- JavaScript takes the value for true. -/
def Value.truthy : Value → Bool
  | .null => false
  | .text content => content ≠ ""
  | .boolean content => content
  | .number content => content ≠ 0
  | .json _ => true

/-- What the mapper writes into a boolean column: only `true` is true. A `null` is refused. -/
def Value.toBoolean : Value → Option Bool
  | .null => none
  | value => some (value = .boolean true)

/-- The columns of `PdfDesignTemplate` that shape the printed page. -/
inductive DesignColumn
  | name
  | bannerImageUrl
  | watermarkImageUrl
  | coverImageUrl
  | showCover
  | primaryTitleColor
  | secondaryTitleColor
  | backgroundHighlightColor
  | marginTop
  | marginBottom
  | marginInside
  | marginOutside
  | isBookMode
  | fontFamily
  | borderRadius
  | contentFontSize
  | contentTextColor
  | blocksConfig
  | headerConfig
  | footerConfig
  deriving DecidableEq, Repr

/-- The type of a column. -/
inductive ColumnType
  | varchar (length : ℕ)
  | text
  | boolean
  | jsonb
  deriving DecidableEq, Repr

/-- How a column is declared. A column without a default is left `NULL`. -/
structure ColumnOptions where
  type : ColumnType
  nullable : Bool
  default : Value
  deriving DecidableEq, Repr

/-- The declarations of the columns. -/
def DesignColumn.options : DesignColumn → ColumnOptions
  | .name => ⟨.varchar 255, false, .null⟩
  | .bannerImageUrl => ⟨.text, true, .null⟩
  | .watermarkImageUrl => ⟨.text, true, .null⟩
  | .coverImageUrl => ⟨.text, true, .null⟩
  | .showCover => ⟨.boolean, false, .boolean false⟩
  | .primaryTitleColor => ⟨.varchar 20, false, .text "2, 113, 184"⟩
  | .secondaryTitleColor => ⟨.varchar 20, false, .text "2, 113, 184"⟩
  | .backgroundHighlightColor => ⟨.varchar 20, false, .text "214, 238, 253"⟩
  | .marginTop => ⟨.varchar 20, false, .text "3cm"⟩
  | .marginBottom => ⟨.varchar 20, false, .text "1.5cm"⟩
  | .marginInside => ⟨.varchar 20, false, .text "1cm"⟩
  | .marginOutside => ⟨.varchar 20, false, .text "1cm"⟩
  | .isBookMode => ⟨.boolean, false, .boolean false⟩
  | .fontFamily => ⟨.varchar 50, false, .text "Arial"⟩
  | .borderRadius => ⟨.varchar 20, false, .text "4px"⟩
  | .contentFontSize => ⟨.varchar 20, false, .text "11pt"⟩
  | .contentTextColor => ⟨.varchar 20, false, .text "#000000"⟩
  | .blocksConfig => ⟨.jsonb, true, .null⟩
  | .headerConfig => ⟨.jsonb, true, .null⟩
  | .footerConfig => ⟨.jsonb, true, .null⟩

/-- All columns, in the order of the entity. -/
def DesignColumn.all : List DesignColumn :=
  [.name, .bannerImageUrl, .watermarkImageUrl, .coverImageUrl, .showCover, .primaryTitleColor,
    .secondaryTitleColor, .backgroundHighlightColor, .marginTop, .marginBottom, .marginInside,
    .marginOutside, .isBookMode, .fontFamily, .borderRadius, .contentFontSize,
    .contentTextColor, .blocksConfig, .headerConfig, .footerConfig]

/-- What a column holds after a value has been written to it; `none` when the database refuses
the value. -/
def ColumnOptions.stored (o : ColumnOptions) : Value → Option Value
  | .null => if o.nullable then some .null else none
  | value =>
    match o.type with
    | .varchar length =>
      if (textOf value).length ≤ length then some (.text (textOf value)) else none
    | .text => some (.text (textOf value))
    | .boolean => value.toBoolean.map .boolean
    | .jsonb => some value

/-- The values of the columns. -/
abbrev DesignColumns := DesignColumn → Value

/-- What the columns hold after values have been written to all of them. -/
def DesignColumns.stored (columns : DesignColumns) : Option DesignColumns :=
  if DesignColumn.all.all fun c => (c.options.stored (columns c)).isSome then
    some fun c => (c.options.stored (columns c)).getD .null
  else none

/-- `CreatePdfDesignDto`, validated. A property that is absent is `none`, and `isDefault` may
also be sent as `null`, which is `some none`. -/
structure CreatePdfDesignDto where
  columns : DesignColumn → Option Value
  isDefault : Option (Option Bool)

/-- `Partial<CreatePdfDesignDto>`: the body of an update, which is no class and is not
validated. A property that is absent is `none`. -/
structure PartialPdfDesignDto where
  columns : DesignColumn → Option Value
  isDefault : Option Value

/-- `{ ...dto }`, with the defaults of the columns that are absent. -/
def CreatePdfDesignDto.created (dto : CreatePdfDesignDto) : DesignColumns := fun c =>
  (dto.columns c).getD c.options.default

/-- `Object.assign(design, dto)`, for the columns. -/
def PartialPdfDesignDto.assigned (dto : PartialPdfDesignDto) (columns : DesignColumns) :
    DesignColumns := fun c =>
  (dto.columns c).getD (columns c)

/-- `PdfDesignTemplate`. -/
structure PdfDesignTemplate where
  id : Uuid
  tenantId : Option Uuid
  columns : DesignColumns
  isDefault : Bool

instance : Keyed Uuid PdfDesignTemplate := ⟨PdfDesignTemplate.id⟩

/-- Two designs take the same place in `idx_tenant_default`. A `NULL` tenant takes none. -/
def PdfDesignTemplate.conflicts (a b : PdfDesignTemplate) : Bool :=
  a.isDefault && b.isDefault && a.tenantId.isSome && a.tenantId = b.tenantId

/-- `idx_tenant_default`: no two designs take the same place. -/
def IdxTenantDefault (designs : Table Uuid PdfDesignTemplate) : Prop :=
  ∀ a ∈ designs.rows, ∀ b ∈ designs.rows, a.conflicts b → a.id = b.id

instance (designs : Table Uuid PdfDesignTemplate) : Decidable (IdxTenantDefault designs) :=
  inferInstanceAs (Decidable (∀ a ∈ designs.rows, ∀ b ∈ designs.rows, a.conflicts b → a.id = b.id))

/-- The table `pdf_design_templates`, with its index. -/
structure DesignTable where
  table : Table Uuid PdfDesignTemplate
  unique : IdxTenantDefault table

/-- Removing a row keeps the index. -/
def DesignTable.remove (designs : DesignTable) (design : PdfDesignTemplate) : DesignTable where
  table := designs.table.delete fun d => d.id = design.id
  unique := fun a ha b hb =>
    designs.unique a (Table.mem_delete.mp ha).1 b (Table.mem_delete.mp hb).1

/-- The assets of a design in the bucket. -/
inductive Asset
  | banner
  | watermark
  | cover
  deriving DecidableEq, Repr

/-- The extension of an asset. -/
inductive Extension
  | png
  | jpg
  deriving DecidableEq, Repr

/-- The key `designs/<tenantId>/<id>-<type>.<ext>`, by its parts. -/
structure AssetKey where
  tenantId : Uuid
  id : Uuid
  type : Asset
  ext : Extension
  deriving DecidableEq, Repr

/-- What the calls read and write. -/
structure World where
  designs : DesignTable
  /-- `design_template_id` of each material request. -/
  materialRequests : List (Option Uuid)
  /-- The assets in the bucket. -/
  objects : List AssetKey

/-- How a call fails. -/
inductive Error
  | notFound (message : String)
  | conflict (message : String)
  /-- The database refuses a value, a key or a place in the index. -/
  | database
  deriving DecidableEq, Repr

/-- A statement leaves a table that its index accepts, or fails. -/
def DesignTable.store (table : Table Uuid PdfDesignTemplate) : Except Error DesignTable :=
  if h : IdxTenantDefault table then .ok ⟨table, h⟩ else .error .database

namespace World

variable (w : World)

/-- The designs of a tenant. -/
def designsOf (tenantId : Uuid) : List PdfDesignTemplate :=
  w.designs.table.filter fun d => d.tenantId = some tenantId

/-- `findById`. -/
def findById (id tenantId : Uuid) : Except Error PdfDesignTemplate :=
  match w.designs.table.find id with
  | some design =>
    if design.tenantId = some tenantId then .ok design
    else .error (.notFound "Design template not found")
  | none => .error (.notFound "Design template not found")

/-- The row that `unsetCurrentDefault` leaves. -/
def unset (tenantId : Uuid) (d : PdfDesignTemplate) : PdfDesignTemplate :=
  if d.tenantId = some tenantId ∧ d.isDefault then { d with isDefault := false } else d

/-- The table that `unsetCurrentDefault` leaves. -/
def unsetCurrentDefault (tenantId : Uuid) : Table Uuid PdfDesignTemplate where
  rows := w.designs.table.rows.map (unset tenantId)
  nodup := by
    have hkeys : (w.designs.table.rows.map (unset tenantId)).map key =
        w.designs.table.rows.map key := by
      rw [List.map_map]
      apply List.map_congr_left
      intro d _
      simp only [Function.comp_apply, unset]
      split <;> rfl
    rw [hkeys]
    exact w.designs.table.nodup

/-- `save` of a new entity. -/
def insert (table : Table Uuid PdfDesignTemplate) (design : PdfDesignTemplate) :
    Except Error DesignTable :=
  match design.columns.stored with
  | none => .error .database
  | some columns =>
    if (table.find design.id).isSome then .error .database
    else DesignTable.store (table.insert { design with columns := columns })

/-- `PdfDesignService.create`; the database draws the `id`. -/
def create (tenantId : Uuid) (dto : CreatePdfDesignDto) (id : Uuid) : Except Error World := do
  let existingCount := (w.designsOf tenantId).length
  let shouldBeDefault := dto.isDefault.join.getD (existingCount = 0)
  let table := if shouldBeDefault then w.unsetCurrentDefault tenantId else w.designs.table
  let designs ← insert table ⟨id, some tenantId, dto.created, shouldBeDefault⟩
  return { w with designs := designs }

/-- `save` of a loaded entity. -/
def save (table : Table Uuid PdfDesignTemplate) (design : PdfDesignTemplate)
    (columns : DesignColumns) (isDefault : Value) : Except Error DesignTable :=
  match isDefault.toBoolean, columns.stored with
  | some isDefault, some columns =>
    DesignTable.store (table.modify design.id fun d =>
      { d with columns := columns, isDefault := isDefault })
  | _, _ => .error .database

/-- The number of default designs of a tenant. -/
def defaultCount (tenantId : Uuid) : ℕ := ((w.designsOf tenantId).filter (·.isDefault)).length

/-- `PdfDesignService.update`. -/
def update (id tenantId : Uuid) (dto : PartialPdfDesignDto) : Except Error World := do
  let design ← w.findById id tenantId
  let table :=
    if dto.isDefault.any Value.truthy ∧ design.isDefault = false
    then w.unsetCurrentDefault tenantId else w.designs.table
  if dto.isDefault = some (.boolean false) ∧ design.isDefault ∧ w.defaultCount tenantId ≤ 1 then
    throw (.conflict
      "Cannot unset the only default design template. Set another as default first.")
  let designs ← save table design (dto.assigned design.columns)
    (dto.isDefault.getD (.boolean design.isDefault))
  return { w with designs := designs }

/-- `delete` refuses a design in use. -/
def usedMessage (design : PdfDesignTemplate) (materialCount : ℕ) : String :=
  "Cannot delete design template \"" ++ textOf (design.columns .name) ++
    "\" because it is used by " ++ toString materialCount ++ " material request(s)."

/-- The assets of a design that `delete` asks the bucket to drop. -/
def assetKeys (tenantId id : Uuid) : List AssetKey :=
  [Asset.banner, .watermark, .cover].flatMap fun type =>
    [Extension.png, .jpg].map fun ext => ⟨tenantId, id, type, ext⟩

/-- `PdfDesignService.delete`. The bucket drops the objects that it can; what it cannot drop is
ignored. -/
def delete (id tenantId : Uuid) (dropped : AssetKey → Bool) : Except Error World := do
  let design ← w.findById id tenantId
  let materialCount := (w.materialRequests.filter (· = some id)).length
  if materialCount > 0 then
    throw (.conflict (usedMessage design materialCount))
  return { w with
    designs := w.designs.remove design
    objects := w.objects.filter fun k => !(k ∈ assetKeys tenantId id && dropped k) }

end World

/-- A call for one tenant, or a change of its material requests by other parts. -/
inductive Call
  | create (dto : CreatePdfDesignDto) (id : Uuid)
  | update (id : Uuid) (dto : PartialPdfDesignDto)
  | delete (id : Uuid) (dropped : AssetKey → Bool)
  | request (designTemplateIds : List (Option Uuid))

/-- What a call does. -/
def World.call (w : World) (tenantId : Uuid) : Call → Except Error World
  | .create dto id => w.create tenantId dto id
  | .update id dto => w.update id tenantId dto
  | .delete id dropped => w.delete id tenantId dropped
  | .request ids => .ok { w with materialRequests := ids }

/-- A call that fails leaves everything as it was. -/
def World.perform (tenantId : Uuid) (w : World) (c : Call) : World :=
  match w.call tenantId c with
  | .ok w' => w'
  | .error _ => w

/-- The state after a sequence of calls. -/
def World.after (tenantId : Uuid) (w : World) (calls : List Call) : World :=
  calls.foldl (World.perform tenantId) w

end Odiseo.Designs
