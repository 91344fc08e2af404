import Odiseo.Text.Placeholder

/-!
# The texts of headers and footers

A design names texts for the zones of its headers and footers, with placeholders for the course, the
cycle and the like. The generated document and the preview of a design each replace them by a chain
of replacements of their own, and so does the title of the first page.
-/

namespace Odiseo.Designs

open Text.Placeholder

/-- The fields of `tenant` that are printed. -/
structure PrintTenant where
  commercialName : Option (List Char)
  cycleName : Option (List Char)
  tenantName : Option (List Char)
  deriving DecidableEq, Repr

/-- The fields of `overrides` that are printed, in both spellings. -/
structure PreviewOverrides where
  weekNumber : Option ℕ
  week_number : Option ℕ
  templateName : Option (List Char)
  template_name : Option (List Char)
  courseName : Option (List Char)
  course_name : Option (List Char)
  cycleName : Option (List Char)
  cycle_name : Option (List Char)
  deriving DecidableEq, Repr

/-- `a || b`, where the empty text counts as none. -/
def orText (a : Option (List Char)) (b : List Char) : List Char :=
  match a with
  | some (c :: text) => c :: text
  | some [] | none => b

/-- `a || b`, where zero counts as none. -/
def orNumber (a : Option ℕ) (b : ℕ) : ℕ :=
  match a with
  | some (n + 1) => n + 1
  | some 0 | none => b

/-- What the placeholders stand for. -/
structure PrintedValues where
  wNum : ℕ
  tplName : List Char
  courseName : List Char
  cycleName : List Char
  instName : List Char
  /-- `new Date().toLocaleDateString('es-ES')`. -/
  today : List Char
  deriving DecidableEq, Repr

/-- The values of `generatePdf`. -/
def pdfValues (tenant : PrintTenant) (courseId : List Char) (weekNumber : Option ℕ)
    (templateName : Option (List Char)) (today : List Char) : PrintedValues where
  wNum := orNumber weekNumber 1
  tplName := orText templateName "Material".toList
  courseName := orText tenant.commercialName courseId
  cycleName := orText tenant.cycleName []
  instName := orText tenant.tenantName (orText tenant.cycleName [])
  today := today

/-- The values of `generatePreview`, where the cycle stands for the institution. -/
def previewValues (overrides : PreviewOverrides) (today : List Char) : PrintedValues :=
  let cycleName := orText overrides.cycleName
    (orText overrides.cycle_name "Ciclo Especial 2026".toList)
  { wNum := orNumber overrides.weekNumber (orNumber overrides.week_number 1)
    tplName := orText overrides.templateName
      (orText overrides.template_name "Material de Estudio".toList)
    courseName := orText overrides.courseName
      (orText overrides.course_name "Aritmética".toList)
    cycleName := cycleName
    instName := cycleName
    today := today }

/-- What the printer replaces by the number of the page. -/
def pageNumberSpan : List Char := "<span class=\"pageNumber\"></span>".toList

/-- What the printer replaces by the number of pages. -/
def totalPagesSpan : List Char := "<span class=\"totalPages\"></span>".toList

/-- The replacements of `generatePdf`. -/
def pdfVars (v : PrintedValues) : List (List Char × List Char) :=
  [("page".toList, pageNumberSpan),
    ("pagina".toList, pageNumberSpan),
    ("total_pages".toList, totalPagesSpan),
    ("total_paginas".toList, totalPagesSpan),
    ("total".toList, totalPagesSpan),
    ("curso".toList, v.courseName),
    ("course_name".toList, v.courseName),
    ("temas".toList, "Temas Consolidados".toList),
    ("week_number".toList, Nat.toDigits 10 v.wNum),
    ("semana_numero".toList, Nat.toDigits 10 v.wNum),
    ("material_titulo".toList, v.tplName),
    ("template_name".toList, v.tplName),
    ("fecha_generacion".toList, v.today),
    ("institucion_nombre".toList, v.instName),
    ("cycle_name".toList, v.cycleName),
    ("ciclo_nombre".toList, v.cycleName)]

/-- The replacements of `buildHtml`, for the title of the first page. -/
def htmlVars (v : PrintedValues) : List (List Char × List Char) :=
  [("page".toList, pageNumberSpan),
    ("pagina".toList, pageNumberSpan),
    ("total".toList, totalPagesSpan),
    ("total_pages".toList, totalPagesSpan),
    ("total_paginas".toList, totalPagesSpan),
    ("curso".toList, v.courseName),
    ("course_name".toList, v.courseName),
    ("week_number".toList, Nat.toDigits 10 v.wNum),
    ("semana_numero".toList, Nat.toDigits 10 v.wNum),
    ("material_titulo".toList, v.tplName),
    ("template_name".toList, v.tplName),
    ("cycle_name".toList, v.cycleName),
    ("ciclo_nombre".toList, v.cycleName)]

/-- The replacements of `generatePreview`, for one of its two pages. -/
def previewVars (v : PrintedValues) (pageNum : ℕ) : List (List Char × List Char) :=
  [("page".toList, Nat.toDigits 10 pageNum),
    ("pagina".toList, Nat.toDigits 10 pageNum),
    ("total_pages".toList, "2".toList),
    ("total_paginas".toList, "2".toList),
    ("total".toList, "2".toList),
    ("curso".toList, v.courseName),
    ("course_name".toList, v.courseName),
    ("temas".toList, "Temas Consolidados".toList),
    ("week_number".toList, Nat.toDigits 10 v.wNum),
    ("semana_numero".toList, Nat.toDigits 10 v.wNum),
    ("material_titulo".toList, v.tplName),
    ("template_name".toList, v.tplName),
    ("fecha_generacion".toList, v.today),
    ("institucion_nombre".toList, v.cycleName),
    ("cycle_name".toList, v.cycleName),
    ("ciclo_nombre".toList, v.cycleName)]

/-- `resolveVars`. -/
def resolveVars (vars : List (List Char × List Char)) (text : List Char) : List Char :=
  if text.isEmpty then [] else replaceEach vars text

/-- The values are put in as they are. -/
structure PrintedValues.Clean (v : PrintedValues) : Prop where
  tplName : Inert v.tplName
  courseName : Inert v.courseName
  cycleName : Inert v.cycleName
  instName : Inert v.instName
  today : Inert v.today

variable {v : PrintedValues} {pieces : List Piece}

/-- The replacements of a document are harmless. -/
theorem inert_pdfVars (hv : v.Clean) : ∀ r ∈ pdfVars v, '}' ∉ r.1 ∧ Inert r.2 := by
  have hnames : ∀ r ∈ pdfVars v, '}' ∉ r.1 := by
    simp only [pdfVars, List.forall_mem_cons]
    decide
  have hpage : Inert pageNumberSpan := by decide
  have htotal : Inert totalPagesSpan := by decide
  have htopics : Inert "Temas Consolidados".toList := by decide
  have hvalues : ∀ r ∈ pdfVars v, Inert r.2 := by
    simp only [pdfVars, List.forall_mem_cons, hpage, htotal, htopics, inert_toDigits, hv.tplName,
      hv.courseName, hv.cycleName, hv.instName, hv.today, List.not_mem_nil, false_implies,
      implies_true, and_self]
  exact fun r hr => ⟨hnames r hr, hvalues r hr⟩

/-- The replacements of a title are harmless. -/
theorem inert_htmlVars (hv : v.Clean) : ∀ r ∈ htmlVars v, '}' ∉ r.1 ∧ Inert r.2 := by
  have hsub : htmlVars v ⊆ pdfVars v := by
    simp [htmlVars, pdfVars]
  exact fun r hr => inert_pdfVars hv r (hsub hr)

/-- The replacements of a preview are harmless. -/
theorem inert_previewVars (hv : v.Clean) (pageNum : ℕ) :
    ∀ r ∈ previewVars v pageNum, '}' ∉ r.1 ∧ Inert r.2 := by
  have hnames : ∀ r ∈ previewVars v pageNum, '}' ∉ r.1 := by
    simp only [previewVars, List.forall_mem_cons]
    decide
  have htwo : Inert "2".toList := by decide
  have htopics : Inert "Temas Consolidados".toList := by decide
  have hvalues : ∀ r ∈ previewVars v pageNum, Inert r.2 := by
    simp only [previewVars, List.forall_mem_cons, htwo, htopics, inert_toDigits, hv.tplName,
      hv.courseName, hv.cycleName, hv.today, List.not_mem_nil, false_implies,
      implies_true, and_self]
  exact fun r hr => ⟨hnames r hr, hvalues r hr⟩

/-- The placeholders of page numbers. -/
def pageSlots : List (List Char) :=
  ["page", "pagina", "total_pages", "total_paginas", "total"].map String.toList

/-- A document and its preview replace the other placeholders by the same values. -/
theorem lookup_previewVars (hinst : v.instName = v.cycleName) {name : List Char}
    (hname : name ∉ pageSlots) (pageNum : ℕ) :
    (previewVars v pageNum).lookup name = (pdfVars v).lookup name := by
  simp only [pageSlots, List.map_cons, List.map_nil, List.mem_cons, List.not_mem_nil, or_false,
    not_or] at hname
  obtain ⟨hpage, hpagina, hpages, hpaginas, htotal⟩ := hname
  simp only [previewVars, pdfVars, List.lookup_cons, beq_eq_false_iff_ne.mpr hpage,
    beq_eq_false_iff_ne.mpr hpagina, beq_eq_false_iff_ne.mpr hpages,
    beq_eq_false_iff_ne.mpr hpaginas, beq_eq_false_iff_ne.mpr htotal, hinst]

/-- Replacing the placeholders of a whole text. -/
theorem resolveVars_flatMap {vars : List (List Char × List Char)}
    (hvars : ∀ r ∈ vars, '}' ∉ r.1 ∧ Inert r.2) (hpieces : ∀ p ∈ pieces, p.Plain) :
    resolveVars vars (pieces.flatMap Piece.source) = pieces.flatMap (Piece.fill vars) := by
  rw [resolveVars]
  split
  · rename_i hempty
    cases pieces with
    | nil => rfl
    | cons p pieces => cases p <;> simp [Piece.source, placeholder] at hempty
  · exact replaceEach_flatMap hvars hpieces

/-- Where the cycle is the institution, a preview differs from the document in the numbers of its
pages only. -/
theorem resolveVars_previewVars (hv : v.Clean) (hpieces : ∀ p ∈ pieces, p.Plain)
    (hinst : v.instName = v.cycleName) (hslots : ∀ name ∈ pageSlots, .slot name ∉ pieces)
    (pageNum : ℕ) : resolveVars (previewVars v pageNum) (pieces.flatMap Piece.source) =
      resolveVars (pdfVars v) (pieces.flatMap Piece.source) := by
  rw [resolveVars_flatMap (inert_previewVars hv pageNum) hpieces,
    resolveVars_flatMap (inert_pdfVars hv) hpieces]
  refine List.flatMap_congr fun p hp => ?_
  cases p with
  | letter c => rfl
  | slot name =>
    have hname : name ∉ pageSlots := fun hmem => hslots name hmem hp
    rw [Piece.fill, Piece.fill, lookup_previewVars hinst hname pageNum]

/-- **A preview is a document:** apart from its page numbers it shows what the document of its
values shows. -/
theorem preview_as_document (overrides : PreviewOverrides) (today : List Char)
    (hclean : (previewValues overrides today).Clean) (hpieces : ∀ p ∈ pieces, p.Plain)
    (hslots : ∀ name ∈ pageSlots, .slot name ∉ pieces) (pageNum : ℕ) :
    resolveVars (previewVars (previewValues overrides today) pageNum)
        (pieces.flatMap Piece.source) =
      resolveVars (pdfVars (previewValues overrides today)) (pieces.flatMap Piece.source) :=
  resolveVars_previewVars hclean hpieces rfl hslots pageNum

/-- **The order of a chain** does not matter, when its names are distinct. -/
theorem resolveVars_perm {vars vars' : List (List Char × List Char)}
    (hvars : ∀ r ∈ vars, '}' ∉ r.1 ∧ Inert r.2) (hnodup : (vars.map Prod.fst).Nodup)
    (hperm : vars.Perm vars') (hpieces : ∀ p ∈ pieces, p.Plain) :
    resolveVars vars (pieces.flatMap Piece.source) =
      resolveVars vars' (pieces.flatMap Piece.source) := by
  have hvars' : ∀ r ∈ vars', '}' ∉ r.1 ∧ Inert r.2 := fun r hr => hvars r (hperm.mem_iff.mpr hr)
  rw [resolveVars_flatMap hvars hpieces, resolveVars_flatMap hvars' hpieces]
  refine List.flatMap_congr fun p _ => ?_
  cases p with
  | letter c => rfl
  | slot name => rw [Piece.fill, Piece.fill, lookup_perm hperm hnodup]

/-- The names of the three chains are distinct. -/
theorem nodup_names (pageNum : ℕ) : ((pdfVars v).map Prod.fst).Nodup ∧
    ((htmlVars v).map Prod.fst).Nodup ∧ ((previewVars v pageNum).map Prod.fst).Nodup := by
  simp only [pdfVars, htmlVars, previewVars, List.map_cons, List.map_nil]
  decide

/-- So their replacements may be made in any order. -/
theorem resolveVars_any_order (hv : v.Clean) (hpieces : ∀ p ∈ pieces, p.Plain) (pageNum : ℕ)
    (vars : List (List Char × List Char)) :
    let text := pieces.flatMap Piece.source
    ((pdfVars v).Perm vars → resolveVars (pdfVars v) text = resolveVars vars text) ∧
    ((htmlVars v).Perm vars → resolveVars (htmlVars v) text = resolveVars vars text) ∧
    ((previewVars v pageNum).Perm vars →
      resolveVars (previewVars v pageNum) text = resolveVars vars text) := by
  obtain ⟨hpdf, hhtml, hpreview⟩ := nodup_names (v := v) pageNum
  exact ⟨fun hperm => resolveVars_perm (inert_pdfVars hv) hpdf hperm hpieces,
    fun hperm => resolveVars_perm (inert_htmlVars hv) hhtml hperm hpieces,
    fun hperm => resolveVars_perm (inert_previewVars hv pageNum) hpreview hperm hpieces⟩

/-- **The texts of a page:** where the braces of a text are not nested and each brace that opens is
closed, and no value has a brace that opens or a dollar, the chains of replacements of a document,
of its title and of a preview each put all their values in at once. Where the cycle is the
institution, a preview differs from the document in the numbers of its pages only. -/
theorem resolveVars_at_once (hv : v.Clean) (hpieces : ∀ p ∈ pieces, p.Plain) (pageNum : ℕ) :
    let text := pieces.flatMap Piece.source
    resolveVars (pdfVars v) text = pieces.flatMap (Piece.fill (pdfVars v)) ∧
    resolveVars (htmlVars v) text = pieces.flatMap (Piece.fill (htmlVars v)) ∧
    resolveVars (previewVars v pageNum) text = pieces.flatMap (Piece.fill (previewVars v pageNum)) ∧
    (v.instName = v.cycleName → (∀ name ∈ pageSlots, .slot name ∉ pieces) →
      resolveVars (previewVars v pageNum) text = resolveVars (pdfVars v) text) := by
  intro text
  exact ⟨resolveVars_flatMap (inert_pdfVars hv) hpieces,
    resolveVars_flatMap (inert_htmlVars hv) hpieces,
    resolveVars_flatMap (inert_previewVars hv pageNum) hpieces,
    fun hinst hslots => resolveVars_previewVars hv hpieces hinst hslots pageNum⟩

/-- The values of a tenant without a name of its own. -/
def arithmetic : PrintedValues :=
  pdfValues ⟨some "Aritmética".toList, some "Verano".toList, none⟩ "7".toList (some 3) none
    "1/2/2026".toList

/-- A text with a placeholder that nobody knows. -/
def zone : List Piece :=
  [.slot "curso".toList, .letter ' ', .slot "aula".toList, .letter ' ',
    .slot "institucion_nombre".toList]

/-- The unknown placeholder stays. -/
theorem resolveVars_at_once_zone :
    resolveVars (pdfVars arithmetic) "{curso} {aula} {institucion_nombre}".toList =
      "Aritmética {aula} Verano".toList ∧
    resolveVars (previewVars arithmetic 1) (zone.flatMap Piece.source) =
      resolveVars (pdfVars arithmetic) (zone.flatMap Piece.source) := by
  have hclean : arithmetic.Clean := ⟨by decide, by decide, by decide, by decide, by decide⟩
  have h := resolveVars_at_once hclean (by decide : ∀ p ∈ zone, p.Plain) 1
  exact ⟨h.1.trans (by decide), h.2.2.2 rfl (by decide)⟩

end Odiseo.Designs
