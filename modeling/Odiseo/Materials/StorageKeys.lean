import Odiseo.Logging.ScrubSecrets
import Odiseo.Materials.Merge
import Odiseo.Text.Split
import Odiseo.Text.Url

/-!
# The keys of stored PDFs

The worker uploads the PDFs of a request under keys that are put together from ids and from the name
of the template, and stores signed addresses of them. A download, and a merge, reads the key off the
path of the address. It is the key of the upload, and each PDF of a request has one of its own.
-/

namespace Odiseo.Materials

open Logging (CodeUnit charOf unitOf)
open Text

/-- A hexadecimal digit. -/
def isHexDigit (c : Char) : Bool := c.isDigit || ('a' ≤ c && c ≤ 'f') || ('A' ≤ c && c ≤ 'F')

/-- The text of a UUID: groups of hexadecimal digits. -/
structure UuidText where
  text : List Char
  digits : (text.all fun c => isHexDigit c || c == '-') = true
  groups : (text.splitOn '-').map List.length = [8, 4, 4, 4, 12]

/-- The ids in the keys of a request. -/
structure KeyIds where
  tenantId : UuidText
  cycleId : UuidText
  materialRequestId : UuidText

/-- `template_name || 'Material'`. -/
def templateText : Option (List CodeUnit) → List CodeUnit
  | none | some [] => "Material".toList.map unitOf
  | some (u :: name) => u :: name

/-- `week_number || ''`. -/
def weekText : Option ℕ → List CodeUnit
  | none | some 0 => []
  | some (week + 1) => (Nat.toDigits 10 (week + 1)).map unitOf

/-- `[a-zA-Z0-9_\-]`. -/
def isNameChar (c : Char) : Bool := c.isAlphanum || c == '_' || c == '-'

/-- `text.replace(/[^a-zA-Z0-9_\-]/g, '_')`. -/
def sanitize (text : List CodeUnit) : List CodeUnit :=
  replaceAll charOf (.one fun c => !isNameChar c) unitOf (Insert.text (L := Empty) "_") text

/-- `safeName` of a course. -/
def safeName (templateName : Option (List CodeUnit)) (week : Option ℕ) (courseId : CatalogId) :
    List CodeUnit :=
  sanitize (templateText templateName ++ "_Semana".toList.map unitOf ++ weekText week ++
    unitOf '_' :: (Nat.toDigits 10 courseId).map unitOf)

/-- What follows the name of a course. -/
def variantEnding : Variant → String
  | .student => ".pdf"
  | .keys => "_keys.pdf"
  | .solutions => "_solutions.pdf"

/-- The key of a PDF of a course. -/
def KeyIds.courseKey (ids : KeyIds) (safeName : List CodeUnit) (variant : Variant) : List Char :=
  "materials/".toList ++ ids.tenantId.text ++ '/' :: ids.cycleId.text ++
    '/' :: ids.materialRequestId.text ++
      '/' :: (safeName.map charOf ++ (variantEnding variant).toList)

/-- The key of a combined PDF. -/
def KeyIds.mergedKey (ids : KeyIds) (variant : Variant) : List Char :=
  "materials/".toList ++ ids.tenantId.text ++ "/merged/".toList ++ ids.materialRequestId.text ++
    '/' :: (mergedName variant).toList

/-- A PDF that the worker uploads for a request. -/
inductive Artifact
  | course (templateName : Option (List CodeUnit)) (week : Option ℕ) (courseId : CatalogId)
      (variant : Variant)
  | merged (variant : Variant)

/-- The course of a PDF, and which of the three PDFs it is. -/
def Artifact.place : Artifact → Option CatalogId × Variant
  | .course _ _ courseId variant => (some courseId, variant)
  | .merged variant => (none, variant)

/-- The key of a PDF. -/
def KeyIds.key (ids : KeyIds) : Artifact → List Char
  | .course templateName week courseId variant =>
    ids.courseKey (safeName templateName week courseId) variant
  | .merged variant => ids.mergedKey variant

/-! ### Signed addresses -/

/-- A character that the encoding of keys keeps. -/
def isUnreserved (c : Char) : Bool := c.isAlphanum || ['-', '_', '.', '~'].contains c

/-- A key with each segment encoded. -/
def encodeKey (key : List Char) : List Char :=
  ['/'].intercalate ((key.splitOn '/').map fun segment =>
    segment.flatMap (percentEncode isUnreserved))

/-- The addresses of a bucket, in the style that has it in the path. -/
structure PathStyle (rules : UrlRules) where
  endpoint : Endpoint rules
  http : "http".toList.isPrefixOf endpoint.scheme = true
  bucket : List Char
  bucket_chars : (bucket.all fun c => c.isAlphanum || c == '-' || c == '.') = true
  bucket_head : ∃ c w, bucket = c :: w ∧ c.isAlphanum = true

/-- An address of an object. -/
def PathStyle.address {rules : UrlRules} (style : PathStyle rules) (key query : List Char) :
    List Char :=
  style.endpoint.text ++ '/' :: style.bucket ++ '/' :: encodeKey key ++ '?' :: query

/-- An address that `uploadBuffer` answers with for an object, as it is documented of the presigner.
The signature is in the query. -/
def PathStyle.Signed {rules : UrlRules} (style : PathStyle rules) (key url : List Char) : Prop :=
  ∃ query, url = style.address key query

section Decoding

variable (rules : UrlRules)

/-- The key that an address, or a key, stands for. It is an error when the address is none. -/
def keyOfUrl (raw : List Char) : Option (List Char) :=
  if "http".toList.isPrefixOf raw then
    (rules.pathname raw).map fun pathname => ['/'].intercalate ((pathname.splitOn '/').drop 2)
  else some raw

/-- What a download answers with. -/
structure SignedDownload where
  signedUrl : List Char
  s3Key : List Char
  filename : List Char

/-- `getSignedUrlFromRaw`. -/
def getSignedUrlFromRaw (presign : List Char → List Char) (rawUrl : List Char) :
    Option SignedDownload :=
  (keyOfUrl rules rawUrl).map fun s3Key =>
    { signedUrl := presign s3Key
      s3Key := s3Key
      filename := match (s3Key.splitOn '/').getLast? with
        | none | some [] => "material.pdf".toList
        | some (c :: name) => c :: name }

/-- The loop of `mergeAndUpload`: what it reads of the addresses that are set. An address that is
none, and an object that cannot be read, is skipped. -/
def readSources {α : Type} (getObject : List Char → Option α) (urls : List (Option (List Char))) :
    List α :=
  (urls.filterMap fun url => url.filter fun raw => !raw.isEmpty).filterMap fun raw =>
    (keyOfUrl rules raw).bind getObject

end Decoding

/-! ### Safe segments -/

/-- A segment of a key that the encoding keeps and that is not made of dots. -/
structure SafeSegment (segment : List Char) : Prop where
  chars : ∀ c ∈ segment, isUnreserved c = true
  head : ∃ c w, segment = c :: w ∧ c ≠ '.'

/-- What the encoding of keys keeps may stand in a path. -/
theorem kept_of_isUnreserved {c : Char} (hc : isUnreserved c = true) :
    keptInPath c = true ∧ isSlash c = false ∧ c ≠ '%' := by
  by_cases hword : isWord c = true
  · have hcode := toNat_of_isWord hword
    refine ⟨?_, ?_, ?_⟩
    · unfold keptInPath
      simp
      omega
    · unfold isSlash
      rw [Bool.or_eq_false_iff, beq_eq_false_iff_ne, beq_eq_false_iff_ne]
      constructor <;> rintro rfl <;> exact absurd hword (by decide)
    · rintro rfl
      exact absurd hword (by decide)
  · unfold isUnreserved at hc
    unfold isWord at hword
    simp only [Bool.or_eq_true, not_or] at hword
    simp only [Bool.or_eq_true, List.contains_iff_mem, List.mem_cons, List.not_mem_nil,
      or_false] at hc
    rcases hc with hc | rfl | rfl | rfl | rfl
    · exact absurd hc hword.1
    all_goals decide

/-- A safe segment stands in a path as it is. -/
theorem SafeSegment.plain {segment : List Char} (hsafe : SafeSegment segment) :
    PlainSegment segment := by
  obtain ⟨c, w, rfl, hdot⟩ := hsafe.head
  have hkept : ∀ d ∈ c :: w, keptInPath d = true ∧ isSlash d = false := fun d hd =>
    ⟨(kept_of_isUnreserved (hsafe.chars d hd)).1, (kept_of_isUnreserved (hsafe.chars d hd)).2.1⟩
  exact plainSegment_cons hdot (kept_of_isUnreserved (hsafe.chars c List.mem_cons_self)).2.2 hkept

/-- A safe segment has no slash. -/
theorem SafeSegment.slash_notMem {segment : List Char} (hsafe : SafeSegment segment) :
    '/' ∉ segment := by
  intro hmem
  exact absurd (hsafe.chars _ hmem) (by decide)

/-- A safe segment is encoded as it is. -/
theorem SafeSegment.encode {segment : List Char} (hsafe : SafeSegment segment) :
    segment.flatMap (percentEncode isUnreserved) = segment := by
  have hone : ∀ c ∈ segment, percentEncode isUnreserved c = [c] := fun c hc =>
    if_pos (hsafe.chars c hc)
  rw [List.flatMap_congr hone]
  exact List.flatMap_singleton' segment

section Signed

variable {rules : UrlRules} {style : PathStyle rules} {segments : List (List Char)}

/-- A key with safe segments is encoded as it is. -/
theorem encodeKey_eq (hne : segments ≠ []) (hsafe : ∀ s ∈ segments, SafeSegment s) :
    encodeKey (['/'].intercalate segments) = ['/'].intercalate segments := by
  unfold encodeKey
  rw [List.splitOn_intercalate '/' (fun s hs => (hsafe s hs).slash_notMem) hne,
    List.map_congr_left fun s hs => (hsafe s hs).encode, List.map_id']

/-- The name of a bucket is a safe segment. -/
theorem PathStyle.safe_bucket (style : PathStyle rules) : SafeSegment style.bucket where
  chars c hc := by
    have hchar := List.all_eq_true.mp style.bucket_chars c hc
    simp only [Bool.or_eq_true, beq_iff_eq] at hchar
    unfold isUnreserved
    rcases hchar with (hchar | rfl) | rfl
    · rw [hchar]
      rfl
    · decide
    · decide
  head := by
    obtain ⟨c, w, hbucket, halphanum⟩ := style.bucket_head
    refine ⟨c, w, hbucket, ?_⟩
    rintro rfl
    exact absurd halphanum (by decide)

/-- **The key is read off a signed address**, when its segments are safe. -/
theorem PathStyle.Signed.keyOfUrl_eq {url : List Char} (hne : segments ≠ [])
    (hsafe : ∀ s ∈ segments, SafeSegment s)
    (hsigned : style.Signed (['/'].intercalate segments) url) :
    keyOfUrl rules url = some (['/'].intercalate segments) := by
  obtain ⟨query, hurl⟩ := hsigned
  unfold PathStyle.address at hurl
  rw [encodeKey_eq hne hsafe] at hurl
  have hsafe' : ∀ s ∈ style.bucket :: segments, SafeSegment s :=
    List.forall_mem_cons.mpr ⟨style.safe_bucket, hsafe⟩
  have hpath : pathText (style.bucket :: segments) = [] ++ '/' :: (style.bucket ++
      '/' :: ['/'].intercalate segments) := by
    rw [pathText_eq (List.cons_ne_nil _ _), List.intercalate_cons_of_ne_nil hne]
    simp
  have haddress : url = style.endpoint.text ++ pathText (style.bucket :: segments) ++
      '?' :: query := by
    rw [hurl, hpath]
    simp
  have hhttp : "http".toList.isPrefixOf url = true := by
    rw [hurl, List.isPrefixOf_iff_prefix]
    unfold Endpoint.text
    simp only [List.append_assoc]
    exact (List.isPrefixOf_iff_prefix.mp style.http).trans (List.prefix_append _ _)
  unfold keyOfUrl
  rw [if_pos hhttp, haddress, style.endpoint.pathname_append (List.cons_ne_nil _ _)
    (fun s hs => (hsafe' s hs).plain) query, Option.map_some, hpath,
    List.splitOn_append_cons_self_of_not_mem List.not_mem_nil,
    List.splitOn_append_cons_self_of_not_mem style.safe_bucket.slash_notMem]
  exact congrArg some (List.intercalate_splitOn '/')

end Signed

/-! ### The segments of a key -/

/-- The characters of a text that has been sanitized. -/
theorem map_charOf_sanitize (text : List CodeUnit) : (sanitize text).map charOf =
    text.map fun u => if isNameChar (charOf u) then charOf u else '_' := by
  have hone : ∀ u ∈ text, ((if !isNameChar (charOf u) then "_".toList.map unitOf else [u]).map
      charOf) = [if isNameChar (charOf u) then charOf u else '_'] := by
    intro u _
    cases isNameChar (charOf u) with
    | true => rfl
    | false =>
      have hunderscore : charOf (unitOf '_') = '_' := by decide
      exact congrArg (fun c => [c]) hunderscore
  unfold sanitize
  rw [replaceAll_one, List.map_flatMap, List.flatMap_congr hone]
  exact List.map_eq_flatMap.symm

/-- A digit as a code unit. -/
theorem charOf_unitOf_digit {c : Char} (hc : c.isDigit = true) :
    charOf (unitOf c) = c ∧ isNameChar c = true := by
  have hword : isWord c = true := by
    unfold isWord Char.isAlphanum
    rw [hc, Bool.or_true, Bool.true_or]
  have hcode := toNat_of_isWord hword
  constructor
  · have hsize : UInt16.size = 65536 := rfl
    unfold charOf unitOf
    rw [UInt16.toNat_ofNat_of_lt' (by omega), Char.ofNat_toNat]
  · unfold isNameChar
    unfold isWord at hword
    rw [hword, Bool.true_or]

/-- A sanitized name is made of characters of names, and ends with the digits of the course. -/
theorem safeName_eq (templateName : Option (List CodeUnit)) (week : Option ℕ)
    (courseId : CatalogId) : ∃ c front,
      (safeName templateName week courseId).map charOf =
        c :: front ++ '_' :: Nat.toDigits 10 courseId ∧
          ∀ d ∈ (safeName templateName week courseId).map charOf, isNameChar d = true := by
  have htemplate : ∃ u name, templateText templateName = u :: name := by
    cases templateName with
    | none => exact ⟨_, _, rfl⟩
    | some name =>
      cases name with
      | nil => exact ⟨_, _, rfl⟩
      | cons u name => exact ⟨u, name, rfl⟩
  obtain ⟨u, name, htext⟩ := htemplate
  have hdigits : ((Nat.toDigits 10 courseId).map unitOf).map (fun u =>
      if isNameChar (charOf u) then charOf u else '_') = Nat.toDigits 10 courseId := by
    rw [List.map_map]
    refine (List.map_congr_left fun c hc => ?_).trans (List.map_id _)
    have hdigit := charOf_unitOf_digit (Nat.isDigit_of_mem_toDigits (by decide) (by decide) hc)
    simp [hdigit.1, hdigit.2]
  unfold safeName
  rw [map_charOf_sanitize, htext]
  refine ⟨if isNameChar (charOf u) then charOf u else '_', (name ++ "_Semana".toList.map unitOf ++
    weekText week).map fun u => if isNameChar (charOf u) then charOf u else '_', ?_, ?_⟩
  · rw [List.map_append, List.map_cons, hdigits]
    simp
    decide
  · intro d hd
    obtain ⟨v, -, rfl⟩ := List.mem_map.mp hd
    split
    · assumption
    · decide

/-- The last segment of a key. -/
def Artifact.fileName : Artifact → List Char
  | .course templateName week courseId variant =>
    (safeName templateName week courseId).map charOf ++ (variantEnding variant).toList
  | .merged variant => (mergedName variant).toList

/-- The segment of a key after the tenant. -/
def KeyIds.folder (ids : KeyIds) : Artifact → List Char
  | .course _ _ _ _ => ids.cycleId.text
  | .merged _ => "merged".toList

/-- The segments of a key. -/
def KeyIds.segments (ids : KeyIds) (a : Artifact) : List (List Char) :=
  ["materials".toList, ids.tenantId.text, ids.folder a, ids.materialRequestId.text, a.fileName]

/-- A key is put together from its segments. -/
theorem KeyIds.key_eq (ids : KeyIds) (a : Artifact) :
    ids.key a = ['/'].intercalate (ids.segments a) := by
  have hmaterials : "materials/".toList = "materials".toList ++ ['/'] := by decide
  have hmerged : "/merged/".toList = '/' :: "merged".toList ++ ['/'] := by decide
  unfold KeyIds.segments
  rw [List.intercalate_cons_cons, List.intercalate_cons_cons, List.intercalate_cons_cons,
    List.intercalate_cons_cons, List.intercalate_singleton]
  cases a with
  | course templateName week courseId variant =>
    unfold KeyIds.key KeyIds.courseKey KeyIds.folder Artifact.fileName
    dsimp only
    rw [hmaterials]
    simp only [List.append_assoc, List.cons_append, List.nil_append]
  | merged variant =>
    unfold KeyIds.key KeyIds.mergedKey KeyIds.folder Artifact.fileName
    dsimp only
    rw [hmaterials, hmerged]
    simp only [List.append_assoc, List.cons_append, List.nil_append]

/-- A hexadecimal digit is a letter or a digit. -/
theorem isAlphanum_of_isHexDigit {c : Char} (hc : isHexDigit c = true) : c.isAlphanum = true := by
  unfold isHexDigit at hc
  unfold Char.isAlphanum Char.isAlpha Char.isLower Char.isUpper
  simp only [Bool.or_eq_true, Bool.and_eq_true, decide_eq_true_eq] at hc ⊢
  rcases hc with (hdigit | ⟨hfirst, hlast⟩) | ⟨hfirst, hlast⟩
  · exact Or.inr hdigit
  · exact Or.inl (Or.inr ⟨hfirst, UInt32.le_trans hlast (by decide)⟩)
  · exact Or.inl (Or.inl ⟨hfirst, UInt32.le_trans hlast (by decide)⟩)

/-- The characters of a UUID. -/
theorem UuidText.of_mem (u : UuidText) {c : Char} (hc : c ∈ u.text) :
    isUnreserved c = true ∧ c ≠ '.' ∧ c ≠ 'm' := by
  have hdigit := List.all_eq_true.mp u.digits c hc
  refine ⟨?_, ?_, ?_⟩
  · unfold isUnreserved
    rcases Bool.or_eq_true_iff.mp hdigit with hdigit | hdigit
    · rw [isAlphanum_of_isHexDigit hdigit, Bool.true_or]
    · rw [beq_iff_eq.mp hdigit]
      decide
  · rintro rfl
    exact absurd hdigit (by decide)
  · rintro rfl
    exact absurd hdigit (by decide)

/-- The text of a UUID is a safe segment. -/
theorem UuidText.safe (u : UuidText) : SafeSegment u.text where
  chars c hc := (u.of_mem hc).1
  head := by
    have hne : u.text ≠ [] := by
      intro hnil
      have hgroups := u.groups
      rw [hnil] at hgroups
      exact absurd hgroups (by decide)
    obtain ⟨c, w, htext⟩ := List.exists_cons_of_ne_nil hne
    exact ⟨c, w, htext, (u.of_mem (htext ▸ List.mem_cons_self)).2.1⟩

/-- A character of a name is kept by the encoding of keys. -/
theorem isUnreserved_of_isNameChar {c : Char} (hc : isNameChar c = true) :
    isUnreserved c = true ∧ c ≠ '.' := by
  unfold isNameChar at hc
  simp only [Bool.or_eq_true, beq_iff_eq] at hc
  constructor
  · unfold isUnreserved
    rcases hc with (hc | rfl) | rfl
    · rw [hc]
      rfl
    · decide
    · decide
  · rintro rfl
    exact absurd hc (by decide)

/-- A constant name is a safe segment. -/
theorem safeSegment_of_all {c : Char} {w : List Char} (hdot : c ≠ '.')
    (hall : (c :: w).all isUnreserved = true) : SafeSegment (c :: w) :=
  ⟨List.all_eq_true.mp hall, c, w, rfl, hdot⟩

/-- The name of a file is a safe segment. -/
theorem Artifact.safe_fileName (a : Artifact) : SafeSegment a.fileName := by
  cases a with
  | course templateName week courseId variant =>
    obtain ⟨c, front, hname, hchars⟩ := safeName_eq templateName week courseId
    have hending : ((variantEnding variant).toList.all isUnreserved) = true := by
      cases variant <;> decide
    have hc : c ∈ (safeName templateName week courseId).map charOf := by
      rw [hname]
      exact List.mem_cons_self
    unfold Artifact.fileName
    refine ⟨fun d hd => ?_, c, front ++ '_' :: Nat.toDigits 10 courseId ++
      (variantEnding variant).toList, ?_, (isUnreserved_of_isNameChar (hchars c hc)).2⟩
    · rcases List.mem_append.mp hd with hd | hd
      · exact (isUnreserved_of_isNameChar (hchars d hd)).1
      · exact List.all_eq_true.mp hending d hd
    · dsimp only
      rw [hname]
      rfl
  | merged variant =>
    cases variant <;> exact safeSegment_of_all (by decide) (by decide)

/-- The segments of a key are safe. -/
theorem KeyIds.safe_segments (ids : KeyIds) (a : Artifact) :
    ∀ s ∈ ids.segments a, SafeSegment s := by
  have hmaterials : SafeSegment "materials".toList := safeSegment_of_all (by decide) (by decide)
  have hfolder : SafeSegment (ids.folder a) := by
    cases a with
    | course templateName week courseId variant => exact ids.cycleId.safe
    | merged variant => exact safeSegment_of_all (by decide) (by decide)
  unfold KeyIds.segments
  simp only [List.forall_mem_cons, List.not_mem_nil, false_implies, implies_true, and_true]
  exact ⟨hmaterials, ids.tenantId.safe, hfolder, ids.materialRequestId.safe, a.safe_fileName⟩

section Stored

variable {rules : UrlRules} {style : PathStyle rules} {ids : KeyIds}

/-- **The key of a PDF is read off its signed address.** -/
theorem PathStyle.Signed.keyOfUrl_key {a : Artifact} {url : List Char}
    (hsigned : style.Signed (ids.key a) url) : keyOfUrl rules url = some (ids.key a) := by
  rw [ids.key_eq a] at hsigned ⊢
  exact hsigned.keyOfUrl_eq (List.cons_ne_nil _ _) (ids.safe_segments a)

/-- The segments can be read off a key. -/
theorem KeyIds.splitOn_key (ids : KeyIds) (a : Artifact) :
    (ids.key a).splitOn '/' = ids.segments a := by
  rw [ids.key_eq, List.splitOn_intercalate '/'
    (fun s hs => (ids.safe_segments a s hs).slash_notMem) (List.cons_ne_nil _ _)]

/-- A download of a PDF has its key, and its name. -/
theorem PathStyle.Signed.getSignedUrlFromRaw_eq {a : Artifact} {url : List Char}
    (hsigned : style.Signed (ids.key a) url) (presign : List Char → List Char) :
    getSignedUrlFromRaw rules presign url =
      some ⟨presign (ids.key a), ids.key a, a.fileName⟩ := by
  obtain ⟨c, name, hname, -⟩ := a.safe_fileName.head
  unfold getSignedUrlFromRaw
  rw [hsigned.keyOfUrl_key, Option.map_some, ids.splitOn_key]
  unfold KeyIds.segments
  rw [hname]
  rfl

/-- A merge reads the PDFs whose addresses are stored. -/
theorem readSources_signed {α : Type} (getObject : List Char → Option α)
    {stored : List (Artifact × List Char)}
    (hstored : ∀ x ∈ stored, style.Signed (ids.key x.1) x.2) :
    readSources rules getObject (stored.map fun x => some x.2) =
      stored.filterMap fun x => getObject (ids.key x.1) := by
  induction stored with
  | nil => rfl
  | cons x stored ih =>
    have hx := hstored x List.mem_cons_self
    have hset : (some x.2).filter (fun raw => !raw.isEmpty) = some x.2 := by
      obtain ⟨query, hurl⟩ := hx
      rw [hurl]
      simp [PathStyle.address]
    have hrest := ih fun y hy => hstored y (List.mem_cons_of_mem x hy)
    unfold readSources at hrest ⊢
    rw [List.map_cons, List.filterMap_cons_some hset, List.filterMap_cons, List.filterMap_cons,
      hrest, hx.keyOfUrl_key]
    rfl

end Stored

/-! ### Different PDFs have different keys -/

/-- What follows the last underscore of the name of a file. -/
def lastPart (courseId : CatalogId) : Variant → List Char
  | .student => Nat.toDigits 10 courseId ++ ".pdf".toList
  | .keys => "keys.pdf".toList
  | .solutions => "solutions.pdf".toList

/-- The last part has no underscore. -/
theorem underscore_notMem_lastPart (courseId : CatalogId) (variant : Variant) :
    '_' ∉ lastPart courseId variant := by
  cases variant with
  | student =>
    intro hmem
    rcases List.mem_append.mp hmem with hmem | hmem
    · exact notMem_toDigits (by decide) courseId hmem
    · exact absurd hmem (by decide)
  | keys =>
    change '_' ∉ "keys.pdf".toList
    decide
  | solutions =>
    change '_' ∉ "solutions.pdf".toList
    decide

/-- The last part ends the name of a file. -/
theorem exists_append_lastPart (front : List Char) (courseId : CatalogId) (variant : Variant) :
    ∃ front', front ++ '_' :: Nat.toDigits 10 courseId ++ (variantEnding variant).toList =
      front' ++ '_' :: lastPart courseId variant := by
  cases variant with
  | student => exact ⟨front, List.append_assoc _ _ _⟩
  | keys => exact ⟨front ++ '_' :: Nat.toDigits 10 courseId, rfl⟩
  | solutions => exact ⟨front ++ '_' :: Nat.toDigits 10 courseId, rfl⟩

/-- The last part says which of the three PDFs it is. -/
theorem eq_of_lastPart {courseId courseId' : CatalogId} {variant variant' : Variant}
    (h : lastPart courseId variant = lastPart courseId' variant') : variant = variant' := by
  have hdigit : ∀ {n : ℕ} {c : Char} {rest : List Char}, c.isDigit = false →
      Nat.toDigits 10 n ++ ".pdf".toList ≠ c :: rest := by
    intro n c rest hc h
    obtain ⟨d, digits, hdigits⟩ := List.exists_cons_of_ne_nil (@Nat.toDigits_ne_nil n 10)
    rw [hdigits] at h
    refine notMem_toDigits hc n ?_
    rw [hdigits, (List.cons.inj h).1]
    exact List.mem_cons_self
  have hkeys : "keys.pdf".toList ≠ "solutions.pdf".toList := by decide
  cases variant <;> cases variant' <;> first
    | rfl
    | exact absurd h (hdigit (by decide))
    | exact absurd h.symm (hdigit (by decide))
    | exact absurd h hkeys
    | exact absurd h.symm hkeys

/-- The course, and which of the three PDFs it is, can be read off the name of a file. -/
theorem courseName_inj {front front' : List Char} {courseId courseId' : CatalogId}
    {variant variant' : Variant}
    (h : front ++ '_' :: Nat.toDigits 10 courseId ++ (variantEnding variant).toList =
      front' ++ '_' :: Nat.toDigits 10 courseId' ++ (variantEnding variant').toList) :
    courseId = courseId' ∧ variant = variant' := by
  have hvariant : variant = variant' := by
    obtain ⟨_, hlast⟩ := exists_append_lastPart front courseId variant
    obtain ⟨_, hlast'⟩ := exists_append_lastPart front' courseId' variant'
    rw [hlast, hlast'] at h
    exact eq_of_lastPart (append_last_inj (underscore_notMem_lastPart courseId variant)
      (underscore_notMem_lastPart courseId' variant') h).2
  subst hvariant
  obtain ⟨-, hdigits⟩ := append_last_inj (notMem_toDigits (by decide) courseId)
    (notMem_toDigits (by decide) courseId') (List.append_cancel_right h)
  exact ⟨toDigits_inj hdigits, rfl⟩

/-- A UUID is not the folder of the combined PDFs. -/
theorem UuidText.ne_merged (u : UuidText) : u.text ≠ "merged".toList := by
  intro htext
  have hm : 'm' ∈ u.text := by
    rw [htext]
    decide
  exact (u.of_mem hm).2.2 rfl

/-- **The key of a PDF says whose it is, and which PDF of the request.** -/
theorem KeyIds.of_key_eq {ids ids' : KeyIds} {a a' : Artifact} (h : ids.key a = ids'.key a') :
    ids.tenantId.text = ids'.tenantId.text ∧
      ids.materialRequestId.text = ids'.materialRequestId.text ∧ a.place = a'.place := by
  have hsegments := congrArg (List.splitOn '/') h
  rw [ids.splitOn_key, ids'.splitOn_key] at hsegments
  unfold KeyIds.segments at hsegments
  simp only [List.cons.injEq, true_and, and_true] at hsegments
  obtain ⟨htenant, hfolder, hrequest, hname⟩ := hsegments
  refine ⟨htenant, hrequest, ?_⟩
  cases a with
  | course templateName week courseId variant =>
    cases a' with
    | course templateName' week' courseId' variant' =>
      obtain ⟨c, front, hsafe, -⟩ := safeName_eq templateName week courseId
      obtain ⟨c', front', hsafe', -⟩ := safeName_eq templateName' week' courseId'
      unfold Artifact.fileName at hname
      dsimp only at hname
      rw [hsafe, hsafe'] at hname
      obtain ⟨rfl, rfl⟩ := courseName_inj hname
      rfl
    | merged variant' => exact absurd hfolder ids.cycleId.ne_merged
  | merged variant =>
    cases a' with
    | course templateName' week' courseId' variant' =>
      exact absurd hfolder.symm ids'.cycleId.ne_merged
    | merged variant' =>
      have hsame := String.toList_inj.mp hname
      cases variant <;> cases variant' <;> first | rfl | exact absurd hsame (by decide)

/-- **Stored addresses stand for the keys of the uploads**: a download and a merge read them off,
and each PDF of a request has a key of its own. -/
theorem stored_urls_decode {rules : UrlRules} (style : PathStyle rules) (ids : KeyIds)
    {stored : List (Artifact × List Char)}
    (hstored : ∀ x ∈ stored, style.Signed (ids.key x.1) x.2) :
    (∀ x ∈ stored, ∀ presign, (getSignedUrlFromRaw rules presign x.2).map SignedDownload.s3Key =
      some (ids.key x.1)) ∧
      (∀ {α : Type} (getObject : List Char → Option α),
        readSources rules getObject (stored.map fun x => some x.2) =
          stored.filterMap fun x => getObject (ids.key x.1)) ∧
        ∀ a a', a.place ≠ a'.place → ids.key a ≠ ids.key a' := by
  refine ⟨fun x hx presign => ?_, fun getObject => readSources_signed getObject hstored,
    fun a a' hplace hkey => hplace (KeyIds.of_key_eq hkey).2.2⟩
  rw [(hstored x hx).getSignedUrlFromRaw_eq presign]
  rfl

/-- A parser that knows the host of the development setup only. -/
def localRules : UrlRules :=
  ⟨fun authority => authority == "localhost:4566".toList, fun _ _ => none⟩

/-- The defaults of the development setup. -/
def localStyle : PathStyle localRules where
  endpoint :=
    { scheme := "http".toList
      authority := "localhost:4566".toList
      scheme_mem := by decide
      accepted := by decide
      authority_ne_nil := by decide
      authority_plain := by simp [isAuthorityChar, isSlash, endsPath, isBreak] }
  http := by decide
  bucket := "odiseo-materials".toList
  bucket_chars := by decide
  bucket_head := ⟨_, _, rfl, by decide⟩

/-- A request of the development setup. -/
def localIds : KeyIds :=
  let id : UuidText := ⟨"0a1b2c3d-0000-4000-8000-00000000abcd".toList, by decide, by decide⟩
  ⟨id, id, id⟩

/-- The answer key of a course, whose template has a name with other characters. -/
def localArtifact : Artifact := .course (some ("Guía #1?".toList.map unitOf)) (some 3) 7 .keys

/-- It is stored with a signed address. -/
theorem stored_urls_decode_local :
    readSources localRules some [some (localStyle.address (localIds.key localArtifact)
      "X-Amz-Expires=86400".toList)] = [("materials/0a1b2c3d-0000-4000-8000-00000000abcd/" ++
        "0a1b2c3d-0000-4000-8000-00000000abcd/0a1b2c3d-0000-4000-8000-00000000abcd/" ++
          "Gu_a__1__Semana3_7_keys.pdf").toList] := by
  have hstored : ∀ x ∈ [(localArtifact, localStyle.address (localIds.key localArtifact)
      "X-Amz-Expires=86400".toList)], localStyle.Signed (localIds.key x.1) x.2 := by
    intro x hx
    obtain rfl := List.mem_singleton.mp hx
    exact ⟨_, rfl⟩
  have hread := (stored_urls_decode localStyle localIds hstored).2.1 some
  refine hread.trans ?_
  decide +kernel

/-! ### The keys of the worker's jobs -/

/-- The code units of a character. -/
def utf16 (c : Char) : List CodeUnit :=
  if c.toNat < 0x10000 then [unitOf c]
  else [UInt16.ofNat (0xd800 + (c.toNat - 0x10000) / 0x400),
    UInt16.ofNat (0xdc00 + (c.toNat - 0x10000) % 0x400)]

/-- The PDF that a job uploads under a key. -/
def ArtifactKey.artifact (key : ArtifactKey) : Artifact :=
  .course (some (key.templateName.toList.flatMap utf16)) (some key.weekNumber) key.courseId
    key.variant

/-- The ids in a key. -/
def ArtifactKey.ids (uuid : Uuid → UuidText) (key : ArtifactKey) : KeyIds :=
  ⟨uuid key.tenantId, uuid key.cycleId, uuid key.materialRequestId⟩

/-- The text that a key is put together to. -/
def ArtifactKey.text (uuid : Uuid → UuidText) (key : ArtifactKey) : List Char :=
  (key.ids uuid).key key.artifact

/-- **Under one text there are only PDFs of one course of a request**, and only one of the three
PDFs of it. -/
theorem ArtifactKey.of_text_eq {uuid : Uuid → UuidText}
    (huuid : ∀ n n', (uuid n).text = (uuid n').text → n = n') {key key' : ArtifactKey}
    (h : key.text uuid = key'.text uuid) :
    key.tenantId = key'.tenantId ∧ key.materialRequestId = key'.materialRequestId ∧
      key.courseId = key'.courseId ∧ key.variant = key'.variant := by
  obtain ⟨htenant, hrequest, hplace⟩ := KeyIds.of_key_eq h
  obtain ⟨hcourse, hvariant⟩ := Prod.mk.inj hplace
  exact ⟨huuid _ _ htenant, huuid _ _ hrequest, Option.some_inj.mp hcourse, hvariant⟩

end Odiseo.Materials
