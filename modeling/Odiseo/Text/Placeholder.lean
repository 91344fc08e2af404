import Odiseo.Text.Split

/-!
# Placeholders in a text

`text.replace(/{name}/g, value)` replaces the occurrences of a placeholder from left to right. In
the value, `$` with another letter stands for the match or for what is around it. Where the braces
of a text are not nested, and no value opens a brace or has a `$`, replacing placeholders one after
another is replacing them at once.
-/

namespace Text.Placeholder

variable {before matched after value name other w text : List Char}

/-- What a replacement value becomes at a match: `$$` is a dollar, `$&` the match, and `$` with a
backquote or with a quote is the text before or after it. -/
def expand (before matched after : List Char) : List Char → List Char
  | [] => []
  | [c] => [c]
  | c :: d :: value =>
    if c ≠ '$' then c :: expand before matched after (d :: value)
    else if d = '$' then '$' :: expand before matched after value
    else if d = '&' then matched ++ expand before matched after value
    else if d.toNat = 96 then before ++ expand before matched after value
    else if d.toNat = 39 then after ++ expand before matched after value
    else '$' :: expand before matched after (d :: value)

/-- Replace the occurrences of a pattern in what is left of a text, after some letters of the last
occurrence. -/
def replaceFrom (pattern value : List Char) : ℕ → List Char → List Char → List Char
  | _, _, [] => []
  | skip + 1, before, c :: text => replaceFrom pattern value skip (before ++ [c]) text
  | 0, before, c :: text =>
    if pattern.isPrefixOf (c :: text) then
      expand before pattern ((c :: text).drop pattern.length) value ++
        replaceFrom pattern value (pattern.length - 1) (before ++ [c]) text
    else c :: replaceFrom pattern value 0 (before ++ [c]) text

/-- `text.replace(pattern, value)` for a global pattern without special letters. -/
def replaceGlobal (pattern value text : List Char) : List Char :=
  replaceFrom pattern value 0 [] text

/-- `{name}`. -/
def placeholder (name : List Char) : List Char := '{' :: (name ++ ['}'])

/-- Replace placeholders, one after another. -/
def replaceEach (replacements : List (List Char × List Char)) (text : List Char) : List Char :=
  replacements.foldl (fun text r => replaceGlobal (placeholder r.1) r.2 text) text

/-- A value without a dollar is put in as it is. -/
theorem expand_of_notMem (h : '$' ∉ value) : expand before matched after value = value := by
  induction value with
  | nil => rfl
  | cons c value ih =>
    obtain ⟨hc, hvalue⟩ := not_or.mp (mt List.mem_cons.mpr h)
    cases value with
    | nil => rfl
    | cons d value => rw [expand, if_pos (Ne.symm hc), ih hvalue]

/-- The letters of an occurrence are skipped. -/
theorem replaceFrom_length {pattern : List Char} :
    replaceFrom pattern value w.length before (w ++ text) =
      replaceFrom pattern value 0 (before ++ w) text := by
  induction w generalizing before with
  | nil => simp
  | cons c w ih =>
    rw [List.length_cons, List.cons_append, replaceFrom, ih, List.append_assoc,
      List.singleton_append]

/-- Letters that open no brace are kept. -/
theorem replaceFrom_append (h : '{' ∉ w) :
    replaceFrom (placeholder name) value 0 before (w ++ text) =
      w ++ replaceFrom (placeholder name) value 0 (before ++ w) text := by
  induction w generalizing before with
  | nil => simp
  | cons c w ih =>
    obtain ⟨hc, hw⟩ := not_or.mp (mt List.mem_cons.mpr h)
    have hno : (placeholder name).isPrefixOf (c :: (w ++ text)) = false := by
      simp [placeholder, List.isPrefixOf, hc]
    rw [List.cons_append, replaceFrom, hno, if_neg Bool.false_ne_true, ih hw, List.append_assoc,
      List.singleton_append, List.cons_append]

/-- A placeholder is replaced. -/
theorem replaceFrom_self (hvalue : '$' ∉ value) :
    replaceFrom (placeholder name) value 0 before (placeholder name ++ text) =
      value ++ replaceFrom (placeholder name) value 0 (before ++ placeholder name) text := by
  have hyes : (placeholder name).isPrefixOf ('{' :: ((name ++ ['}']) ++ text)) :=
    List.isPrefixOf_iff_prefix.mpr (List.prefix_append (placeholder name) text)
  have hrest : replaceFrom (placeholder name) value ((placeholder name).length - 1)
      (before ++ ['{']) ((name ++ ['}']) ++ text) =
        replaceFrom (placeholder name) value 0 (before ++ placeholder name) text := by
    have hlength : (placeholder name).length - 1 = (name ++ ['}']).length := rfl
    rw [hlength, replaceFrom_length, List.append_assoc]
    rfl
  change replaceFrom (placeholder name) value 0 before ('{' :: ((name ++ ['}']) ++ text)) = _
  rw [replaceFrom, if_pos hyes, expand_of_notMem hvalue, hrest]

/-- Another placeholder is kept. -/
theorem replaceFrom_other (hne : other ≠ name) (hname : '}' ∉ name) (hopen : '{' ∉ other)
    (hclose : '}' ∉ other) :
    replaceFrom (placeholder name) value 0 before (placeholder other ++ text) =
      placeholder other ++
        replaceFrom (placeholder name) value 0 (before ++ placeholder other) text := by
  have hno : (placeholder name).isPrefixOf ('{' :: ((other ++ ['}']) ++ text)) = false := by
    refine Bool.eq_false_iff.mpr fun hprefix => ?_
    obtain ⟨rest, hrest⟩ := List.isPrefixOf_iff_prefix.mp hprefix
    have hname' : name ++ '}' :: rest = other ++ '}' :: text := by
      simpa [placeholder] using hrest
    exact hne (append_first_inj hname hclose hname').1.symm
  have hinner : '{' ∉ other ++ ['}'] := by simpa using hopen
  change replaceFrom (placeholder name) value 0 before ('{' :: ((other ++ ['}']) ++ text)) = _
  rw [replaceFrom, hno, if_neg Bool.false_ne_true, replaceFrom_append hinner,
    List.append_assoc before]
  rfl

/-- A piece of a text with placeholders. -/
inductive Piece
  | letter (c : Char)
  | slot (name : List Char)
  deriving DecidableEq, Repr

namespace Piece

/-- The text of a piece. -/
def source : Piece → List Char
  | .letter c => [c]
  | .slot name => placeholder name

/-- The braces are not nested. -/
def Plain : Piece → Prop
  | .letter c => c ≠ '{'
  | .slot name => '{' ∉ name ∧ '}' ∉ name

instance (p : Piece) : Decidable p.Plain :=
  match p with
  | .letter _ => inferInstanceAs (Decidable (_ ≠ _))
  | .slot _ => inferInstanceAs (Decidable (_ ∧ _))

/-- The text of a piece when the placeholders have their values. -/
def fill (replacements : List (List Char × List Char)) : Piece → List Char
  | .letter c => [c]
  | .slot name => (replacements.lookup name).getD (placeholder name)

/-- The pieces of a piece when one placeholder has its value. -/
def put (name value : List Char) : Piece → List Piece
  | .letter c => [.letter c]
  | .slot other => if other = name then value.map .letter else [.slot other]

variable {p : Piece}

/-- The pieces of a value are plain. -/
theorem Plain.of_mem_put (hp : p.Plain) (hvalue : '{' ∉ value) {q : Piece}
    (hq : q ∈ p.put name value) : q.Plain := by
  cases p with
  | letter c =>
    obtain rfl := List.mem_singleton.mp hq
    exact hp
  | slot other =>
    rw [put] at hq
    split at hq
    · obtain ⟨c, hc, rfl⟩ := List.mem_map.mp hq
      exact fun h => hvalue (h ▸ hc)
    · obtain rfl := List.mem_singleton.mp hq
      exact hp

/-- The text of letters. -/
theorem flatMap_letter {f : Piece → List Char} (hf : ∀ c, f (.letter c) = [c]) :
    (w.map .letter).flatMap f = w := by
  induction w with
  | nil => rfl
  | cons c w ih => rw [List.map_cons, List.flatMap_cons, hf, ih, List.singleton_append]

/-- A value that is put in first is not changed by the values after it. -/
theorem flatMap_put {replacements : List (List Char × List Char)} :
    (p.put name value).flatMap (fill replacements) = p.fill ((name, value) :: replacements) := by
  cases p with
  | letter c => rfl
  | slot other =>
    by_cases hother : other = name
    · rw [put, if_pos hother, flatMap_letter fun _ => rfl, fill, List.lookup_cons, hother,
        beq_self_eq_true]
      rfl
    · have hbeq : (other == name) = false := beq_eq_false_iff_ne.mpr hother
      rw [put, if_neg hother, fill, List.lookup_cons, hbeq]
      simp [fill]

end Piece

variable {pieces : List Piece} {replacements : List (List Char × List Char)}

/-- One placeholder is replaced wherever it stands. -/
theorem replaceFrom_flatMap (hname : '}' ∉ name) (hvalue : '$' ∉ value)
    (hpieces : ∀ p ∈ pieces, p.Plain) :
    replaceFrom (placeholder name) value 0 before (pieces.flatMap Piece.source) =
      (pieces.flatMap (Piece.put name value)).flatMap Piece.source := by
  induction pieces generalizing before with
  | nil => rfl
  | cons p pieces ih =>
    have hp : p.Plain := hpieces p (List.mem_cons_self ..)
    have hrest : ∀ p ∈ pieces, p.Plain := fun p hp => hpieces p (List.mem_cons_of_mem _ hp)
    rw [List.flatMap_cons, List.flatMap_cons, List.flatMap_append]
    cases p with
    | letter c =>
      have hc : '{' ∉ [c] := by simpa using Ne.symm hp
      rw [Piece.source, replaceFrom_append hc, ih hrest]
      rfl
    | slot other =>
      by_cases hother : other = name
      · rw [Piece.source, hother, replaceFrom_self hvalue, ih hrest, Piece.put, if_pos rfl,
          Piece.flatMap_letter fun _ => rfl]
      · rw [Piece.source, replaceFrom_other hother hname hp.1 hp.2, ih hrest, Piece.put,
          if_neg hother]
        simp [Piece.source]

/-- A value that is put in as it is, and makes no placeholder. -/
def Inert (value : List Char) : Prop := '{' ∉ value ∧ '$' ∉ value

instance (value : List Char) : Decidable (Inert value) := inferInstanceAs (Decidable (_ ∧ _))

/-- The digits of a number are inert. -/
theorem inert_toDigits (n : ℕ) : Inert (Nat.toDigits 10 n) :=
  ⟨notMem_toDigits (by decide) n, notMem_toDigits (by decide) n⟩

/-- Where no name comes twice, the order of the replacements does not matter to a lookup. -/
theorem lookup_perm {replacements' : List (List Char × List Char)}
    (hperm : replacements.Perm replacements') (hnodup : (replacements.map Prod.fst).Nodup)
    (name : List Char) : replacements.lookup name = replacements'.lookup name := by
  induction hperm with
  | nil => rfl
  | cons r hrest ih =>
    have hnodup' := (List.nodup_cons.mp (List.map_cons ▸ hnodup)).2
    rw [List.lookup_cons, List.lookup_cons, ih hnodup']
  | swap r s rest =>
    obtain ⟨first, value⟩ := r
    obtain ⟨second, value'⟩ := s
    have hne : second ≠ first := by
      simp only [List.map_cons, List.nodup_cons, List.mem_cons, not_or] at hnodup
      exact hnodup.1.1
    simp only [List.lookup_cons]
    by_cases hfirst : name = first
    · have hsecond : (name == second) = false :=
        beq_eq_false_iff_ne.mpr fun h => hne (h.symm.trans hfirst)
      rw [hsecond]
    · have hfirst : (name == first) = false := beq_eq_false_iff_ne.mpr hfirst
      rw [hfirst]
  | trans hfirst _ ih ih' =>
    exact (ih hnodup).trans (ih' ((hfirst.map Prod.fst).nodup_iff.mp hnodup))

/-- **One after another is at once.** -/
theorem replaceEach_flatMap (hreplacements : ∀ r ∈ replacements, '}' ∉ r.1 ∧ Inert r.2)
    (hpieces : ∀ p ∈ pieces, p.Plain) :
    replaceEach replacements (pieces.flatMap Piece.source) =
      pieces.flatMap (Piece.fill replacements) := by
  induction replacements generalizing pieces with
  | nil =>
    refine congrArg pieces.flatMap (funext fun p => ?_)
    cases p <;> rfl
  | cons r replacements ih =>
    obtain ⟨name, value⟩ := r
    obtain ⟨hname, hopen, hdollar⟩ := hreplacements (name, value) (List.mem_cons_self ..)
    have hrest : ∀ r ∈ replacements, '}' ∉ r.1 ∧ Inert r.2 := fun r hr =>
      hreplacements r (List.mem_cons_of_mem _ hr)
    have hput : ∀ q ∈ pieces.flatMap (Piece.put name value), q.Plain := by
      intro q hq
      obtain ⟨p, hp, hq⟩ := List.mem_flatMap.mp hq
      exact (hpieces p hp).of_mem_put hopen hq
    calc replaceEach ((name, value) :: replacements) (pieces.flatMap Piece.source)
        = replaceEach replacements (replaceGlobal (placeholder name) value
            (pieces.flatMap Piece.source)) := rfl
      _ = replaceEach replacements
            ((pieces.flatMap (Piece.put name value)).flatMap Piece.source) := by
          rw [replaceGlobal, replaceFrom_flatMap hname hdollar hpieces]
      _ = (pieces.flatMap (Piece.put name value)).flatMap (Piece.fill replacements) :=
          ih hrest hput
      _ = pieces.flatMap (Piece.fill ((name, value) :: replacements)) := by
          rw [List.flatMap_assoc]
          exact congrArg pieces.flatMap (funext fun p => Piece.flatMap_put)

end Text.Placeholder
