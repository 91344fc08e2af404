import Mathlib.Data.List.Infix

/-!
# The patterns of `LIKE`

A pattern is read once into literal letters and wildcards, where an escape letter makes the next
one literal, and then matched against a whole text. Quoting a text makes a pattern of it that
matches nothing else.
-/

namespace Text

variable {α : Type} [DecidableEq α]

/-- The letters with a meaning in patterns: the wildcards for one letter and for any number of
letters, and the letter that takes the meaning of the next one away. -/
structure LikeSyntax (α : Type) where
  one : α
  many : α
  escape : α
  many_ne_escape : many ≠ escape

/-- An item of a pattern. -/
inductive LikeItem (α : Type)
  | literal (c : α)
  | one
  | many
  deriving DecidableEq

namespace LikeSyntax

variable (stx : LikeSyntax α)

/-- Read a pattern. It must not end with the escape letter. -/
def parse : List α → Option (List (LikeItem α))
  | [] => some []
  | c :: pattern =>
    if c = stx.escape then
      match pattern with
      | [] => none
      | d :: pattern => (parse pattern).map (.literal d :: ·)
    else if c = stx.many then (parse pattern).map (.many :: ·)
    else if c = stx.one then (parse pattern).map (.one :: ·)
    else (parse pattern).map (.literal c :: ·)

end LikeSyntax

/-- Match the items of a pattern against a whole text. -/
def matchItems : List (LikeItem α) → List α → Bool
  | [], text => text.isEmpty
  | .literal _ :: _, [] => false
  | .literal c :: items, d :: text => c == d && matchItems items text
  | .one :: _, [] => false
  | .one :: items, _ :: text => matchItems items text
  | .many :: items, text => text.tails.any (matchItems items)

namespace LikeSyntax

variable (stx : LikeSyntax α)

/-- `text LIKE pattern`: an error when the pattern is none. -/
def like (text pattern : List α) : Option Bool :=
  (stx.parse pattern).map fun items => matchItems items text

/-- A letter has a meaning in patterns. -/
def special (c : α) : Bool := c == stx.escape || c == stx.many || c == stx.one

/-- The pattern that is matched by a letter only. -/
def quote (c : α) : List α := if stx.special c then [stx.escape, c] else [c]

end LikeSyntax

section Matching

variable {items : List (LikeItem α)} {text w : List α}

/-- Literal letters are those that the text begins with. -/
theorem matchItems_literals : matchItems (w.map .literal ++ items) text = true ↔
    ∃ rest, text = w ++ rest ∧ matchItems items rest = true := by
  induction w generalizing text with
  | nil => simp
  | cons c w ih =>
    cases text with
    | nil => simp [matchItems]
    | cons d text =>
      rw [List.map_cons, List.cons_append, matchItems, Bool.and_eq_true, ih, beq_iff_eq]
      constructor
      · rintro ⟨rfl, rest, rfl, hrest⟩
        exact ⟨rest, rfl, hrest⟩
      · rintro ⟨rest, htext, hrest⟩
        obtain ⟨rfl, rfl⟩ := List.cons.inj htext
        exact ⟨rfl, rest, rfl, hrest⟩

/-- A wildcard for any number of letters leaves some rest of the text. -/
theorem matchItems_many : matchItems (.many :: items) text = true ↔
    ∃ before rest, text = before ++ rest ∧ matchItems items rest = true := by
  rw [matchItems, List.any_eq_true]
  constructor
  · rintro ⟨rest, hrest, hitems⟩
    obtain ⟨before, rfl⟩ := (List.mem_tails rest text).mp hrest
    exact ⟨before, rest, rfl, hitems⟩
  · rintro ⟨before, rest, rfl, hitems⟩
    exact ⟨rest, (List.mem_tails _ _).mpr (List.suffix_append before rest), hitems⟩

/-- **Literal letters between two wildcards** match the texts that contain them. -/
theorem matchItems_contains : matchItems (.many :: (w.map .literal ++ [.many])) text = true ↔
    w <:+: text := by
  rw [matchItems_many]
  constructor
  · rintro ⟨before, rest, rfl, hrest⟩
    obtain ⟨after, rfl, -⟩ := matchItems_literals.mp hrest
    exact ⟨before, after, List.append_assoc before w after⟩
  · rintro ⟨before, after, rfl⟩
    refine ⟨before, w ++ after, List.append_assoc before w after,
      matchItems_literals.mpr ⟨after, rfl, ?_⟩⟩
    exact matchItems_many.mpr ⟨after, [], (List.append_nil after).symm, rfl⟩

end Matching

namespace LikeSyntax

variable (stx : LikeSyntax α)

/-- After the escape letter the next one is literal. -/
theorem parse_escape (d : α) (pattern : List α) : stx.parse (stx.escape :: d :: pattern) =
    (stx.parse pattern).map (.literal d :: ·) := by
  rw [parse.eq_def]
  exact if_pos rfl

/-- A letter without a meaning is literal. -/
theorem parse_literal {c : α} (hc : stx.special c = false) (pattern : List α) :
    stx.parse (c :: pattern) = (stx.parse pattern).map (.literal c :: ·) := by
  unfold special at hc
  simp only [Bool.or_eq_false_iff, beq_eq_false_iff_ne] at hc
  rw [parse.eq_def]
  dsimp only
  rw [if_neg hc.1.1, if_neg hc.1.2, if_neg hc.2]

/-- The wildcard for any number of letters. -/
theorem parse_many (pattern : List α) :
    stx.parse (stx.many :: pattern) = (stx.parse pattern).map (.many :: ·) := by
  rw [parse.eq_def]
  dsimp only
  rw [if_neg stx.many_ne_escape, if_pos rfl]

/-- A quoted text before a pattern is read as its letters. -/
theorem parse_quote_append (w pattern : List α) : stx.parse (w.flatMap stx.quote ++ pattern) =
    (stx.parse pattern).map (w.map .literal ++ ·) := by
  induction w with
  | nil => simp
  | cons c w ih =>
    rw [List.flatMap_cons, List.append_assoc, quote]
    cases hc : stx.special c with
    | true =>
      rw [if_pos rfl, List.cons_append, List.singleton_append, parse_escape, ih, Option.map_map]
      rfl
    | false =>
      rw [if_neg Bool.false_ne_true, List.singleton_append, stx.parse_literal hc, ih,
        Option.map_map]
      rfl

/-- **A quoted text between two wildcards** is found literally. -/
theorem like_quoted (text w : List α) :
    stx.like text (stx.many :: (w.flatMap stx.quote ++ [stx.many])) =
      some (decide (w <:+: text)) := by
  unfold like
  have hend : stx.parse [stx.many] = some [.many] := by
    rw [parse_many]
    rfl
  rw [parse_many, parse_quote_append, hend, Option.map_some, Option.map_some, Option.map_some]
  congr 1
  rw [Bool.eq_iff_iff, decide_eq_true_iff]
  exact matchItems_contains

/-- Quoting goes through a map that keeps the letters with a meaning and makes no others. -/
theorem map_flatMap_quote {f : α → α} (hkeeps : ∀ c, stx.special c = true → f c = c)
    (hspecial : ∀ c, stx.special (f c) = true → stx.special c = true) (w : List α) :
    (w.flatMap stx.quote).map f = (w.map f).flatMap stx.quote := by
  have hescape : f stx.escape = stx.escape := hkeeps _ (by simp [special])
  rw [List.map_flatMap, List.flatMap_map]
  refine List.flatMap_congr fun c _ => ?_
  unfold quote
  cases hc : stx.special c with
  | true =>
    have hfc := hkeeps c hc
    rw [if_pos rfl, hfc, if_pos hc, List.map_cons, List.map_singleton, hescape, hfc]
  | false =>
    have hfc : ¬ stx.special (f c) = true := fun h => by
      rw [hspecial c h] at hc
      cases hc
    rw [if_neg Bool.false_ne_true, if_neg hfc, List.map_singleton]

end LikeSyntax

end Text
