import Odiseo.Catalogs.UseCase
import Odiseo.Text.Like
import Odiseo.Text.Regex

/-!
# Search terms are literal

The catalog repository quotes the term of a search before it puts it between two wildcards. The
database matches in lower case, so the term is found wherever the text has it up to letter case.
-/

namespace Odiseo.Catalogs

open Text

/-- The patterns of the queries: `LIKE` with `ESCAPE '\'`. -/
def likeSyntax : LikeSyntax Char := ⟨'_', '%', '\\', by decide⟩

/-- `term.replace(/c/g, replacement)`, for a single character. -/
def replaceChar (c : Char) (replacement : String) (term : List Char) : List Char :=
  replaceAll id (.one (· == c)) id (Insert.text (L := Empty) replacement) term

/-- `escapeLikePattern`. The backslash comes first. -/
def escapeLikePattern (term : List Char) : List Char :=
  replaceChar '_' "\\_" (replaceChar '%' "\\%" (replaceChar '\\' "\\\\" term))

/-- The parameter of the queries: `%${escapeLikePattern(search)}%`. -/
def searchPattern (search : List Char) : List Char := '%' :: (escapeLikePattern search ++ ['%'])

/-- `text ILIKE pattern ESCAPE '\'`, by the lower case of the database. It is an error when the
pattern is none. -/
def ilikeEscape (lower : Char → Char) (text pattern : List Char) : Option Bool :=
  likeSyntax.like (text.map lower) (pattern.map lower)

/-- The lower case keeps the characters with a meaning in patterns, and makes none of others. -/
structure KeepsWildcards (lower : Char → Char) : Prop where
  keeps : ∀ c, likeSyntax.special c = true → lower c = c
  special : ∀ c, likeSyntax.special (lower c) = true → likeSyntax.special c = true

/-- The characters with a meaning. -/
theorem special_iff (c : Char) :
    likeSyntax.special c = true ↔ c = '\\' ∨ c = '%' ∨ c = '_' := by
  unfold LikeSyntax.special likeSyntax
  simp [or_assoc]

/-- **The three replacements quote the term.** -/
theorem escapeLikePattern_eq (term : List Char) :
    escapeLikePattern term = term.flatMap likeSyntax.quote := by
  unfold escapeLikePattern replaceChar
  rw [replaceAll_one, replaceAll_one, replaceAll_one, List.flatMap_assoc, List.flatMap_assoc]
  refine List.flatMap_congr fun c _ => ?_
  by_cases hbackslash : c = '\\'
  · subst hbackslash
    decide
  by_cases hpercent : c = '%'
  · subst hpercent
    decide
  by_cases hunderscore : c = '_'
  · subst hunderscore
    decide
  have hplain : ¬ likeSyntax.special c = true := by
    rw [special_iff]
    simp [hbackslash, hpercent, hunderscore]
  unfold LikeSyntax.quote
  rw [if_neg hplain]
  simp [hbackslash, hpercent, hunderscore]

section Matching

variable {lower : Char → Char}

/-- The predicate is never an error, and looks for the term in lower case. -/
theorem ilikeEscape_searchPattern (hlower : KeepsWildcards lower) (s t : List Char) :
    ilikeEscape lower s (searchPattern t) = some (decide (t.map lower <:+: s.map lower)) := by
  have hpercent : lower '%' = '%' := hlower.keeps '%' (by decide)
  have hpattern : (searchPattern t).map lower =
      '%' :: ((t.map lower).flatMap likeSyntax.quote ++ ['%']) := by
    unfold searchPattern
    rw [escapeLikePattern_eq, List.map_cons, List.map_append, List.map_singleton, hpercent,
      likeSyntax.map_flatMap_quote hlower.keeps hlower.special]
  unfold ilikeEscape
  rw [hpattern]
  exact likeSyntax.like_quoted (s.map lower) (t.map lower)

/-- **An escaped search is literal**: the predicate is true exactly when the text contains the term
up to letter case. -/
theorem ilikeEscape_searchPattern_iff (hlower : KeepsWildcards lower) (s t : List Char) :
    ilikeEscape lower s (searchPattern t) = some true ↔
      ∃ before found after, s = before ++ found ++ after ∧ found.map lower = t.map lower := by
  rw [ilikeEscape_searchPattern hlower, Option.some_inj, decide_eq_true_iff]
  constructor
  · rintro ⟨before, after, h⟩
    obtain ⟨rest, after', rfl, hrest, -⟩ := List.map_eq_append_iff.mp h.symm
    obtain ⟨before', found, rfl, -, hfound⟩ := List.map_eq_append_iff.mp hrest
    exact ⟨before', found, after', rfl, hfound⟩
  · rintro ⟨before, found, after, rfl, hfound⟩
    rw [List.map_append, List.map_append, hfound]
    exact ⟨before.map lower, after.map lower, rfl⟩

/-- The lower case of a letter from `A` to `Z` is a letter, and other characters stay. -/
theorem toLower_eq_or (c : Char) :
    c.toLower = c ∨ 97 ≤ c.toLower.toNat ∧ c.toLower.toNat ≤ 122 := by
  unfold Char.toLower
  split
  · rename_i hupper
    have hcode : (c.val + ('a'.val - 'A'.val)).toNat = c.val.toNat + 32 := by
      have hle := UInt32.le_iff_toNat_le.mp hupper.2
      have hZ : 'Z'.val.toNat = 90 := by decide
      have hdiff : ('a'.val - 'A'.val).toNat = 32 := by decide
      rw [UInt32.toNat_add, hdiff]
      omega
    have hle := UInt32.le_iff_toNat_le.mp hupper.1
    have hle' := UInt32.le_iff_toNat_le.mp hupper.2
    have hA : 'A'.val.toNat = 65 := by decide
    have hZ : 'Z'.val.toNat = 90 := by decide
    refine Or.inr ?_
    unfold Char.toNat
    dsimp only
    omega
  · exact Or.inl rfl

/-- The lower case of the letters from `A` to `Z` keeps the wildcards. -/
theorem keepsWildcards_toLower : KeepsWildcards Char.toLower where
  keeps c hc := by
    rcases (special_iff c).mp hc with rfl | rfl | rfl <;> decide
  special c hc := by
    rcases toLower_eq_or c with hsame | hletter
    · rwa [hsame] at hc
    · rcases (special_iff _).mp hc with h | h | h
      · rw [h] at hletter
        exact absurd hletter (by decide)
      · rw [h] at hletter
        exact absurd hletter (by decide)
      · rw [h] at hletter
        exact absurd hletter (by decide)

/-- A name with all characters of the patterns. -/
theorem ilikeEscape_searchPattern_iff_percent :
    ilikeEscape Char.toLower "Dado 50%_\\ A".toList (searchPattern "50%_\\ a".toList) =
      some true := by
  refine (ilikeEscape_searchPattern_iff keepsWildcards_toLower _ _).mpr
    ⟨"Dado ".toList, "50%_\\ A".toList, [], ?_, ?_⟩
  · decide
  · decide

/-- The names that the repository finds. -/
theorem ilike_eq (name term : String) :
    ilikeEscape Char.toLower name.toList (searchPattern term.toList) = some (ilike name term) := by
  have hlower : ∀ s : String, s.toLower.toList = s.toList.map Char.toLower := fun s =>
    String.toList_map
  rw [ilikeEscape_searchPattern keepsWildcards_toLower, Option.some_inj, Bool.eq_iff_iff,
    decide_eq_true_iff]
  unfold ilike
  rw [hlower, hlower, List.any_eq_true, List.infix_iff_prefix_suffix]
  constructor
  · rintro ⟨rest, hprefix, hsuffix⟩
    exact ⟨rest, (List.mem_tails _ _).mpr hsuffix, List.isPrefixOf_iff_prefix.mpr hprefix⟩
  · rintro ⟨rest, hrest, hprefix⟩
    exact ⟨rest, List.isPrefixOf_iff_prefix.mp hprefix, (List.mem_tails _ _).mp hrest⟩

end Matching

end Odiseo.Catalogs
