import Odiseo.Text.Regex

/-!
# Scrubbing secrets out of a text

`scrubSecrets` replaces what three patterns find, one pattern after the other. A text is a list of
code units. To say which of them are copied into the result, the same function is run on code units
that know their positions.
-/

namespace Odiseo.Logging

open Text

/-- A code unit of a text. -/
abbrev CodeUnit := UInt16

/-- The character of a code unit. Half of a surrogate pair is in no class of the patterns, as the
character that stands for it here. -/
def charOf (u : CodeUnit) : Char := Char.ofNat u.toNat

/-- The code unit of a character of the replacements. -/
def unitOf (c : Char) : CodeUnit := UInt16.ofNat c.toNat

/-- White space. -/
def isSpace (c : Char) : Bool :=
  (0x9 ≤ c.toNat && c.toNat ≤ 0xd) || (0x2000 ≤ c.toNat && c.toNat ≤ 0x200a) ||
    [0x20, 0xa0, 0x1680, 0x2028, 0x2029, 0x202f, 0x205f, 0x3000, 0xfeff].contains c.toNat

/-- The parts of a match: the group that is inserted again, and the secrets. -/
inductive Part
  | group1
  | secret
  deriving DecidableEq

/-- A letter of a user name in an address. -/
def isUser (c : Char) : Bool := !(isSpace c || c == '/' || c == ':' || c == '@')

/-- A letter of a password in an address. -/
def isPassword (c : Char) : Bool := !(isSpace c || c == '/' || c == '@')

/-- A letter of a bearer token. -/
def isToken (c : Char) : Bool := c.isAlphanum || "-._~+/".toList.contains c

/-- A letter of a value. -/
def isValue (c : Char) : Bool := !(isSpace c || c == '&')

/-- `scheme://user:pass@`. The user may be missing. -/
def urlPattern : Regex Part :=
  .seq (.mark .group1 (.seq (.plus isWord) (.literal "://".toList)))
    (.seq (.mark .secret (.many isUser))
      (.seq (.one (· == ':')) (.seq (.mark .secret (.plus isPassword)) (.one (· == '@')))))

/-- `Bearer <token>`. -/
def bearerPattern : Regex Part :=
  .seq .boundary (.seq (.literalAnyCase "bearer".toList) (.seq (.plus isSpace)
    (.mark .secret (.seq (.plus isToken) (.many (· == '='))))))

/-- The keys of secret values. -/
def secretKeys : List String := ["password", "passwd", "token", "apikey", "api_key", "secret"]

/-- One of the keys. -/
def keyPattern : Regex Part :=
  secretKeys.foldr (fun key others => .alt (.literalAnyCase key.toList) others)
    (.one fun _ => false)

/-- `key=value`. -/
def pairPattern : Regex Part :=
  .seq .boundary (.seq (.mark .group1 keyPattern)
    (.seq (.one (· == '=')) (.mark .secret (.plus isValue))))

/-- A pattern with its replacement. -/
structure SecretPattern where
  pattern : Regex Part
  replacement : List (Insert Part)

/-- The first of `SECRET_PATTERNS`. -/
def urlSecrets : SecretPattern where
  pattern := urlPattern
  replacement := .part .group1 :: Insert.text "[REDACTED]:[REDACTED]@"

/-- The second of `SECRET_PATTERNS`. -/
def bearerSecrets : SecretPattern where
  pattern := bearerPattern
  replacement := Insert.text "Bearer [REDACTED]"

/-- The third of `SECRET_PATTERNS`. -/
def pairSecrets : SecretPattern where
  pattern := pairPattern
  replacement := .part .group1 :: Insert.text "=[REDACTED]"

/-- `SECRET_PATTERNS`. -/
def secretPatterns : List SecretPattern := [urlSecrets, bearerSecrets, pairSecrets]

/-- `scrubSecrets`, for letters of any type. -/
def scrub {α : Type} (code : α → Char) (lit : Char → α) (text : List α) : List α :=
  secretPatterns.foldl (fun scrubbed p =>
    replaceAll code p.pattern lit p.replacement scrubbed) text

/-- `scrubSecrets`. -/
def scrubSecrets (text : List CodeUnit) : List CodeUnit := scrub charOf unitOf text

section Positions

/-- A code unit with its position in the text, or with none when it has been inserted. -/
abbrev Letter := CodeUnit × Option ℕ

/-- The character of a letter. -/
def Letter.char (a : Letter) : Char := charOf a.1

/-- A letter that is inserted. -/
def inserted (c : Char) : Letter := (unitOf c, none)

/-- The letters of a text, with their positions. -/
def positioned (text : List CodeUnit) : List Letter := text.zipIdx.map fun x => (x.1, some x.2)

/-- `scrubSecrets` with the positions that the result is copied from. -/
def scrubPositioned (text : List CodeUnit) : List Letter :=
  scrub Letter.char inserted (positioned text)

/-- The secrets that a pattern finds in a text, when it is taken alone. -/
def secrets (p : SecretPattern) (text : List CodeUnit) : List Letter :=
  (matchAll Letter.char p.pattern (positioned text)).flatMap (marked .secret)

/-- **No secret survives**: no letter of a secret that a pattern finds in the text is copied into
the scrubbed text. -/
def NoSecretSurvives (text : List CodeUnit) : Prop :=
  ∀ p ∈ secretPatterns, ∀ a ∈ secrets p text, a ∉ scrubPositioned text

/-- A text is the one of its letters. -/
theorem positioned_fst (text : List CodeUnit) : (positioned text).map Prod.fst = text := by
  unfold positioned
  rw [List.map_map]
  exact List.zipIdx_map_fst 0 text

/-- **The positions change nothing**: without them, the result is that of `scrubSecrets`. -/
theorem scrubPositioned_fst (text : List CodeUnit) :
    (scrubPositioned text).map Prod.fst = scrubSecrets text := by
  have hstep : ∀ (p : SecretPattern) (letters : List Letter),
      (replaceAll Letter.char p.pattern inserted p.replacement letters).map Prod.fst =
        replaceAll charOf p.pattern unitOf p.replacement (letters.map Prod.fst) :=
    fun p letters => replaceAll_map (fun _ => rfl) (fun _ => rfl) p.replacement letters
  have hfold : ∀ (patterns : List SecretPattern) (letters : List Letter),
      (patterns.foldl (fun scrubbed p =>
          replaceAll Letter.char p.pattern inserted p.replacement scrubbed) letters).map Prod.fst =
        patterns.foldl (fun scrubbed p =>
          replaceAll charOf p.pattern unitOf p.replacement scrubbed) (letters.map Prod.fst) := by
    intro patterns
    induction patterns with
    | nil => exact fun _ => rfl
    | cons p patterns ih =>
      intro letters
      rw [List.foldl_cons, List.foldl_cons, ih, hstep]
  unfold scrubPositioned scrubSecrets scrub
  rw [hfold, positioned_fst]

end Positions

end Odiseo.Logging
