import Mathlib.Data.List.DropRight
import Mathlib.Data.List.Basic

/-!
# The path of an address

A parser of addresses reads the scheme, the authority with the host and the port, and then the path
up to a `?` or `#`. The path is cut into segments, dots among them are resolved, and characters that
may not stand in a path are encoded.
-/

namespace Text

/-- A byte as `%` and two digits. -/
def percentByte (b : UInt8) : List Char :=
  ['%', (Nat.digitChar (b.toNat / 16)).toUpper, (Nat.digitChar (b.toNat % 16)).toUpper]

/-- A character as it is, or the bytes of its UTF-8 encoding. -/
def percentEncode (kept : Char → Bool) (c : Char) : List Char :=
  if kept c then [c] else (String.utf8EncodeChar c).flatMap percentByte

/-- A character that may stand in a path: a visible ASCII character but `"`, `#`, `<`, `>`, `?`,
`^`, the grave accent and braces. -/
def keptInPath (c : Char) : Bool :=
  0x21 ≤ c.toNat && c.toNat ≤ 0x7e &&
    !([0x22, 0x23, 0x3c, 0x3e, 0x3f, 0x5e, 0x60, 0x7b, 0x7d].contains c.toNat)

/-- A separator of segments. -/
def isSlash (c : Char) : Bool := c == '/' || c == '\\'

/-- A character that ends the path. -/
def endsPath (c : Char) : Bool := c == '?' || c == '#'

/-- The ways to write a dot. -/
def dots : List (List Char) := [".".toList, "%2e".toList, "%2E".toList]

/-- A segment for the place where it stands. -/
def isSingleDot (segment : List Char) : Bool := dots.contains segment

/-- A segment for the place before it. -/
def isDoubleDot (segment : List Char) : Bool :=
  (dots.flatMap fun dot => dots.map (dot ++ ·)).contains segment

/-- The path after a segment, at a slash or at the end of the path. -/
def closeSegment (atSlash : Bool) (path : List (List Char)) (segment : List Char) :
    List (List Char) :=
  if isDoubleDot segment then
    if atSlash then path.dropLast else path.dropLast ++ [[]]
  else if isSingleDot segment then
    if atSlash then path else path ++ [[]]
  else path ++ [segment]

/-- Read a path, with the segments that were read and the start of the next one. -/
def readPath (path : List (List Char)) (segment : List Char) : List Char → List (List Char)
  | [] => closeSegment false path segment
  | c :: rest =>
    if isSlash c then readPath (closeSegment true path segment) [] rest
    else if endsPath c then closeSegment false path segment
    else readPath path (segment ++ percentEncode keptInPath c) rest

/-- A path as a text. -/
def pathText (path : List (List Char)) : List Char := path.flatMap ('/' :: ·)

/-- A control character or a space. -/
def isBlank (c : Char) : Bool := c.toNat ≤ 0x20

/-- A tab or an end of a line. -/
def isBreak (c : Char) : Bool := [0x9, 0xa, 0xd].contains c.toNat

/-- An address without blanks around it, and without breaks in it. -/
def cleanAddress (address : List Char) : List Char :=
  ((address.dropWhile isBlank).rdropWhile isBlank).filter fun c => !isBreak c

/-- A character of a scheme. -/
def isSchemeChar (c : Char) : Bool := c.isAlphanum || c == '+' || c == '-' || c == '.'

/-- The scheme in lower case, and what follows its colon. -/
def splitScheme (address : List Char) : Option (List Char × List Char) :=
  match address.takeWhile isSchemeChar, address.dropWhile isSchemeChar with
  | c :: scheme, ':' :: rest =>
    if c.isAlpha then some ((c :: scheme).map Char.toLower, rest) else none
  | _, _ => none

/-- The schemes of addresses with a host. -/
def hostSchemes : List (List Char) :=
  ["ftp".toList, "http".toList, "https".toList, "ws".toList, "wss".toList]

/-- A character of an authority. -/
def isAuthorityChar (c : Char) : Bool := !(isSlash c || endsPath c)

/-- What an address is made of besides its path: whether an authority is accepted, and the paths of
addresses with other schemes. -/
structure UrlRules where
  authority : List Char → Bool
  otherScheme : List Char → List Char → Option (List Char)

/-- `new URL(address).pathname`. It is an error when the text is no address. -/
def UrlRules.pathname (rules : UrlRules) (address : List Char) : Option (List Char) :=
  match splitScheme (cleanAddress address) with
  | none => none
  | some (scheme, rest) =>
    if hostSchemes.contains scheme then
      let rest := rest.dropWhile isSlash
      if rules.authority (rest.takeWhile isAuthorityChar) then
        match rest.dropWhile isAuthorityChar with
        | [] => some (pathText (readPath [] [] []))
        | c :: rest =>
          some (pathText (readPath [] [] (if isSlash c then rest else c :: rest)))
      else none
    else rules.otherScheme scheme rest

/-- An address without a path, as a client of a service is given it. -/
structure Endpoint (rules : UrlRules) where
  scheme : List Char
  authority : List Char
  scheme_mem : scheme ∈ hostSchemes
  accepted : rules.authority authority = true
  authority_ne_nil : authority ≠ []
  authority_plain : ∀ c ∈ authority, isAuthorityChar c = true ∧ isBreak c = false

/-- The text of the address. -/
def Endpoint.text {rules : UrlRules} (endpoint : Endpoint rules) : List Char :=
  endpoint.scheme ++ "://".toList ++ endpoint.authority

/-- A segment that stands in a path as it is. -/
structure PlainSegment (segment : List Char) : Prop where
  kept : ∀ c ∈ segment, keptInPath c = true ∧ isSlash c = false
  singleDot : isSingleDot segment = false
  doubleDot : isDoubleDot segment = false

/-- A segment that begins with neither a dot nor an encoded character is plain, when its characters
are. -/
theorem plainSegment_cons {c : Char} {w : List Char} (hdot : c ≠ '.') (hpercent : c ≠ '%')
    (hkept : ∀ d ∈ c :: w, keptInPath d = true ∧ isSlash d = false) : PlainSegment (c :: w) where
  kept := hkept
  singleDot := by simp [isSingleDot, dots, hdot, hpercent]
  doubleDot := by simp [isDoubleDot, dots, hdot, hpercent]

section Reading

variable {path segments : List (List Char)} {segment w rest query : List Char}

/-- A character that may stand in a path does not end it. -/
theorem endsPath_of_kept {c : Char} (hc : keptInPath c = true) : endsPath c = false := by
  cases hends : endsPath c with
  | false => rfl
  | true =>
    unfold endsPath at hends
    rw [Bool.or_eq_true, beq_iff_eq, beq_iff_eq] at hends
    rcases hends with rfl | rfl <;> exact absurd hc (by decide)

/-- Characters of a segment are read as they are. -/
theorem readPath_append (hw : ∀ c ∈ w, keptInPath c = true ∧ isSlash c = false) :
    readPath path segment (w ++ rest) = readPath path (segment ++ w) rest := by
  induction w generalizing segment with
  | nil => rw [List.nil_append, List.append_nil]
  | cons c w ih =>
    obtain ⟨hkept, hslash⟩ := hw c List.mem_cons_self
    have hencode : percentEncode keptInPath c = [c] := if_pos hkept
    rw [List.cons_append, readPath, if_neg (by simp [hslash]),
      if_neg (by simp [endsPath_of_kept hkept]), hencode,
      ih fun d hd => hw d (List.mem_cons_of_mem c hd), List.append_assoc, List.singleton_append]

/-- A plain segment is added to the path. -/
theorem PlainSegment.close (hsegment : PlainSegment segment) (atSlash : Bool) :
    closeSegment atSlash path segment = path ++ [segment] := by
  unfold closeSegment
  rw [hsegment.singleDot, hsegment.doubleDot]
  rfl

/-- **Plain segments are read as they are**, up to the query. -/
theorem readPath_segments (hne : segments ≠ []) (hplain : ∀ s ∈ segments, PlainSegment s) :
    readPath path [] (['/'].intercalate segments ++ '?' :: query) = path ++ segments := by
  induction segments generalizing path with
  | nil => exact absurd rfl hne
  | cons s segments ih =>
    have hs := hplain s List.mem_cons_self
    cases segments with
    | nil =>
      rw [List.intercalate_singleton, readPath_append hs.kept, List.nil_append, readPath]
      exact hs.close false
    | cons s' segments =>
      rw [List.intercalate_cons_cons, List.append_assoc, List.append_assoc, readPath_append hs.kept,
        List.nil_append, List.singleton_append, readPath, if_pos (by decide), hs.close,
        ih (List.cons_ne_nil _ _) fun t ht => hplain t (List.mem_cons_of_mem s ht),
        List.append_assoc, List.singleton_append]

/-- The text of a path with segments. -/
theorem pathText_eq (hne : segments ≠ []) :
    pathText segments = '/' :: ['/'].intercalate segments := by
  induction segments with
  | nil => exact absurd rfl hne
  | cons s segments ih =>
    unfold pathText at ih ⊢
    cases segments with
    | nil => simp
    | cons s' segments =>
      rw [List.flatMap_cons, ih (List.cons_ne_nil _ _), List.intercalate_cons_cons]
      simp

end Reading

section Address

variable {front scheme : List Char} {segments : List (List Char)} {rules : UrlRules}

/-- Up to the query an address stays as it is. -/
theorem cleanAddress_append {c : Char} (hc : isBlank c = false)
    (hfront : ∀ d ∈ c :: front, isBreak d = false) (query : List Char) :
    ∃ query', cleanAddress (c :: front ++ '?' :: query) = c :: front ++ '?' :: query' := by
  have hkeep : ∀ rest : List Char, (c :: front ++ '?' :: rest).filter (fun d => !isBreak d) =
      c :: front ++ '?' :: rest.filter fun d => !isBreak d := by
    intro rest
    rw [List.filter_append, List.filter_eq_self.mpr fun d hd => by rw [hfront d hd]; rfl,
      List.filter_cons_of_pos (by decide)]
  unfold cleanAddress List.rdropWhile
  rw [List.cons_append, List.dropWhile_cons_of_neg (by simp [hc]), ← List.cons_append,
    List.reverse_append, List.reverse_cons, List.append_assoc, List.singleton_append,
    List.dropWhile_append]
  -- The query may be blank as a whole.
  split
  · rw [List.dropWhile_cons_of_neg (by decide), List.reverse_cons, List.reverse_reverse]
    exact ⟨_, hkeep []⟩
  · rw [List.reverse_append, List.reverse_cons, List.reverse_reverse, List.append_assoc,
      List.singleton_append]
    exact ⟨_, hkeep _⟩

/-- The scheme before a colon. -/
theorem splitScheme_append {c : Char} (hc : c.isAlpha = true)
    (hscheme : ∀ d ∈ c :: scheme, isSchemeChar d = true) (rest : List Char) :
    splitScheme (c :: scheme ++ ':' :: rest) = some ((c :: scheme).map Char.toLower, rest) := by
  unfold splitScheme
  rw [List.takeWhile_append_of_pos hscheme, List.dropWhile_append_of_pos hscheme,
    List.takeWhile_cons_of_neg (by decide), List.dropWhile_cons_of_neg (by decide), List.append_nil]
  exact if_pos hc

/-- A character of a plain segment is no break. -/
theorem isBreak_of_kept {c : Char} (hc : keptInPath c = true) : isBreak c = false := by
  cases hbreak : isBreak c with
  | false => rfl
  | true =>
    unfold keptInPath at hc
    unfold isBreak at hbreak
    simp only [Bool.and_eq_true, decide_eq_true_eq] at hc
    simp only [List.contains_iff_mem, List.mem_cons, List.not_mem_nil, or_false] at hbreak
    omega

/-- The text of a path with plain segments has no breaks. -/
theorem isBreak_pathText (hplain : ∀ s ∈ segments, PlainSegment s) :
    ∀ c ∈ pathText segments, isBreak c = false := by
  intro c hc
  obtain ⟨s, hs, hc⟩ := List.mem_flatMap.mp hc
  rcases List.mem_cons.mp hc with rfl | hc
  · decide
  · exact isBreak_of_kept ((hplain s hs).kept c hc).1

/-- A scheme with a host is a word in lower case. -/
theorem exists_of_mem_hostSchemes (hscheme : scheme ∈ hostSchemes) : ∃ c word,
    scheme = c :: word ∧ c.isAlpha = true ∧ isBlank c = false ∧
      ((c :: word).all fun d => isSchemeChar d && !isBreak d) = true ∧
        (c :: word).map Char.toLower = c :: word := by
  unfold hostSchemes at hscheme
  simp only [List.mem_cons, List.not_mem_nil, or_false] at hscheme
  rcases hscheme with rfl | rfl | rfl | rfl | rfl <;> exact ⟨_, _, rfl, by decide⟩

/-- After the scheme, the authority and the path are told apart. -/
theorem Endpoint.pathname_of_split (endpoint : Endpoint rules) {address rest : List Char}
    (hsplit : splitScheme (cleanAddress address) =
      some (endpoint.scheme, "//".toList ++ endpoint.authority ++ '/' :: rest)) :
    rules.pathname address = some (pathText (readPath [] [] rest)) := by
  have hslashes : ("//".toList ++ endpoint.authority ++ '/' :: rest).dropWhile isSlash =
      endpoint.authority ++ '/' :: rest := by
    obtain ⟨c, host, hauthority⟩ := List.exists_cons_of_ne_nil endpoint.authority_ne_nil
    have hc := (endpoint.authority_plain c (by simp [hauthority])).1
    unfold isAuthorityChar at hc
    rw [Bool.not_eq_true', Bool.or_eq_false_iff] at hc
    rw [List.append_assoc, List.dropWhile_append_of_pos (by simp [isSlash]), hauthority,
      List.cons_append, List.dropWhile_cons_of_neg (by simp [hc.1])]
  have hchars : ∀ c ∈ endpoint.authority, isAuthorityChar c = true := fun c hc =>
    (endpoint.authority_plain c hc).1
  unfold UrlRules.pathname
  rw [hsplit]
  dsimp only
  rw [if_pos (List.contains_iff_mem.mpr endpoint.scheme_mem), hslashes,
    List.takeWhile_append_of_pos hchars, List.dropWhile_append_of_pos hchars,
    List.takeWhile_cons_of_neg (by decide), List.dropWhile_cons_of_neg (by decide),
    List.append_nil, if_pos endpoint.accepted]
  rfl

/-- **The path of an address is read off**, when its segments are plain. -/
theorem Endpoint.pathname_append (endpoint : Endpoint rules) (hne : segments ≠ [])
    (hplain : ∀ s ∈ segments, PlainSegment s) (query : List Char) :
    rules.pathname (endpoint.text ++ pathText segments ++ '?' :: query) =
      some (pathText segments) := by
  obtain ⟨c, word, hscheme, halpha, hblank, hword, hlower⟩ :=
    exists_of_mem_hostSchemes endpoint.scheme_mem
  simp only [List.all_eq_true, Bool.and_eq_true, Bool.not_eq_true'] at hword
  have hfront : endpoint.text ++ pathText segments = c :: (word ++ ':' :: ("//".toList ++
      endpoint.authority ++ pathText segments)) := by
    unfold Endpoint.text
    rw [hscheme]
    simp
  have hbreaks : ∀ d ∈ c :: (word ++ ':' :: ("//".toList ++ endpoint.authority ++
      pathText segments)), isBreak d = false := by
    intro d hd
    rw [← List.cons_append] at hd
    rcases List.mem_append.mp hd with hd | hd
    · exact (hword d hd).2
    rcases List.mem_cons.mp hd with rfl | hd
    · decide
    rcases List.mem_append.mp hd with hd | hd
    · rcases List.mem_append.mp hd with hd | hd
      · have hslash : d = '/' := by simpa using hd
        rw [hslash]
        decide
      · exact (endpoint.authority_plain d hd).2
    · exact isBreak_pathText hplain d hd
  obtain ⟨query', hclean⟩ := cleanAddress_append hblank hbreaks query
  have hsplit := splitScheme_append halpha (fun d hd => (hword d hd).1)
    ("//".toList ++ endpoint.authority ++ '/' :: (['/'].intercalate segments ++ '?' :: query'))
  have haddress : c :: (word ++ ':' :: ("//".toList ++ endpoint.authority ++ pathText segments)) ++
      '?' :: query' = c :: word ++ ':' :: ("//".toList ++ endpoint.authority ++
        '/' :: (['/'].intercalate segments ++ '?' :: query')) := by
    rw [pathText_eq hne]
    simp
  rw [hfront]
  rw [← haddress, ← hclean, hlower, ← hscheme] at hsplit
  rw [endpoint.pathname_of_split hsplit, readPath_segments hne hplain, List.nil_append]

end Address

end Text
