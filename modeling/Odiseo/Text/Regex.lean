import Mathlib.Data.List.Basic

/-!
# Regular expressions, as a backtracking matcher tries them

A pattern is run at a place of a text, given the character before it, and answers with all ways to
match there, the preferred one first. A global replacement looks for matches from left to right,
each one after the end of the one before.

Texts are lists of letters of any type that stand for characters. So a text may say more of its
letters than their characters, such as where they come from.
-/

namespace Text

/-- A pattern over classes of single characters. A mark names the part of a text that its pattern
matches, as a capture group does. -/
inductive Regex (L : Type)
  | empty
  | one (cls : Char → Bool)
  /-- A greedy repetition, the empty one included. -/
  | many (cls : Char → Bool)
  | seq (r s : Regex L)
  | alt (r s : Regex L)
  /-- Between a word character and another one, or an end of the text. -/
  | boundary
  | mark (label : L) (r : Regex L)

/-- A character of a word. -/
def isWord (c : Char) : Bool := c.isAlphanum || c == '_'

/-- The codes of the characters of words. -/
theorem toNat_of_isWord {c : Char} (h : isWord c = true) :
    (48 ≤ c.toNat ∧ c.toNat ≤ 57) ∨ (65 ≤ c.toNat ∧ c.toNat ≤ 90) ∨ c.toNat = 95 ∨
      (97 ≤ c.toNat ∧ c.toNat ≤ 122) := by
  unfold isWord Char.isAlphanum Char.isAlpha Char.isUpper Char.isLower Char.isDigit at h
  simp only [Bool.or_eq_true, Bool.and_eq_true, decide_eq_true_eq, beq_iff_eq, ge_iff_le,
    UInt32.le_iff_toNat_le] at h
  rcases h with ((h | h) | h) | rfl
  · exact Or.inr (Or.inl h)
  · exact Or.inr (Or.inr (Or.inr h))
  · exact Or.inl h
  · decide

/-- A way to match: the letters that are matched, with the marks of their parts, and the text after
them. -/
structure Match (α L : Type) where
  letters : List (α × Option L)
  rest : List α
  deriving DecidableEq

/-- One match after another. -/
def Match.append {α L : Type} (m m' : Match α L) : Match α L := ⟨m.letters ++ m'.letters, m'.rest⟩

namespace Regex

variable {α β L : Type} (code : α → Char)

/-- A greedy repetition, with at least one letter. -/
def plus (cls : Char → Bool) : Regex L := seq (one cls) (many cls)

/-- The characters of a text, one after another. -/
def literal (text : List Char) : Regex L :=
  text.foldr (fun c r => seq (one (· == c)) r) empty

/-- The characters of a text in any case. It is given in lower case. -/
def literalAnyCase (text : List Char) : Regex L :=
  text.foldr (fun c r => seq (one fun d => d.toLower == c) r) empty

/-- The character before what follows some letters. -/
def lastCode (prev : Option Char) (letters : List α) : Option Char :=
  letters.foldl (fun _ a => some (code a)) prev

/-- The ways to match a repetition, the longest first. -/
def runMany (cls : Char → Bool) : List α → List (Match α L)
  | [] => [⟨[], []⟩]
  | a :: l =>
    if cls (code a) then
      ((runMany cls l).map fun m => ⟨(a, none) :: m.letters, m.rest⟩) ++ [⟨[], a :: l⟩]
    else [⟨[], a :: l⟩]

/-- The ways to match a pattern at a place, in the order in which they are tried. -/
def run : Regex L → Option Char → List α → List (Match α L)
  | empty, _, l => [⟨[], l⟩]
  | one _, _, [] => []
  | one cls, _, a :: l => if cls (code a) then [⟨[(a, none)], l⟩] else []
  | many cls, _, l => runMany code cls l
  | seq r s, prev, l => (run r prev l).flatMap fun m =>
      (run s (lastCode code prev (m.letters.map Prod.fst)) m.rest).map m.append
  | alt r s, prev, l => run r prev l ++ run s prev l
  | boundary, prev, l =>
    if prev.any isWord != (l.head?.map code).any isWord then [⟨[], l⟩] else []
  | mark label r, prev, l => (run r prev l).map fun m =>
      ⟨m.letters.map fun x => (x.1, some label), m.rest⟩

/-- The preferred match at a place. -/
def exec (r : Regex L) (prev : Option Char) (l : List α) : Option (Match α L) :=
  (run code r prev l).head?

end Regex

/-- A text is cut into letters between the matches, and matches. -/
inductive Segment (α L : Type)
  | copied (a : α)
  | matched (letters : List (α × Option L))
  deriving DecidableEq

/-- What a replacement inserts: a character, or the part of the match with a mark. -/
inductive Insert (L : Type)
  | char (c : Char)
  | part (label : L)

/-- The characters of a text, to be inserted. -/
def Insert.text {L : Type} (text : String) : List (Insert L) := text.toList.map .char

section Scanning

variable {α L : Type} (code : α → Char) (r : Regex L)

/-- The matches from left to right, with the letters between them. Letters of the last match are
skipped first. -/
def segments : ℕ → Option Char → List α → List (Segment α L)
  | _, _, [] => []
  | skip + 1, _, a :: l => segments skip (some (code a)) l
  | 0, prev, a :: l =>
    match r.exec code prev (a :: l) with
    | some ⟨x :: letters, _⟩ =>
      .matched (x :: letters) :: segments letters.length (some (code a)) l
    | _ => .copied a :: segments 0 (some (code a)) l

/-- The letters of a match with a mark. -/
def marked [DecidableEq L] (label : L) (letters : List (α × Option L)) : List α :=
  (letters.filter fun x => x.2 = some label).map Prod.fst

/-- What is inserted for a match. -/
def expand [DecidableEq L] (lit : Char → α) (replacement : List (Insert L))
    (letters : List (α × Option L)) : List α :=
  replacement.flatMap fun
    | .char c => [lit c]
    | .part label => marked label letters

/-- What stands for a segment once it has been replaced. -/
def Segment.replaced [DecidableEq L] (lit : Char → α) (replacement : List (Insert L)) :
    Segment α L → List α
  | .copied a => [a]
  | .matched letters => expand lit replacement letters

/-- Replace all matches in a text. -/
def replaceAll [DecidableEq L] (lit : Char → α) (replacement : List (Insert L)) (text : List α) :
    List α :=
  (segments code r 0 none text).flatMap (Segment.replaced lit replacement)

/-- What is taken from a segment, by what is taken from a match. -/
def Segment.taken {α L : Type} (f : List (α × Option L) → List α) : Segment α L → List α
  | .copied _ => []
  | .matched letters => f letters

/-- All matches in a text. -/
def matchAll (text : List α) : List (List (α × Option L)) :=
  (segments code r 0 none text).filterMap fun
    | .copied _ => none
    | .matched letters => some letters

end Scanning

namespace Regex

variable {α β L : Type} {code : α → Char}

@[simp] theorem lastCode_nil (prev : Option Char) : lastCode code prev [] = prev := rfl

@[simp] theorem lastCode_cons (prev : Option Char) (a : α) (l : List α) :
    lastCode code prev (a :: l) = lastCode code (some (code a)) l := rfl

@[simp] theorem lastCode_append (prev : Option Char) (l l' : List α) :
    lastCode code prev (l ++ l') = lastCode code (lastCode code prev l) l' :=
  List.foldl_append

/-- The character before what follows is that of one of the letters. -/
theorem exists_lastCode {l : List α} (h : l ≠ []) (prev : Option Char) :
    ∃ a ∈ l, lastCode code prev l = some (code a) := by
  induction l generalizing prev with
  | nil => exact absurd rfl h
  | cons a l ih =>
    cases l with
    | nil => exact ⟨a, List.mem_singleton_self a, rfl⟩
    | cons b l =>
      obtain ⟨c, hc, hlast⟩ := ih (List.cons_ne_nil b l) (some (code a))
      exact ⟨c, List.mem_cons_of_mem a hc, hlast⟩

/-- After a letter, what was before it does not matter. -/
theorem lastCode_eq {l : List α} (h : l ≠ []) (prev prev' : Option Char) :
    lastCode code prev l = lastCode code prev' l := by
  cases l with
  | nil => exact absurd rfl h
  | cons a l => rfl

/-- A repetition first takes all letters of its class. -/
theorem runMany_eq_cons (cls : Char → Bool) (l : List α) : ∃ others : List (Match α L),
    runMany code cls l = ⟨(l.takeWhile fun a => cls (code a)).map fun a => (a, none),
      l.dropWhile fun a => cls (code a)⟩ :: others := by
  induction l with
  | nil => exact ⟨[], rfl⟩
  | cons a l ih =>
    obtain ⟨others, hl⟩ := ih
    unfold runMany
    rw [List.takeWhile_cons, List.dropWhile_cons]
    cases hcls : cls (code a) with
    | true =>
      rw [if_pos rfl, hl]
      exact ⟨_, rfl⟩
    | false => exact ⟨[], rfl⟩

/-- The letters of a repetition are of its class and come first. -/
theorem of_mem_runMany {cls : Char → Bool} {l : List α} {m : Match α L}
    (hm : m ∈ runMany code cls l) :
    m.letters.map Prod.fst ++ m.rest = l ∧ ∀ x ∈ m.letters, cls (code x.1) = true := by
  induction l generalizing m with
  | nil =>
    obtain rfl := List.mem_singleton.mp hm
    exact ⟨rfl, fun _ hx => absurd hx List.not_mem_nil⟩
  | cons a l ih =>
    unfold runMany at hm
    split at hm
    · rename_i hcls
      rcases List.mem_append.mp hm with hm | hm
      · obtain ⟨m', hm', rfl⟩ := List.mem_map.mp hm
        obtain ⟨hsplit, hall⟩ := ih hm'
        refine ⟨congrArg (a :: ·) hsplit, fun x hx => ?_⟩
        rcases List.mem_cons.mp hx with rfl | hx
        · exact hcls
        · exact hall x hx
      · obtain rfl := List.mem_singleton.mp hm
        exact ⟨rfl, fun _ hx => absurd hx List.not_mem_nil⟩
    · obtain rfl := List.mem_singleton.mp hm
      exact ⟨rfl, fun _ hx => absurd hx List.not_mem_nil⟩

/-- **A match is a first part of the text.** -/
theorem of_mem_run {r : Regex L} {prev : Option Char} {l : List α} {m : Match α L}
    (hm : m ∈ run code r prev l) : m.letters.map Prod.fst ++ m.rest = l := by
  induction r generalizing prev l m with
  | empty =>
    obtain rfl := List.mem_singleton.mp hm
    rfl
  | one cls =>
    cases l with
    | nil => cases hm
    | cons a l =>
      unfold run at hm
      split at hm
      · obtain rfl := List.mem_singleton.mp hm
        rfl
      · cases hm
  | many cls => exact (of_mem_runMany hm).1
  | seq r s ihr ihs =>
    obtain ⟨first, hfirst, hm⟩ := List.mem_flatMap.mp hm
    obtain ⟨second, hsecond, rfl⟩ := List.mem_map.mp hm
    unfold Match.append
    rw [List.map_append, List.append_assoc, ihs hsecond, ihr hfirst]
  | alt r s ihr ihs =>
    rcases List.mem_append.mp hm with hm | hm
    · exact ihr hm
    · exact ihs hm
  | boundary =>
    unfold run at hm
    split at hm
    · obtain rfl := List.mem_singleton.mp hm
      rfl
    · cases hm
  | mark label r ih =>
    obtain ⟨m', hm', rfl⟩ := List.mem_map.mp hm
    have hsplit := ih hm'
    rw [List.map_map]
    exact hsplit

/-- The preferred match is one of the ways to match. -/
theorem mem_run_of_exec {r : Regex L} {prev : Option Char} {l : List α} {m : Match α L}
    (h : r.exec code prev l = some m) : m ∈ run code r prev l :=
  List.mem_of_mem_head? h

/-- The preferred match of two patterns in a row: that of the first one after which the second one
matches. -/
theorem exec_seq (r s : Regex L) (prev : Option Char) (l : List α) :
    (seq r s).exec code prev l = (run code r prev l).findSome? fun m =>
      (s.exec code (lastCode code prev (m.letters.map Prod.fst)) m.rest).map m.append := by
  unfold exec
  rw [run, List.head?_flatMap]
  simp only [List.head?_map]

/-- The preferred way to match a repetition takes all letters of its class. -/
theorem exec_many (cls : Char → Bool) (prev : Option Char) (l : List α) :
    (many cls : Regex L).exec code prev l = some
      ⟨(l.takeWhile fun a => cls (code a)).map fun a => (a, none),
        l.dropWhile fun a => cls (code a)⟩ := by
  obtain ⟨others, hl⟩ := @runMany_eq_cons α L code cls l
  unfold exec
  rw [run, hl]
  rfl

/-- When the preferred way to match a pattern can be followed, it is taken. -/
theorem exec_seq_of_exec {r s : Regex L} {prev : Option Char} {l : List α} {m m' : Match α L}
    (h : r.exec code prev l = some m)
    (h' : s.exec code (lastCode code prev (m.letters.map Prod.fst)) m.rest = some m') :
    (seq r s).exec code prev l = some (m.append m') := by
  rw [exec_seq]
  unfold exec at h
  cases hrun : run code r prev l with
  | nil =>
    rw [hrun] at h
    cases h
  | cons first others =>
    rw [hrun] at h
    cases h
    rw [List.findSome?_cons, h']
    rfl

/-- After a pattern a repetition takes what it can. -/
theorem exec_seq_many (r : Regex L) (cls : Char → Bool) (prev : Option Char) (l : List α) :
    (seq r (many cls)).exec code prev l = (r.exec code prev l).map fun m =>
      m.append ⟨(m.rest.takeWhile fun a => cls (code a)).map fun a => (a, none),
        m.rest.dropWhile fun a => cls (code a)⟩ := by
  cases hr : r.exec code prev l with
  | none =>
    have hrun : run code r prev l = [] := List.head?_eq_none_iff.mp hr
    rw [exec_seq, hrun]
    rfl
  | some m => exact exec_seq_of_exec hr (exec_many cls _ _)

/-- A repetition with at least one letter takes all letters of its class. -/
theorem exec_plus (cls : Char → Bool) (prev : Option Char) (a : α) (l : List α) :
    (plus cls : Regex L).exec code prev (a :: l) = if cls (code a) then
      some ⟨(a, none) :: (l.takeWhile fun b => cls (code b)).map fun b => (b, none),
        l.dropWhile fun b => cls (code b)⟩ else none := by
  unfold plus
  rw [exec_seq_many]
  unfold exec
  rw [run]
  cases cls (code a) <;> rfl

/-- The preferred match of a mark. -/
theorem exec_mark (label : L) (r : Regex L) (prev : Option Char) (l : List α) :
    (mark label r).exec code prev l = (r.exec code prev l).map fun m =>
      ⟨m.letters.map fun x => (x.1, some label), m.rest⟩ := by
  unfold exec
  rw [run, List.head?_map]

/-- After the first pattern the preferred match of two in a row is that of the second one. -/
theorem of_exec_seq {r s : Regex L} {prev : Option Char} {l : List α} {m : Match α L}
    (h : (seq r s).exec code prev l = some m) : ∃ m₁ m₂, m₁ ∈ run code r prev l ∧
      s.exec code (lastCode code prev (m₁.letters.map Prod.fst)) m₁.rest = some m₂ ∧
        m = m₁.append m₂ := by
  rw [exec_seq] at h
  obtain ⟨m₁, hm₁, hm⟩ := List.exists_of_findSome?_eq_some h
  obtain ⟨m₂, hm₂, rfl⟩ := Option.map_eq_some_iff.mp hm
  exact ⟨m₁, m₂, hm₁, hm₂, rfl⟩

/-- A match of two patterns in a row. -/
theorem of_mem_run_seq {r s : Regex L} {prev : Option Char} {l : List α} {m : Match α L}
    (hm : m ∈ run code (seq r s) prev l) : ∃ m₁ m₂, m₁ ∈ run code r prev l ∧
      m₂ ∈ run code s (lastCode code prev (m₁.letters.map Prod.fst)) m₁.rest ∧
        m = m₁.append m₂ := by
  obtain ⟨m₁, hm₁, hm⟩ := List.mem_flatMap.mp hm
  obtain ⟨m₂, hm₂, rfl⟩ := List.mem_map.mp hm
  exact ⟨m₁, m₂, hm₁, hm₂, rfl⟩

/-- A match after a match is one of the two patterns in a row. -/
theorem mem_run_seq {r s : Regex L} {prev : Option Char} {l : List α} {m₁ m₂ : Match α L}
    (h₁ : m₁ ∈ run code r prev l)
    (h₂ : m₂ ∈ run code s (lastCode code prev (m₁.letters.map Prod.fst)) m₁.rest) :
    m₁.append m₂ ∈ run code (seq r s) prev l :=
  List.mem_flatMap.mpr ⟨m₁, h₁, List.mem_map_of_mem h₂⟩

/-- A match of a single character. -/
theorem of_mem_run_one {cls : Char → Bool} {prev : Option Char} {l : List α} {m : Match α L}
    (hm : m ∈ run code (one cls) prev l) :
    ∃ a, l = a :: m.rest ∧ cls (code a) = true ∧ m.letters = [(a, none)] := by
  cases l with
  | nil => cases hm
  | cons a l =>
    unfold run at hm
    split at hm
    · rename_i hcls
      obtain rfl := List.mem_singleton.mp hm
      exact ⟨a, rfl, hcls, rfl⟩
    · cases hm

/-- A match of a repetition with at least one letter. -/
theorem of_mem_run_plus {cls : Char → Bool} {prev : Option Char} {l : List α} {m : Match α L}
    (hm : m ∈ run code (plus cls) prev l) :
    m.letters ≠ [] ∧ ∀ x ∈ m.letters, cls (code x.1) = true := by
  obtain ⟨m₁, m₂, hm₁, hm₂, rfl⟩ := of_mem_run_seq hm
  obtain ⟨a, -, hcls, hletters⟩ := of_mem_run_one hm₁
  unfold Match.append
  rw [hletters]
  refine ⟨List.cons_ne_nil _ _, fun x hx => ?_⟩
  rcases List.mem_cons.mp hx with rfl | hx
  · exact hcls
  · exact (of_mem_runMany hm₂).2 x hx

/-- A match of the characters of a text. -/
theorem of_mem_run_literal {text : List Char} {prev : Option Char} {l : List α} {m : Match α L}
    (hm : m ∈ run code (literal text) prev l) : m.letters.map (fun x => code x.1) = text := by
  induction text generalizing prev l m with
  | nil =>
    obtain rfl := List.mem_singleton.mp hm
    rfl
  | cons c text ih =>
    obtain ⟨m₁, m₂, hm₁, hm₂, rfl⟩ := of_mem_run_seq hm
    obtain ⟨a, -, hcls, hletters⟩ := of_mem_run_one hm₁
    unfold Match.append
    rw [hletters, List.map_append, ih hm₂]
    exact congrArg (· :: text) (beq_iff_eq.mp hcls)

/-- A match of the characters of a text in any case. -/
theorem of_mem_run_literalAnyCase {text : List Char} {prev : Option Char} {l : List α}
    {m : Match α L} (hm : m ∈ run code (literalAnyCase text) prev l) :
    m.letters.map (fun x => (code x.1).toLower) = text := by
  induction text generalizing prev l m with
  | nil =>
    obtain rfl := List.mem_singleton.mp hm
    rfl
  | cons c text ih =>
    obtain ⟨m₁, m₂, hm₁, hm₂, rfl⟩ := of_mem_run_seq hm
    obtain ⟨a, -, hcls, hletters⟩ := of_mem_run_one hm₁
    unfold Match.append
    rw [hletters, List.map_append, ih hm₂]
    exact congrArg (· :: text) (beq_iff_eq.mp hcls)

/-- The characters of a text match where they stand. -/
theorem mem_run_literalAnyCase {text : List Char} {k : List α}
    (hk : k.map (fun a => (code a).toLower) = text) (prev : Option Char) (z : List α) :
    (⟨k.map fun a => (a, none), z⟩ : Match α L) ∈ run code (literalAnyCase text) prev (k ++ z) := by
  induction k generalizing text prev with
  | nil =>
    subst hk
    exact List.mem_singleton_self _
  | cons a k ih =>
    subst hk
    have hfirst : (⟨[(a, none)], k ++ z⟩ : Match α L) ∈
        run code (one fun d => d.toLower == (code a).toLower) prev (a :: (k ++ z)) := by
      simp [run]
    exact mem_run_seq hfirst (ih rfl _)

/-- A boundary takes no letter. -/
theorem of_mem_run_boundary {prev : Option Char} {l : List α} {m : Match α L}
    (hm : m ∈ run code boundary prev l) :
    m = ⟨[], l⟩ ∧ prev.any isWord ≠ (l.head?.map code).any isWord := by
  unfold run at hm
  split at hm
  · rename_i hdiffers
    exact ⟨List.mem_singleton.mp hm, by simpa using hdiffers⟩
  · cases hm

/-- A match of a mark. -/
theorem of_mem_run_mark {r : Regex L} {label : L} {prev : Option Char} {l : List α} {m : Match α L}
    (hm : m ∈ run code (mark label r) prev l) : ∃ m' ∈ run code r prev l,
      m.letters = m'.letters.map (fun x => (x.1, some label)) ∧ m.rest = m'.rest := by
  obtain ⟨m', hm', rfl⟩ := List.mem_map.mp hm
  exact ⟨m', hm', rfl, rfl⟩

section Avoiding

/-- No match of a pattern goes over a character, and no boundary beside it depends on it. -/
def Avoids (c : Char) : Regex L → Prop
  | empty => True
  | one cls | many cls => cls c = false
  | seq r s | alt r s => Avoids c r ∧ Avoids c s
  | boundary => isWord c = false
  | mark _ r => Avoids c r

/-- A repetition ends before a character that is not of its class. -/
theorem runMany_append {cls : Char → Bool} {d : α} (hcls : cls (code d) = false) (l z : List α) :
    runMany code cls (l ++ d :: z) =
      (runMany code cls l).map fun m : Match α L => ⟨m.letters, m.rest ++ d :: z⟩ := by
  induction l with
  | nil => simp [runMany, hcls]
  | cons a l ih =>
    rw [List.cons_append]
    unfold runMany
    rw [ih]
    cases cls (code a) with
    | true =>
      rw [if_pos rfl, if_pos rfl, List.map_append, List.map_map, List.map_map]
      rfl
    | false => rfl

/-- **What follows an avoided character** has no part in the matches before it. -/
theorem run_append {r : Regex L} {d : α} (hr : r.Avoids (code d)) (prev : Option Char)
    (l z : List α) : run code r prev (l ++ d :: z) =
      (run code r prev l).map fun m => ⟨m.letters, m.rest ++ d :: z⟩ := by
  induction r generalizing prev l with
  | empty => rfl
  | one cls =>
    cases l with
    | nil =>
      have hcls : cls (code d) = false := hr
      rw [List.nil_append]
      unfold run
      rw [hcls]
      rfl
    | cons a l =>
      rw [List.cons_append]
      unfold run
      cases cls (code a) <;> rfl
  | many cls => exact runMany_append hr l z
  | seq r s ihr ihs =>
    rw [run, run, ihr hr.1, List.flatMap_map, List.map_flatMap]
    refine List.flatMap_congr fun m _ => ?_
    rw [ihs hr.2, List.map_map, List.map_map]
    rfl
  | alt r s ihr ihs => rw [run, run, ihr hr.1, ihs hr.2, List.map_append]
  | boundary =>
    have hword : isWord (code d) = false := hr
    have hnext : ((l ++ d :: z).head?.map code).any isWord = (l.head?.map code).any isWord := by
      cases l with
      | nil => exact hword
      | cons a l => rfl
    rw [run, run, hnext]
    split <;> rfl
  | mark label r ih =>
    rw [run, run, ih hr, List.map_map, List.map_map]
    rfl

/-- The preferred match before an avoided character. -/
theorem exec_append {r : Regex L} {d : α} (hr : r.Avoids (code d)) (prev : Option Char)
    (l z : List α) : r.exec code prev (l ++ d :: z) =
      (r.exec code prev l).map fun m => ⟨m.letters, m.rest ++ d :: z⟩ := by
  unfold exec
  rw [run_append hr, List.head?_map]

end Avoiding

section Mapping

variable {codeβ : β → Char} {f : α → β}

/-- The match of a text whose letters have been replaced by others of the same characters. -/
def Match.map (f : α → β) (m : Match α L) : Match β L :=
  ⟨m.letters.map fun x => (f x.1, x.2), m.rest.map f⟩

/-- The character before is that of the replaced letter. -/
theorem lastCode_map (hf : ∀ a, codeβ (f a) = code a) (prev : Option Char) (l : List α) :
    lastCode codeβ prev (l.map f) = lastCode code prev l := by
  induction l generalizing prev with
  | nil => rfl
  | cons a l ih => rw [List.map_cons, lastCode_cons, lastCode_cons, hf, ih]

/-- A repetition looks at the characters only. -/
theorem runMany_map (hf : ∀ a, codeβ (f a) = code a) (cls : Char → Bool) (l : List α) :
    runMany codeβ cls (l.map f) = (runMany code cls l).map fun m : Match α L => Match.map f m := by
  induction l with
  | nil => rfl
  | cons a l ih =>
    rw [List.map_cons]
    unfold runMany
    rw [hf, ih]
    cases cls (code a) with
    | true =>
      rw [if_pos rfl, if_pos rfl, List.map_append, List.map_map, List.map_map]
      rfl
    | false => rfl

/-- **A pattern looks at the characters only.** -/
theorem run_map (hf : ∀ a, codeβ (f a) = code a) (r : Regex L) (prev : Option Char)
    (l : List α) : run codeβ r prev (l.map f) = (run code r prev l).map (Match.map f) := by
  induction r generalizing prev l with
  | empty => rfl
  | one cls =>
    cases l with
    | nil => rfl
    | cons a l =>
      rw [List.map_cons]
      unfold run
      rw [hf]
      cases cls (code a) <;> rfl
  | many cls => exact runMany_map hf cls l
  | seq r s ihr ihs =>
    rw [run, run, ihr, List.flatMap_map, List.map_flatMap]
    refine List.flatMap_congr fun m _ => ?_
    have hlast : lastCode codeβ prev ((Match.map f m).letters.map Prod.fst) =
        lastCode code prev (m.letters.map Prod.fst) := by
      rw [← lastCode_map hf]
      unfold Match.map
      rw [List.map_map, List.map_map]
      rfl
    have hrest : (Match.map f m).rest = m.rest.map f := rfl
    rw [hlast, hrest, ihs, List.map_map, List.map_map]
    refine List.map_congr_left fun m' _ => ?_
    unfold Match.map Match.append
    simp
  | alt r s ihr ihs => rw [run, run, ihr, ihs, List.map_append]
  | boundary =>
    have hnext : (l.map f).head?.map codeβ = l.head?.map code := by
      cases l with
      | nil => rfl
      | cons a l => exact congrArg some (hf a)
    rw [run, run, hnext]
    split <;> rfl
  | mark label r ih =>
    rw [run, run, ih, List.map_map, List.map_map]
    refine List.map_congr_left fun m _ => ?_
    unfold Match.map
    simp

/-- The preferred match looks at the characters only. -/
theorem exec_map (hf : ∀ a, codeβ (f a) = code a) (r : Regex L) (prev : Option Char)
    (l : List α) : r.exec codeβ prev (l.map f) = (r.exec code prev l).map (Match.map f) := by
  unfold exec
  rw [run_map hf, List.head?_map]

end Mapping

end Regex

section Segments

variable {α β L : Type} {code : α → Char} {r : Regex L}

/-- What is inserted for a text is the text. -/
theorem expand_text [DecidableEq L] (lit : Char → α) (text : String)
    (letters : List (α × Option L)) : expand lit (Insert.text text) letters =
      text.toList.map lit := by
  unfold expand Insert.text
  rw [List.flatMap_map]
  exact List.map_eq_flatMap.symm

/-- What is inserted for a part and a text. -/
theorem expand_part_text [DecidableEq L] (lit : Char → α) (label : L) (text : String)
    (letters : List (α × Option L)) : expand lit (.part label :: Insert.text text) letters =
      marked label letters ++ text.toList.map lit := by
  rw [← expand_text lit text letters]
  rfl

/-- What is taken from all matches is what is taken from the segments. -/
theorem flatMap_matchAll (f : List (α × Option L) → List α) (text : List α) :
    (matchAll code r text).flatMap f =
      (segments code r 0 none text).flatMap (Segment.taken f) := by
  unfold matchAll
  induction segments code r 0 none text with
  | nil => rfl
  | cons segment others ih =>
    cases segment with
    | copied a => exact ih
    | matched letters =>
      rw [List.filterMap_cons, List.flatMap_cons, List.flatMap_cons, ih]
      rfl

/-- **Replacing single characters** by a text. -/
theorem replaceAll_one [DecidableEq L] (cls : Char → Bool) (lit : Char → α) (replacement : String)
    (text : List α) : replaceAll code (.one cls) lit (Insert.text (L := L) replacement) text =
      text.flatMap fun a => if cls (code a) then replacement.toList.map lit else [a] := by
  have hscan : ∀ prev, (segments code (.one cls) 0 prev text).flatMap
      (Segment.replaced lit (Insert.text (L := L) replacement)) =
        text.flatMap fun a => if cls (code a) then replacement.toList.map lit else [a] := by
    induction text with
    | nil => exact fun _ => rfl
    | cons a text ih =>
      intro prev
      rw [List.flatMap_cons, ← ih (some (code a))]
      cases hcls : cls (code a) with
      | true =>
        have hexec : (Regex.one cls : Regex L).exec code prev (a :: text) =
            some ⟨[(a, none)], text⟩ := by
          unfold Regex.exec
          rw [Regex.run, if_pos hcls]
          rfl
        rw [segments, hexec, List.flatMap_cons]
        exact congrArg (· ++ _) (expand_text lit replacement _)
      | false =>
        have hexec : (Regex.one cls : Regex L).exec code prev (a :: text) = none := by
          unfold Regex.exec
          rw [Regex.run, if_neg (by simp [hcls])]
          rfl
        rw [segments, hexec]
        rfl
  exact hscan none

/-- The letters of a match are skipped. -/
theorem segments_skip (prev : Option Char) (p l : List α) :
    segments code r p.length prev (p ++ l) = segments code r 0 (Regex.lastCode code prev p) l := by
  induction p generalizing prev with
  | nil => rfl
  | cons a p ih =>
    rw [List.cons_append, List.length_cons, segments, ih]
    rfl

/-- **One step of the scan**: at a match it goes on after it, and else after the letter. -/
theorem segments_cases (prev : Option Char) (a : α) (l : List α) :
    (∃ m, r.exec code prev (a :: l) = some m ∧ m.letters ≠ [] ∧
        segments code r 0 prev (a :: l) = .matched m.letters ::
          segments code r 0 (Regex.lastCode code prev (m.letters.map Prod.fst)) m.rest) ∨
      ((∀ m, r.exec code prev (a :: l) = some m → m.letters = []) ∧
        segments code r 0 prev (a :: l) = .copied a :: segments code r 0 (some (code a)) l) := by
  cases hexec : r.exec code prev (a :: l) with
  | none =>
    refine Or.inr ⟨fun m hm => (by cases hm), ?_⟩
    rw [segments, hexec]
  | some m =>
    obtain ⟨letters, rest⟩ := m
    cases letters with
    | nil =>
      refine Or.inr ⟨fun m hm => ?_, ?_⟩
      · cases hm
        rfl
      · rw [segments, hexec]
    | cons x letters =>
      refine Or.inl ⟨_, rfl, List.cons_ne_nil x letters, ?_⟩
      have hsplit := Regex.of_mem_run (Regex.mem_run_of_exec hexec)
      obtain ⟨rfl, hl⟩ := List.cons.inj hsplit
      have hskip := @segments_skip α L code r (some (code x.1)) (letters.map Prod.fst) rest
      rw [List.length_map] at hskip
      rw [segments, hexec, ← hl]
      exact congrArg _ hskip

/-- At a match the scan goes on after it. -/
theorem segments_of_exec {prev : Option Char} {l : List α} {m : Match α L}
    (h : r.exec code prev l = some m) (hne : m.letters ≠ []) :
    segments code r 0 prev l = .matched m.letters ::
      segments code r 0 (Regex.lastCode code prev (m.letters.map Prod.fst)) m.rest := by
  cases l with
  | nil =>
    have hsplit := Regex.of_mem_run (Regex.mem_run_of_exec h)
    exact absurd (List.map_eq_nil_iff.mp (List.append_eq_nil_iff.mp hsplit).1) hne
  | cons a l =>
    rcases segments_cases prev a l with ⟨m', hexec, -, hstep⟩ | ⟨hempty, -⟩
    · rw [h] at hexec
      cases hexec
      exact hstep
    · exact absurd (hempty m h) hne

/-- Where there is no match, the scan goes on after the letter. -/
theorem segments_of_exec_none {prev : Option Char} {a : α} {l : List α}
    (h : r.exec code prev (a :: l) = none) :
    segments code r 0 prev (a :: l) = .copied a :: segments code r 0 (some (code a)) l := by
  rcases segments_cases prev a l with ⟨m', hexec, -, -⟩ | ⟨-, hstep⟩
  · rw [h] at hexec
    cases hexec
  · exact hstep

/-- The segment with other letters of the same characters. -/
def Segment.map (f : α → β) : Segment α L → Segment β L
  | .copied a => .copied (f a)
  | .matched letters => .matched (letters.map fun x => (f x.1, x.2))

variable {codeβ : β → Char} {f : α → β}

/-- The scan looks at the characters only. -/
theorem segments_map (hf : ∀ a, codeβ (f a) = code a) (skip : ℕ) (prev : Option Char)
    (l : List α) : segments codeβ r skip prev (l.map f) =
      (segments code r skip prev l).map (Segment.map f) := by
  induction l generalizing skip prev with
  | nil => cases skip <;> rfl
  | cons a l ih =>
    cases skip with
    | succ skip =>
      rw [List.map_cons, segments, segments, hf]
      exact ih skip _
    | zero =>
      have hexec := Regex.exec_map hf r prev (a :: l)
      rw [List.map_cons] at hexec
      rw [List.map_cons, segments, segments, hexec, hf]
      cases r.exec code prev (a :: l) with
      | none => exact congrArg _ (ih 0 _)
      | some m =>
        obtain ⟨letters, rest⟩ := m
        cases letters with
        | nil => exact congrArg _ (ih 0 _)
        | cons x letters =>
          have hskip := ih letters.length (some (code a))
          rw [List.map_cons, ← hskip]
          simp [Regex.Match.map, Segment.map]

/-- **A replacement looks at the characters only.** -/
theorem replaceAll_map [DecidableEq L] (hf : ∀ a, codeβ (f a) = code a) {lit : Char → α}
    {litβ : Char → β} (hlit : ∀ c, f (lit c) = litβ c) (replacement : List (Insert L))
    (text : List α) : (replaceAll code r lit replacement text).map f =
      replaceAll codeβ r litβ replacement (text.map f) := by
  unfold replaceAll
  rw [segments_map hf, List.map_flatMap, List.flatMap_map]
  refine List.flatMap_congr fun segment _ => ?_
  cases segment with
  | copied a => rfl
  | matched letters =>
    unfold Segment.replaced Segment.map expand
    rw [List.map_flatMap]
    refine List.flatMap_congr fun insert _ => ?_
    cases insert with
    | char c => simp [hlit]
    | part label =>
      unfold marked
      simp [List.filter_map, Function.comp_def]

end Segments

end Text
