import Mathlib.Data.List.TakeWhile
import Odiseo.Logging.ScrubSecrets

/-!
# What the patterns match

The shape of the matches of each pattern, and for the third one also where it matches.
-/

namespace Odiseo.Logging

open Text Text.Regex

section Characters

variable {c : Char}

/-- A letter of a word is no white space. -/
theorem isSpace_of_isWord (h : isWord c = true) : isSpace c = false := by
  have hcode := toNat_of_isWord h
  unfold isSpace
  simp
  omega

/-- A letter of a word may stand in a value. -/
theorem isValue_of_isWord (h : isWord c = true) : isValue c = true := by
  unfold isValue
  rw [isSpace_of_isWord h, Bool.false_or, Bool.not_eq_true', beq_eq_false_iff_ne]
  rintro rfl
  revert h
  decide

/-- A letter of a word may stand in a token. -/
theorem isToken_of_isWord {c : Char} (h : isWord c = true) : isToken c = true := by
  unfold isWord at h
  unfold isToken
  rcases Bool.or_eq_true_iff.mp h with h | h
  · rw [h]
    rfl
  · rw [beq_iff_eq.mp h]
    decide

/-- What is a letter of a word in lower case is one. -/
theorem isWord_of_toLower (h : isWord c.toLower = true) : isWord c = true := by
  unfold Char.toLower at h
  split at h
  · rename_i hupper
    have hisUpper : c.isUpper = true := by
      unfold Char.isUpper
      exact decide_eq_true hupper
    unfold isWord Char.isAlphanum Char.isAlpha
    rw [hisUpper]
    rfl
  · exact h

end Characters

section Shapes

variable {prev : Option Char} {l : List Letter} {m : Match Letter Part}

/-- The user and the password of an address, with the signs after them. -/
structure Credentials (c : List Letter) : Prop where
  ends : ∃ c₀ a, c = c₀ ++ [a] ∧ a.char = '@'
  no_space : ∀ b ∈ c, isSpace b.char = false

/-- The letters of a match that are not inserted again. -/
def removed (letters : List (Letter × Option Part)) : List Letter :=
  (letters.filter fun x => x.2 ≠ some .group1).map Prod.fst

/-- The letters with a mark, in one part after another. -/
theorem marked_append (label : Part) (x y : List (Letter × Option Part)) :
    marked label (x ++ y) = marked label x ++ marked label y := by
  unfold marked
  rw [List.filter_append, List.map_append]

/-- The letters that are removed, in one part after another. -/
theorem removed_append (x y : List (Letter × Option Part)) :
    removed (x ++ y) = removed x ++ removed y := by
  unfold removed
  rw [List.filter_append, List.map_append]

/-- Of a part that is inserted again nothing is removed. -/
theorem parts_of_group1 {x : List (Letter × Option Part)} (h : ∀ y ∈ x, y.2 = some .group1) :
    marked .group1 x = x.map Prod.fst ∧ removed x = [] := by
  constructor
  · exact congrArg _ (List.filter_eq_self.mpr fun y hy => decide_eq_true (h y hy))
  · exact congrArg (List.map Prod.fst)
      (List.filter_eq_nil_iff.mpr fun y hy => by simp [h y hy])

/-- A part that is not inserted again is removed. -/
theorem parts_of_ne_group1 {x : List (Letter × Option Part)} (h : ∀ y ∈ x, y.2 ≠ some .group1) :
    marked .group1 x = [] ∧ removed x = x.map Prod.fst := by
  constructor
  · exact congrArg (List.map Prod.fst) (List.filter_eq_nil_iff.mpr fun y hy => by simp [h y hy])
  · exact congrArg _ (List.filter_eq_self.mpr fun y hy => decide_eq_true (h y hy))

/-- The three signs before the credentials. -/
theorem of_mem_run_slashes (hm : m ∈ run Letter.char (literal "://".toList) prev l) :
    ∃ d s s', m.letters.map Prod.fst = [d, s, s'] ∧ d.char = ':' ∧ s.char = '/' ∧
      s'.char = '/' := by
  have hchars := of_mem_run_literal hm
  have hmap : (m.letters.map Prod.fst).map Letter.char = [':', '/', '/'] := by
    rw [List.map_map]
    exact hchars
  obtain ⟨d, rest, hd, hdChar, hrest⟩ := List.map_eq_cons_iff.mp hmap
  obtain ⟨s, rest', rfl, hsChar, hrest'⟩ := List.map_eq_cons_iff.mp hrest
  obtain ⟨s', rest'', rfl, hsChar', hnil⟩ := List.map_eq_cons_iff.mp hrest'
  rw [List.map_eq_nil_iff.mp hnil] at hd
  exact ⟨d, s, s', hd, hdChar, hsChar, hsChar'⟩

/-- What follows the three signs of an address: credentials, and nothing of it is inserted again. -/
theorem of_mem_run_credentials (hm : m ∈ run Letter.char (.seq (.mark Part.secret (.many isUser))
      (.seq (.one (· == ':')) (.seq (.mark Part.secret (.plus isPassword)) (.one (· == '@')))))
        prev l) :
    Credentials (m.letters.map Prod.fst) ∧ ∀ y ∈ m.letters, y.2 ≠ some .group1 := by
  obtain ⟨user, afterUser, huser, hafterUser, rfl⟩ := of_mem_run_seq hm
  obtain ⟨user', huser', huserLetters, -⟩ := of_mem_run_mark huser
  obtain ⟨colon, afterColon, hcolon, hafterColon, rfl⟩ := of_mem_run_seq hafterUser
  obtain ⟨pass, sign, hpass, hsign, rfl⟩ := of_mem_run_seq hafterColon
  obtain ⟨pass', hpass', hpassLetters, -⟩ := of_mem_run_mark hpass
  obtain ⟨c, -, hc, hcolonLetters⟩ := of_mem_run_one hcolon
  obtain ⟨a, -, ha, hsignLetters⟩ := of_mem_run_one hsign
  have hcChar : c.char = ':' := beq_iff_eq.mp hc
  have haChar : a.char = '@' := beq_iff_eq.mp ha
  have huserSpace : ∀ x ∈ user'.letters, isSpace x.1.char = false := by
    intro x hx
    have hx := (of_mem_runMany huser').2 x hx
    unfold isUser at hx
    simp only [Bool.not_eq_true', Bool.or_eq_false_iff] at hx
    exact hx.1.1.1
  have hpassSpace : ∀ x ∈ pass'.letters, isSpace x.1.char = false := by
    intro x hx
    have hx := (of_mem_run_plus hpass').2 x hx
    unfold isPassword at hx
    simp only [Bool.not_eq_true', Bool.or_eq_false_iff] at hx
    exact hx.1.1
  have hletters : (user.append (colon.append (pass.append sign))).letters =
      user'.letters.map (fun x => (x.1, some Part.secret)) ++ (c, none) ::
        (pass'.letters.map (fun x => (x.1, some Part.secret)) ++ [(a, none)]) := by
    simp only [Match.append, huserLetters, hcolonLetters, hpassLetters, hsignLetters,
      List.singleton_append]
  have hparts : (user.append (colon.append (pass.append sign))).letters.map Prod.fst =
      (user'.letters.map Prod.fst ++ c :: pass'.letters.map Prod.fst) ++ [a] := by
    rw [hletters]
    simp [Function.comp_def]
  refine ⟨⟨⟨_, a, hparts, haChar⟩, fun b hb => ?_⟩, fun y hy => ?_⟩
  · rw [hparts] at hb
    simp only [List.mem_append, List.mem_cons, List.mem_map, List.not_mem_nil, or_false] at hb
    rcases hb with (⟨x, hx, rfl⟩ | rfl | ⟨x, hx, rfl⟩) | rfl
    · exact huserSpace x hx
    · rw [hcChar]
      decide
    · exact hpassSpace x hx
    · rw [haChar]
      decide
  · rw [hletters] at hy
    simp only [List.mem_append, List.mem_cons, List.mem_map, List.not_mem_nil, or_false] at hy
    rcases hy with ⟨_, -, rfl⟩ | rfl | ⟨_, -, rfl⟩ | rfl <;> simp

/-- **A match of an address**: its first part is inserted again and ends with `://`, and the
credentials follow. -/
theorem of_mem_run_url (hm : m ∈ run Letter.char urlPattern prev l) :
    ∃ w d s s', marked .group1 m.letters = w ++ [d, s, s'] ∧ d.char = ':' ∧ s.char = '/' ∧
      s'.char = '/' ∧ Credentials (removed m.letters) ∧
      m.letters.map Prod.fst = marked .group1 m.letters ++ removed m.letters := by
  obtain ⟨first, others, hfirst, hothers, rfl⟩ := of_mem_run_seq hm
  obtain ⟨scheme, hscheme, hletters, -⟩ := of_mem_run_mark hfirst
  obtain ⟨word, slashes, -, hslashes, rfl⟩ := of_mem_run_seq hscheme
  obtain ⟨d, s, s', hslashesLetters, hd, hs, hs'⟩ := of_mem_run_slashes hslashes
  obtain ⟨hcredentials, hlabels⟩ := of_mem_run_credentials hothers
  obtain ⟨hfirstMarked, hfirstRemoved⟩ := parts_of_group1 (x := first.letters) fun y hy => by
    rw [hletters] at hy
    obtain ⟨_, -, rfl⟩ := List.mem_map.mp hy
    rfl
  obtain ⟨hothersMarked, hothersRemoved⟩ := parts_of_ne_group1 hlabels
  have hall : (first.append others).letters = first.letters ++ others.letters := rfl
  have hmarked : marked .group1 (first.append others).letters = first.letters.map Prod.fst := by
    rw [hall, marked_append, hfirstMarked, hothersMarked, List.append_nil]
  have hremoved : removed (first.append others).letters = others.letters.map Prod.fst := by
    rw [hall, removed_append, hfirstRemoved, hothersRemoved, List.nil_append]
  refine ⟨word.letters.map Prod.fst, d, s, s', ?_, hd, hs, hs', hremoved ▸ hcredentials, ?_⟩
  · rw [hmarked, hletters, ← hslashesLetters]
    simp [Match.append, Function.comp_def]
  · rw [hmarked, hremoved, hall, List.map_append]

/-- A match of a bearer token has white space in it. -/
theorem exists_space_of_exec_bearer (h : bearerPattern.exec Letter.char prev l = some m) :
    ∃ x ∈ m.letters, isSpace x.1.char = true := by
  obtain ⟨_, afterBoundary, -, hafterBoundary, rfl⟩ := of_exec_seq h
  obtain ⟨_, afterWord, -, hafterWord, rfl⟩ := of_exec_seq hafterBoundary
  obtain ⟨space, token, hspace, -, rfl⟩ := of_exec_seq hafterWord
  obtain ⟨hne, hall⟩ := of_mem_run_plus hspace
  obtain ⟨x, hx⟩ := List.exists_mem_of_ne_nil _ hne
  refine ⟨x, ?_, hall x hx⟩
  exact List.mem_append_right _ (List.mem_append_right _ (List.mem_append_left _ hx))

/-- What follows the longest first part of a class does not begin with a letter of it. -/
theorem head?_dropWhile_eq_false {cls : Letter → Bool} {b : Letter} {l : List Letter}
    (h : (l.dropWhile cls).head? = some b) : cls b = false := by
  have hnot := List.head?_dropWhile_not cls l
  rw [h] at hnot
  simpa using hnot

/-- **A bearer token ends where it has to**: when a word goes on after the match, the match ends
with a sign of equality. -/
theorem last_of_exec_bearer (h : bearerPattern.exec Letter.char prev l = some m) {b : Letter}
    (hb : m.rest.head? = some b) (hword : isWord b.char = true) :
    (lastCode Letter.char prev (m.letters.map Prod.fst)).any isWord = false := by
  obtain ⟨boundary, afterBoundary, -, hafterBoundary, rfl⟩ := of_exec_seq h
  obtain ⟨word, afterWord, -, hafterWord, rfl⟩ := of_exec_seq hafterBoundary
  obtain ⟨space, token, -, htoken, rfl⟩ := of_exec_seq hafterWord
  rw [exec_mark, exec_seq_many, Option.map_map] at htoken
  obtain ⟨token', htoken', htokenEq⟩ := Option.map_eq_some_iff.mp htoken
  have hrest : token.rest = token'.rest.dropWhile fun a => a.char == '=' := by
    rw [← htokenEq]
    rfl
  have hletters : token.letters.map Prod.fst = token'.letters.map Prod.fst ++
      token'.rest.takeWhile fun a => a.char == '=' := by
    rw [← htokenEq]
    simp [Match.append, Function.comp_def]
  have hend : ∀ d, token'.rest.head? = some d → isToken d.char = false := by
    intro d hd
    cases hspace : space.rest with
    | nil =>
      rw [hspace] at htoken'
      cases htoken'
    | cons a l₀ =>
      rw [hspace, exec_plus] at htoken'
      split at htoken'
      · cases htoken'
        exact head?_dropWhile_eq_false hd
      · cases htoken'
  have hb : token.rest.head? = some b := hb
  have hsplit := @List.takeWhile_append_dropWhile Letter (fun a => a.char == '=') token'.rest
  cases hsigns : token'.rest.takeWhile fun a => a.char == '=' with
  | nil =>
    rw [hsigns, List.nil_append, ← hrest] at hsplit
    have hnot := hend b (hsplit ▸ hb)
    rw [isToken_of_isWord hword] at hnot
    cases hnot
  | cons d signs =>
    have hall : (boundary.append (word.append (space.append token))).letters.map Prod.fst =
        (boundary.letters ++ (word.letters ++ (space.letters ++ token'.letters))).map Prod.fst ++
          d :: signs := by
      simp only [Match.append, List.map_append, hletters, hsigns, List.append_assoc]
    obtain ⟨e, he, hlast⟩ := @exists_lastCode _ Letter.char _ (List.cons_ne_nil d signs)
      (lastCode Letter.char prev ((boundary.letters ++ (word.letters ++
        (space.letters ++ token'.letters))).map Prod.fst))
    rw [← hsigns] at he
    have hsign : (e.char == '=') = true :=
      List.mem_takeWhile_imp (p := fun a : Letter => a.char == '=') he
    rw [hall, lastCode_append, hlast, beq_iff_eq.mp hsign]
    decide

/-- A key with its sign of equality, after the end of a word. -/
structure KeyAt (prev : Option Char) (key : List Letter) : Prop where
  boundary : prev.any isWord = false
  spelled : ∃ k a, key = k ++ [a] ∧ a.char = '=' ∧
    ∃ name ∈ secretKeys, k.map (fun b => b.char.toLower) = name.toList

/-- The letters of a key are letters of words. -/
theorem isWord_of_key {k : List Letter} {name : String} (hname : name ∈ secretKeys)
    (hk : k.map (fun b => b.char.toLower) = name.toList) :
    k ≠ [] ∧ ∀ b ∈ k, isWord b.char = true := by
  have hall : secretKeys.all (fun name => !name.toList.isEmpty && name.toList.all isWord) = true :=
    by decide
  have hkey := List.all_eq_true.mp hall name hname
  rw [← hk, Bool.and_eq_true, List.all_eq_true] at hkey
  obtain ⟨hne, hword⟩ := hkey
  constructor
  · rintro rfl
    cases hne
  · intro b hb
    exact isWord_of_toLower (hword _ (List.mem_map_of_mem hb))

/-- A match of one of the keys. -/
theorem of_mem_run_key (hm : m ∈ run Letter.char keyPattern prev l) :
    ∃ name ∈ secretKeys, m.letters.map (fun x => x.1.char.toLower) = name.toList := by
  have hkeys : ∀ keys : List String, m ∈ run Letter.char (keys.foldr (fun key others =>
      .alt (.literalAnyCase key.toList) others) (.one fun _ => false)) prev l →
        ∃ name ∈ keys, m.letters.map (fun x => x.1.char.toLower) = name.toList := by
    intro keys
    induction keys with
    | nil =>
      intro hm
      obtain ⟨a, -, hcls, -⟩ := of_mem_run_one hm
      cases hcls
    | cons key keys ih =>
      intro hm
      rcases List.mem_append.mp hm with hm | hm
      · exact ⟨key, List.mem_cons_self, of_mem_run_literalAnyCase hm⟩
      · obtain ⟨name, hname, hspelled⟩ := ih hm
        exact ⟨name, List.mem_cons_of_mem key hname, hspelled⟩
  exact hkeys secretKeys hm

/-- A key matches where it stands. -/
theorem mem_run_key {k : List Letter} {name : String} (hname : name ∈ secretKeys)
    (hk : k.map (fun b => b.char.toLower) = name.toList) (prev : Option Char) (z : List Letter) :
    (⟨k.map fun a => (a, none), z⟩ : Match Letter Part) ∈
      run Letter.char keyPattern prev (k ++ z) := by
  have hkeys : ∀ keys : List String, name ∈ keys →
      (⟨k.map fun a => (a, none), z⟩ : Match Letter Part) ∈ run Letter.char (keys.foldr
        (fun key others => .alt (.literalAnyCase key.toList) others) (.one fun _ => false)) prev
          (k ++ z) := by
    intro keys
    induction keys with
    | nil => exact fun hname => absurd hname List.not_mem_nil
    | cons key keys ih =>
      intro hname
      rcases List.mem_cons.mp hname with rfl | hname
      · exact List.mem_append_left _ (mem_run_literalAnyCase hk prev z)
      · exact List.mem_append_right _ (ih hname)
  exact hkeys secretKeys hname

/-- **A match of a pair**: a key at the end of a word before, and all letters of the value. -/
theorem of_exec_pair (h : pairPattern.exec Letter.char prev l = some m) :
    ∃ k a v, KeyAt prev (k ++ [a]) ∧ m.letters = k.map (fun b => (b, some .group1)) ++ (a, none) ::
        v.map (fun b => (b, some .secret)) ∧
      v ≠ [] ∧ (∀ b ∈ v, isValue b.char = true) ∧
      (∀ b, m.rest.head? = some b → isValue b.char = false) ∧ l = k ++ a :: v ++ m.rest := by
  obtain ⟨boundary, afterBoundary, hboundary, hafterBoundary, rfl⟩ := of_exec_seq h
  obtain ⟨rfl, hdiffers⟩ := of_mem_run_boundary hboundary
  obtain ⟨key, afterKey, hkey, hafterKey, rfl⟩ := of_exec_seq hafterBoundary
  obtain ⟨key', hkey', hkeyLetters, hkeyRest⟩ := of_mem_run_mark hkey
  obtain ⟨sign, value, hsign, hvalue, rfl⟩ := of_exec_seq hafterKey
  obtain ⟨a, hafterSign, ha, hsignLetters⟩ := of_mem_run_one hsign
  rw [exec_mark] at hvalue
  obtain ⟨value', hvalue', rfl⟩ := Option.map_eq_some_iff.mp hvalue
  cases hrest : sign.rest with
  | nil =>
    rw [hrest] at hvalue'
    cases hvalue'
  | cons b z =>
    rw [hrest, exec_plus] at hvalue'
    split at hvalue'
    · rename_i hb
      cases hvalue'
      obtain ⟨name, hname, hspelled⟩ := of_mem_run_key hkey'
      have hk : (key'.letters.map Prod.fst).map (fun b => b.char.toLower) = name.toList := by
        rw [List.map_map]
        exact hspelled
      obtain ⟨hne, hword⟩ := isWord_of_key hname hk
      have hl : l = key'.letters.map Prod.fst ++ a :: b :: z := by
        have hsplit : key'.letters.map Prod.fst ++ key'.rest = l := of_mem_run hkey'
        rw [← hsplit, ← hkeyRest, hafterSign, hrest]
      have hprev : prev.any isWord = false := by
        obtain ⟨c, k, hck⟩ := List.exists_cons_of_ne_nil hne
        rw [hl, hck] at hdiffers
        have hc : isWord c.char = true := hword c (hck ▸ List.mem_cons_self)
        simpa [hc] using hdiffers
      refine ⟨key'.letters.map Prod.fst, a, b :: z.takeWhile fun d => isValue d.char,
        ⟨hprev, _, a, rfl, beq_iff_eq.mp ha, name, hname, hk⟩, ?_, List.cons_ne_nil _ _, ?_, ?_, ?_⟩
      · simp [Match.append, hkeyLetters, hsignLetters, Function.comp_def]
      · intro d hd
        rcases List.mem_cons.mp hd with rfl | hd
        · exact hb
        · exact List.mem_takeWhile_imp (p := fun e : Letter => isValue e.char) hd
      · intro d hd
        exact @head?_dropWhile_eq_false (fun e => isValue e.char) _ _ hd
      · rw [hl]
        simp [Match.append]
    · cases hvalue'

/-- A pair matches where a key stands and a value begins. -/
theorem exec_pair_ne_none {key z : List Letter} {b : Letter} (hkey : KeyAt prev key)
    (hb : isValue b.char = true) :
    pairPattern.exec Letter.char prev (key ++ b :: z) ≠ none := by
  obtain ⟨hprev, k, a, rfl, ha, name, hname, hk⟩ := hkey
  obtain ⟨hne, hword⟩ := isWord_of_key hname hk
  obtain ⟨c, k', hck⟩ := List.exists_cons_of_ne_nil hne
  have hc : isWord c.char = true := hword c (hck ▸ List.mem_cons_self)
  have hboundary : (⟨[], k ++ a :: b :: z⟩ : Match Letter Part) ∈
      run Letter.char .boundary prev (k ++ a :: b :: z) := by
    have hdiffers : prev.any isWord != ((k ++ a :: b :: z).head?.map Letter.char).any isWord := by
      rw [hck]
      simp [hprev, hc]
    rw [run, if_pos hdiffers]
    exact List.mem_singleton_self _
  have hkey : (⟨k.map fun b => (b, some .group1), a :: b :: z⟩ : Match Letter Part) ∈
      run Letter.char (.mark .group1 keyPattern) prev (k ++ a :: b :: z) := by
    refine List.mem_map.mpr ⟨_, mem_run_key hname hk prev (a :: b :: z), ?_⟩
    simp [Function.comp_def]
  have hsign : ∀ before, (⟨[(a, none)], b :: z⟩ : Match Letter Part) ∈
      run Letter.char (.one (· == '=')) before (a :: b :: z) := by
    intro before
    simp [run, ha]
  have hvalue : ∀ before, ∃ m, m ∈ run Letter.char (.mark Part.secret (.plus isValue))
      before (b :: z) := by
    intro before
    have hexec : (Regex.mark Part.secret (.plus isValue)).exec Letter.char before (b :: z) ≠
        none := by
      rw [exec_mark, exec_plus, if_pos hb]
      exact Option.some_ne_none _
    obtain ⟨m, hm⟩ := Option.ne_none_iff_exists'.mp hexec
    exact ⟨m, mem_run_of_exec hm⟩
  obtain ⟨m, hm⟩ := hvalue _
  intro hnone
  have hmem := mem_run_seq hboundary (mem_run_seq hkey (mem_run_seq (hsign _) hm))
  rw [List.append_assoc] at hnone
  have hnil : run Letter.char pairPattern prev (k ++ a :: b :: z) = [] :=
    List.head?_eq_none_iff.mp hnone
  have hpair : run Letter.char pairPattern prev (k ++ a :: b :: z) = run Letter.char
      (.seq .boundary (.seq (.mark .group1 keyPattern) (.seq (.one (· == '='))
        (.mark .secret (.plus isValue))))) prev (k ++ a :: b :: z) := rfl
  rw [← hpair, hnil] at hmem
  cases hmem

end Shapes

end Odiseo.Logging
