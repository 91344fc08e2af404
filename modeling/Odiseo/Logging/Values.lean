import Odiseo.Logging.SecretMatches

/-!
# Where the third pattern finds values

A letter is found as one of a value where a key with its sign of equality stands before it, with
nothing but letters of values between.
-/

namespace Odiseo.Logging

open Text Text.Regex

/-- A letter with a position is not inserted. -/
theorem count_map_inserted (text : List Char) {a : Letter} (ha : a.2 ≠ none) :
    (text.map inserted).count a = 0 := by
  rw [List.count_eq_zero]
  intro hmem
  obtain ⟨c, -, rfl⟩ := List.mem_map.mp hmem
  exact ha rfl

/-- What stands for a value, with the sign of equality. -/
def redactedValue : List Letter := "=[REDACTED]".toList.map inserted

/-- The letters of the values in a text. -/
def valuesFrom (prev : Option Char) (u : List Letter) : List Letter :=
  (segments Letter.char pairPattern 0 prev u).flatMap (Segment.taken (marked .secret))

/-- The text after the values have been replaced. -/
def withoutValues (prev : Option Char) (u : List Letter) : List Letter :=
  (segments Letter.char pairPattern 0 prev u).flatMap
    (Segment.replaced inserted pairSecrets.replacement)

/-- A scan of a text for pairs, with the letters of the values and the text without them. -/
inductive PairScan : Option Char → List Letter → List Letter → List Letter → Prop
  | nil (prev : Option Char) : PairScan prev [] [] []
  | copied {prev : Option Char} {c : Letter} {u values left : List Letter}
      (hnone : pairPattern.exec Letter.char prev (c :: u) = none)
      (h : PairScan (some c.char) u values left) : PairScan prev (c :: u) values (c :: left)
  | found {prev : Option Char} {k v rest values left : List Letter} {a : Letter}
      (hkey : KeyAt prev (k ++ [a])) (hv : ∀ b ∈ v, isValue b.char = true)
      (hrest : ∀ b, rest.head? = some b → isValue b.char = false)
      (h : PairScan (lastCode Letter.char prev (k ++ [a] ++ v)) rest values left) :
      PairScan prev (k ++ [a] ++ v ++ rest) (v ++ values) (k ++ redactedValue ++ left)

/-- **The scan of a text.** -/
theorem pairScan (prev : Option Char) (u : List Letter) :
    PairScan prev u (valuesFrom prev u) (withoutValues prev u) := by
  induction hlength : u.length using Nat.strongRecOn generalizing u prev with
  | ind n ih =>
    cases u with
    | nil => exact .nil prev
    | cons c u =>
      cases hexec : pairPattern.exec Letter.char prev (c :: u) with
      | none =>
        have hstep := segments_of_exec_none hexec
        unfold valuesFrom withoutValues
        rw [hstep, List.flatMap_cons, List.flatMap_cons]
        exact .copied hexec (ih u.length (by rw [← hlength]; simp) _ u rfl)
      | some m =>
        obtain ⟨k, a, v, hkey, hletters, -, hv, hrest, hu⟩ := of_exec_pair hexec
        have hne : m.letters ≠ [] := by
          rw [hletters]
          simp
        have hmarked : marked .group1 m.letters = k ∧ marked .secret m.letters = v := by
          rw [hletters]
          simp [marked, List.filter_map, Function.comp_def]
        have hparts : m.letters.map Prod.fst = k ++ [a] ++ v := by
          rw [hletters]
          simp [Function.comp_def]
        have hshort : m.rest.length < n := by
          rw [← hlength, hu]
          simp
          omega
        have hreplaced : Segment.replaced inserted pairSecrets.replacement (.matched m.letters) =
            k ++ redactedValue := by
          rw [← hmarked.1]
          exact expand_part_text inserted .group1 _ m.letters
        have htaken : Segment.taken (marked .secret) (.matched m.letters) = v := hmarked.2
        have hstep := segments_of_exec hexec hne
        unfold valuesFrom withoutValues
        rw [hstep, List.flatMap_cons, List.flatMap_cons, hreplaced, htaken, hparts, hu,
          List.append_cons k a v]
        exact .found hkey hv hrest (ih _ hshort _ _ rfl)

section Keys

/-- A letter of a key or its sign of equality may stand in a value. -/
theorem isValue_of_keyAt {prev : Option Char} {key : List Letter} (hkey : KeyAt prev key) :
    ∀ b ∈ key, isValue b.char = true := by
  obtain ⟨-, k, a, rfl, ha, name, hname, hk⟩ := hkey
  obtain ⟨-, hword⟩ := isWord_of_key hname hk
  intro b hb
  rcases List.mem_append.mp hb with hb | hb
  · exact isValue_of_isWord (hword b hb)
  · rw [List.mem_singleton.mp hb, ha]
    decide

/-- A key is all letters up to the first one that is in no word, and that one. -/
theorem keyAt_unique {prev prev' : Option Char} {key key' z z' : List Letter}
    (hkey : KeyAt prev key) (hkey' : KeyAt prev' key') (h : key ++ z = key' ++ z') :
    key = key' ∧ z = z' := by
  have hspan : ∀ {prev : Option Char} {key : List Letter} (z : List Letter), KeyAt prev key →
      ∃ k a, key = k ++ [a] ∧ (key ++ z).takeWhile (fun b => isWord b.char) = k := by
    rintro _ _ z ⟨-, k, a, rfl, ha, name, hname, hk⟩
    obtain ⟨-, hword⟩ := isWord_of_key hname hk
    refine ⟨k, a, rfl, ?_⟩
    have hnot : ¬ isWord a.char = true := by
      rw [ha]
      decide
    have hend : (a :: z).takeWhile (fun b => isWord b.char) = [] := List.takeWhile_cons_of_neg hnot
    rw [List.append_assoc, List.takeWhile_append_of_pos hword, List.singleton_append, hend,
      List.append_nil]
  obtain ⟨k, a, rfl, hk⟩ := hspan z hkey
  obtain ⟨k', a', rfl, hk'⟩ := hspan z' hkey'
  rw [h, hk'] at hk
  subst hk
  rw [List.append_assoc, List.append_assoc] at h
  obtain ⟨rfl, rfl⟩ := List.cons.inj (List.append_cancel_left h)
  exact ⟨rfl, rfl⟩

/-- No key begins inside a key. -/
theorem isWord_inside_key {prev : Option Char} {x y : List Letter} (hkey : KeyAt prev (x ++ y))
    (hx : x ≠ []) (hy : y ≠ []) (prev' : Option Char) :
    (lastCode Letter.char prev' x).any isWord = true := by
  obtain ⟨-, k, a, hka, -, name, hname, hk⟩ := hkey
  obtain ⟨-, hword⟩ := isWord_of_key hname hk
  obtain ⟨y', b, rfl⟩ := (List.eq_nil_or_concat' y).resolve_left hy
  rw [← List.append_assoc] at hka
  obtain ⟨rfl, -⟩ := List.append_inj' hka rfl
  obtain ⟨c, hc, hlast⟩ := @exists_lastCode _ Letter.char x hx prev'
  rw [hlast]
  exact hword c (List.mem_append_left y' hc)

/-- The longest first part of letters of values has all of them that come one after another. -/
theorem mem_of_isValue {v w rest y : List Letter} {a : Letter}
    (h : v ++ rest = w ++ a :: y) (hw : ∀ b ∈ w ++ [a], isValue b.char = true)
    (hrest : ∀ b, rest.head? = some b → isValue b.char = false) : a ∈ v := by
  rw [List.append_cons] at h
  rcases List.append_eq_append_iff.mp h with ⟨more, hmore, hr⟩ | ⟨more, rfl, -⟩
  · cases more with
    | nil =>
      rw [List.append_nil] at hmore
      rw [← hmore]
      simp
    | cons b more =>
      have hb : isValue b.char = true := hw b (by rw [hmore]; simp)
      rw [hrest b (by rw [hr]; rfl)] at hb
      cases hb
  · simp

end Keys

namespace PairScan

variable {prev : Option Char} {u values left : List Letter} {a : Letter}

/-- Before a letter of a value there is a key. -/
theorem of_mem_values (h : PairScan prev u values left) (ha : a ∈ values) :
    ∃ x key v y, u = x ++ key ++ v ++ a :: y ∧ KeyAt (lastCode Letter.char prev x) key ∧
      ∀ b ∈ v ++ [a], isValue b.char = true := by
  induction h with
  | nil => cases ha
  | @copied prev c u values left hnone h ih =>
    obtain ⟨x, key, v, y, rfl, hkey, hv⟩ := ih ha
    exact ⟨c :: x, key, v, y, rfl, hkey, hv⟩
  | @found prev k v rest values left s hkey hv hrest h ih =>
    rcases List.mem_append.mp ha with ha | ha
    · obtain ⟨v₁, v₂, rfl⟩ := List.append_of_mem ha
      refine ⟨[], k ++ [s], v₁, v₂ ++ rest, by simp, hkey, fun b hb => hv b ?_⟩
      rw [List.append_cons]
      exact List.mem_append_left _ hb
    · obtain ⟨x, key, v', y, rfl, hkey', hv'⟩ := ih ha
      refine ⟨k ++ [s] ++ v ++ x, key, v', y, by simp, ?_, hv'⟩
      rw [lastCode_append]
      exact hkey'

/-- A letter of a value is one of the text. -/
theorem mem_text (h : PairScan prev u values left) (ha : a ∈ values) : a ∈ u := by
  obtain ⟨x, key, v, y, rfl, -⟩ := h.of_mem_values ha
  simp

/-- **A letter after a key is one of a value.** -/
theorem mem_values (h : PairScan prev u values left) {x key v y : List Letter}
    (hu : u = x ++ key ++ v ++ a :: y) (hkey : KeyAt (lastCode Letter.char prev x) key)
    (hv : ∀ b ∈ v ++ [a], isValue b.char = true) : a ∈ values := by
  induction h generalizing x with
  | nil => simp at hu
  | @copied prev c u values left hnone h ih =>
    cases x with
    | nil =>
      obtain ⟨b, z, hbz, hb⟩ : ∃ b z, v ++ a :: y = b :: z ∧ isValue b.char = true := by
        cases v with
        | nil => exact ⟨a, y, rfl, hv a (by simp)⟩
        | cons b v => exact ⟨b, v ++ a :: y, rfl, hv b (by simp)⟩
      rw [hu, List.nil_append, List.append_assoc, hbz] at hnone
      exact absurd hnone (exec_pair_ne_none hkey hb)
    | cons d x =>
      obtain ⟨rfl, rfl⟩ := List.cons.inj hu
      exact ih rfl hkey
  | @found prev k v' rest values left s hkey' hv' hrest h ih =>
    have hblock : ∀ b ∈ key ++ v ++ [a], isValue b.char = true := by
      rw [List.append_assoc]
      exact List.forall_mem_append.mpr ⟨isValue_of_keyAt hkey, hv⟩
    have hsplit : k ++ [s] ++ (v' ++ rest) = x ++ (key ++ (v ++ a :: y)) := by
      simpa using hu
    -- a key after the one that is found begins after its value, or in it
    have hlater : ∀ x', x = k ++ [s] ++ x' → v' ++ rest = x' ++ (key ++ (v ++ a :: y)) →
        a ∈ v' ++ values := by
      rintro x' rfl hafter
      rcases List.append_eq_append_iff.mp hafter with ⟨x'', rfl, hrest'⟩ | ⟨w, rfl, hw⟩
      · rw [← List.append_assoc, lastCode_append] at hkey
        refine List.mem_append_right v' (ih (x := x'') ?_ hkey)
        rw [hrest']
        simp
      · rw [← List.append_assoc] at hw
        exact List.mem_append_left _
          (List.mem_append_right x' (mem_of_isValue hw.symm hblock hrest))
    rcases List.append_eq_append_iff.mp hsplit with ⟨x', hx, hafter⟩ | ⟨key', hinside, hafter⟩
    · exact hlater x' hx hafter
    · cases x with
      | nil =>
        rw [List.nil_append] at hinside
        rw [← hinside] at hafter
        obtain ⟨-, hvalue⟩ := keyAt_unique hkey hkey' hafter
        exact List.mem_append_left _ (mem_of_isValue hvalue.symm hv hrest)
      | cons d x =>
        cases key' with
        | nil =>
          rw [List.append_nil] at hinside
          exact hlater [] (by rw [hinside, List.append_nil]) hafter.symm
        | cons e key' =>
          rw [hinside] at hkey'
          have hword := isWord_inside_key hkey' (List.cons_ne_nil d x) (List.cons_ne_nil e key')
            prev
          rw [hkey.boundary] at hword
          cases hword

/-- A letter is left, or it is one of a value, or it is the sign after a key that is left. -/
theorem cases_of_mem (h : PairScan prev u values left) (ha : a ∈ u) :
    a ∈ left ∨ a ∈ values ∨ ∃ x k y, u = x ++ k ++ a :: y ∧
      KeyAt (lastCode Letter.char prev x) (k ++ [a]) ∧ ∀ b ∈ k, b ∈ left := by
  induction h with
  | nil => cases ha
  | @copied prev c u values left hnone h ih =>
    rcases List.mem_cons.mp ha with rfl | ha
    · exact Or.inl List.mem_cons_self
    · rcases ih ha with hleft | hvalue | ⟨x, k, y, rfl, hkey, hk⟩
      · exact Or.inl (List.mem_cons_of_mem c hleft)
      · exact Or.inr (Or.inl hvalue)
      · exact Or.inr (Or.inr ⟨c :: x, k, y, rfl, hkey, fun b hb =>
          List.mem_cons_of_mem c (hk b hb)⟩)
  | @found prev k v rest values left s hkey hv hrest h ih =>
    simp only [List.mem_append, List.mem_singleton] at ha
    rcases ha with ((hk | rfl) | hvalue) | ha
    · exact Or.inl (List.mem_append_left _ (List.mem_append_left _ hk))
    · exact Or.inr (Or.inr ⟨[], k, v ++ rest, by simp, hkey, fun b hb =>
        List.mem_append_left _ (List.mem_append_left _ hb)⟩)
    · exact Or.inr (Or.inl (List.mem_append_left _ hvalue))
    · rcases ih ha with hleft | hvalue | ⟨x, k', y, rfl, hkey', hk'⟩
      · exact Or.inl (List.mem_append_right _ hleft)
      · exact Or.inr (Or.inl (List.mem_append_right v hvalue))
      · refine Or.inr (Or.inr ⟨k ++ [s] ++ v ++ x, k', y, by simp, ?_, fun b hb =>
          List.mem_append_right _ (hk' b hb)⟩)
        rw [lastCode_append]
        exact hkey'

/-- A letter of the text is left or taken, but not both. -/
theorem count_add_le (h : PairScan prev u values left) (ha : a.2 ≠ none) :
    left.count a + values.count a ≤ u.count a := by
  have hinserted : redactedValue.count a = 0 := count_map_inserted _ ha
  induction h with
  | nil => simp
  | @copied prev c u values left hnone h ih =>
    rw [List.count_cons, List.count_cons]
    omega
  | @found prev k v rest values left s hkey hv hrest h ih =>
    simp only [List.count_append, hinserted]
    omega

end PairScan

end Odiseo.Logging
