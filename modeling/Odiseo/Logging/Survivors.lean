import Mathlib.Data.List.Nodup
import Odiseo.Logging.Pieces
import Odiseo.Logging.Values

/-!
# Secrets that survive

When the first two patterns are done, the third one no longer finds a value whose key they have
taken away.
-/

namespace Odiseo.Logging

open Text Text.Regex

section Splitting

variable {f : Piece → List Letter}

/-- Letters that do not overlap the ones before come after them: the last letter is not one of the
ones before, and the last of those is not one of the others. -/
theorem exists_after {l x w y rest : List Letter} {z e : Letter}
    (h : l ++ [e] ++ rest = x ++ (w ++ z :: y)) (hz : z ∉ l ++ [e]) (he : e ∉ w) :
    ∃ x', x = l ++ [e] ++ x' ∧ rest = x' ++ (w ++ z :: y) := by
  rcases List.append_eq_append_iff.mp h with hafter | ⟨inside, hinside, hrest⟩
  · exact hafter
  · rcases List.eq_nil_or_concat' inside with rfl | ⟨inside, e', rfl⟩
    · rw [List.append_nil] at hinside
      exact ⟨[], by rw [hinside, List.append_nil], hrest.symm⟩
    · rw [← List.append_assoc] at hinside
      obtain ⟨rfl, he'⟩ := List.append_inj' hinside rfl
      obtain rfl := List.singleton_inj.mp he'
      exfalso
      rcases List.append_eq_append_iff.mp hrest with ⟨more, hmore, hsign⟩ | ⟨more, rfl, -⟩
      · cases more with
        | nil =>
          rw [List.append_nil] at hmore
          exact he (hmore ▸ by simp)
        | cons d more =>
          obtain ⟨rfl, -⟩ := List.cons.inj hsign
          rw [List.append_assoc, hmore] at hz
          exact hz (by simp)
      · exact he (by simp)

/-- **Where letters of pieces stand**: when the last of them is in no piece that is taken away, and
none of them ends such a piece, they are kept. -/
theorem exists_split (hf : ∀ a, f (.kept a) = [a]) {ps : List Piece} {x w y : List Letter}
    {z : Letter} (hps : ∀ p ∈ ps, (∃ c, p = .kept c) ∨
      ∃ l e, f p = l ++ [e] ∧ z ∉ f p ∧ e ∉ w)
    (h : ps.flatMap f = x ++ (w ++ z :: y)) : ∃ px py,
      ps = px ++ ((w ++ [z]).map .kept ++ py) ∧ px.flatMap f = x ∧ py.flatMap f = y := by
  induction ps generalizing x w with
  | nil => simp at h
  | cons p ps ih =>
    have hps' := fun p' hp' => hps p' (List.mem_cons_of_mem p hp')
    have hskip : ∀ x', x = f p ++ x' → ps.flatMap f = x' ++ (w ++ z :: y) → ∃ px py,
        p :: ps = px ++ ((w ++ [z]).map .kept ++ py) ∧ px.flatMap f = x ∧ py.flatMap f = y := by
      rintro x' rfl hrest
      obtain ⟨px, py, rfl, rfl, hpy⟩ := ih hps' hrest
      exact ⟨p :: px, py, rfl, rfl, hpy⟩
    rw [List.flatMap_cons] at h
    rcases hps p List.mem_cons_self with ⟨c, rfl⟩ | ⟨l, e, hl, hz, he⟩
    · cases x with
      | cons d x =>
        rw [hf] at h
        obtain ⟨rfl, htail⟩ := List.cons.inj h
        exact hskip x (by rw [hf]; rfl) htail
      | nil =>
        rw [hf] at h
        cases w with
        | nil =>
          obtain ⟨rfl, rfl⟩ := List.cons.inj h
          exact ⟨[], ps, rfl, rfl, rfl⟩
        | cons d w =>
          obtain ⟨rfl, htail⟩ := List.cons.inj h
          obtain ⟨px, py, rfl, hpx, hpy⟩ := ih (x := []) (w := w) (fun p hp =>
            (hps' p hp).imp_right fun ⟨l, e, hl, hz, he⟩ =>
              ⟨l, e, hl, hz, fun hmem => he (List.mem_cons_of_mem c hmem)⟩) htail
          cases px with
          | nil => exact ⟨[], py, rfl, rfl, hpy⟩
          | cons p px =>
            obtain ⟨hp, -⟩ := List.append_eq_nil_iff.mp hpx
            rcases hps' p List.mem_cons_self with ⟨c, rfl⟩ | ⟨l, e, hl, -⟩
            · rw [hf] at hp
              cases hp
            · rw [hl] at hp
              simp at hp
    · rw [hl] at h hz
      obtain ⟨x', hx, hrest⟩ := exists_after h hz he
      exact hskip x' (by rw [hl, hx]) hrest

end Splitting

section Cutting

/-- The credentials in the addresses of a text. -/
def credentials (text : List CodeUnit) : List Letter :=
  (matchAll Letter.char urlPattern (positioned text)).flatMap removed

/-- The letters of the bearer tokens in a text, with the word before them. -/
def bearers (text : List CodeUnit) : List Letter :=
  (matchAll Letter.char bearerPattern (positioned text)).flatMap (List.map Prod.fst)

/-- A text is cut into pieces. -/
structure Cut (text : List CodeUnit) (ps : List Piece) : Prop where
  source : ps.flatMap Piece.source = positioned text
  urlLetters : ps.flatMap Piece.urlLetters = credentials text
  bearerLetters : ps.flatMap Piece.bearerLetters = bearers text
  image : withoutValues none (ps.flatMap Piece.image) = scrubPositioned text
  placed : Placed ps

/-- **Every text is cut into pieces.** -/
theorem exists_cut (text : List CodeUnit) : ∃ ps, Cut text ps := by
  obtain ⟨ps, hguarded, hsource, himage, hurl⟩ := exists_pieces_url none (positioned text)
  obtain ⟨ps', h⟩ := exists_pieces_bearer hguarded none
  refine ⟨ps', h.source.trans hsource, ?_, ?_, ?_, h.placed⟩
  · rw [h.urlLetters, hurl]
    exact (flatMap_matchAll removed _).symm
  · rw [h.bearerLetters, hsource]
    exact (flatMap_matchAll (List.map Prod.fst) _).symm
  · rw [h.image, himage]
    rfl

/-- The positions of a text are those of its letters. -/
theorem nodup_positioned (text : List CodeUnit) : (positioned text).Nodup := by
  apply List.Nodup.of_map Prod.snd
  unfold positioned
  have hpositions : (text.zipIdx.map fun x => (x.1, some x.2)).map Prod.snd =
      (text.zipIdx.map Prod.snd).map some := by
    rw [List.map_map, List.map_map]
    rfl
  rw [hpositions, List.zipIdx_map_snd]
  exact (List.nodup_range' ..).map fun _ _ => Option.some.inj

/-- A letter of a text has a position. -/
theorem ne_none_of_mem_positioned {text : List CodeUnit} {a : Letter} (ha : a ∈ positioned text) :
    a.2 ≠ none := by
  obtain ⟨x, -, rfl⟩ := List.mem_map.mp ha
  exact Option.some_ne_none _

/-- A letter of a text is kept or taken away, but not both. -/
theorem count_pieces {a : Letter} (ha : a.2 ≠ none) (ps : List Piece) :
    (ps.flatMap Piece.image).count a + (ps.flatMap Piece.urlLetters).count a +
      (ps.flatMap Piece.bearerLetters).count a ≤ (ps.flatMap Piece.source).count a := by
  have hurl : redactedUrl.count a = 0 := count_map_inserted _ ha
  have hbearer : redactedBearer.count a = 0 := count_map_inserted _ ha
  induction ps with
  | nil => simp
  | cons p ps ih =>
    simp only [List.flatMap_cons, List.count_append]
    cases p with
    | kept c =>
      simp only [Piece.image, Piece.urlLetters, Piece.bearerLetters, Piece.source, List.count_nil]
      omega
    | url letters =>
      simp only [Piece.image, Piece.urlLetters, Piece.bearerLetters, Piece.source, List.count_nil]
      omega
    | bearer letters =>
      simp only [Piece.image, Piece.urlLetters, Piece.bearerLetters, Piece.source, List.count_nil]
      omega

end Cutting

section Reaching

/-- Pieces after others are where they have to be. -/
theorem Placed.of_append {px ps : List Piece} (h : Placed (px ++ ps)) : Placed ps := by
  induction px with
  | nil => exact h
  | cons p px ih =>
    cases p with
    | kept a => exact ih h
    | url c => exact ih h.2
    | bearer letters => exact ih h.2.2

/-- What stands for letters that are taken away: it ends with no letter of a word, has no sign of
equality, and is inserted. -/
structure Mask (l : List Letter) : Prop where
  ends : ∃ r e, l = r ++ [e] ∧ isWord e.char = false
  inserted : ∀ b ∈ l, b.char ≠ '=' ∧ b.2 = none

/-- What stands for credentials is a mask. -/
theorem mask_redactedUrl : Mask redactedUrl :=
  ⟨⟨redactedUrl.dropLast, inserted '@', by decide, by decide⟩, by decide⟩

/-- What stands for a bearer token is a mask. -/
theorem mask_redactedBearer : Mask redactedBearer :=
  ⟨⟨redactedBearer.dropLast, inserted ']', by decide, by decide⟩, by decide⟩

/-- What stands for a piece that is taken away is a mask. -/
theorem kept_or_mask (p : Piece) : (∃ c, p = .kept c) ∨ Mask p.image := by
  cases p with
  | kept c => exact Or.inl ⟨c, rfl⟩
  | url letters => exact Or.inr mask_redactedUrl
  | bearer letters => exact Or.inr mask_redactedBearer

/-- After a mask a word may begin. -/
theorem Mask.any_isWord {l : List Letter} (h : Mask l) (prev : Option Char) :
    (lastCode Letter.char prev l).any isWord = false := by
  obtain ⟨r, e, rfl, he⟩ := h.ends
  rw [lastCode_append]
  exact he

/-- **The end of a word stays one**: before a letter of a word that is kept, the text and what
stands for it end a word alike. -/
theorem any_isWord_pieces {px py : List Piece} {b : Letter}
    (h : Placed (px ++ .kept b :: py)) (hb : isWord b.char = true) :
    (lastCode Letter.char none (px.flatMap Piece.image)).any isWord =
      (lastCode Letter.char none (px.flatMap Piece.source)).any isWord := by
  rcases List.eq_nil_or_concat' px with rfl | ⟨px, p, rfl⟩
  · rfl
  · rw [List.append_assoc] at h
    have hp := h.of_append
    rw [List.flatMap_append, List.flatMap_append, lastCode_append, lastCode_append,
      List.flatMap_singleton, List.flatMap_singleton]
    cases p with
    | kept c => rfl
    | url letters =>
      obtain ⟨⟨r, a, rfl, ha⟩, -⟩ := hp.1
      have hsource : (lastCode Letter.char (lastCode Letter.char none (px.flatMap Piece.source))
          (r ++ [a])).any isWord = false := by
        rw [lastCode_append, lastCode_cons, lastCode_nil, ha]
        decide
      exact (mask_redactedUrl.any_isWord _).trans hsource.symm
    | bearer letters =>
      obtain ⟨⟨x, hx, -⟩, hend, -⟩ := hp
      have hsource := hend b rfl hb
      rw [lastCode_eq (List.ne_nil_of_mem hx) none
        (lastCode Letter.char none (px.flatMap Piece.source))] at hsource
      exact (mask_redactedBearer.any_isWord _).trans hsource.symm

/-- A key in what stands for pieces is kept. -/
theorem exists_split_key {ps : List Piece} {prev : Option Char} {x k y : List Letter} {s : Letter}
    (hkey : KeyAt prev (k ++ [s])) (h : ps.flatMap Piece.image = x ++ (k ++ s :: y)) : ∃ px py,
      ps = px ++ ((k ++ [s]).map .kept ++ py) ∧ px.flatMap Piece.image = x ∧
        py.flatMap Piece.image = y := by
  obtain ⟨-, k', s', hks, hs, name, hname, hk⟩ := hkey
  obtain ⟨rfl, hs'⟩ := List.append_inj' hks rfl
  obtain rfl := List.singleton_inj.mp hs'
  obtain ⟨-, hword⟩ := isWord_of_key hname hk
  refine exists_split (fun _ => rfl) (fun p _ => (kept_or_mask p).imp_right fun hmask => ?_) h
  obtain ⟨l, e, hl, he⟩ := hmask.ends
  refine ⟨l, e, hl, fun hmem => (hmask.inserted s hmem).1 hs, fun hmem => ?_⟩
  rw [hword e hmem] at he
  cases he

/-- A letter is kept after a key, with nothing between that a value cannot have. -/
def ValueIn (ps : List Piece) (a : Letter) : Prop :=
  ∃ px key pv py, ps = px ++ (key.map .kept ++ (pv ++ .kept a :: py)) ∧
    KeyAt (lastCode Letter.char none (px.flatMap Piece.image)) key ∧
    ∀ b ∈ pv.flatMap Piece.image ++ [a], isValue b.char = true

/-- The third pattern finds the values in what stands for the pieces. -/
theorem mem_valuesFrom_iff (ps : List Piece) {a : Letter} (ha : a.2 ≠ none) :
    a ∈ valuesFrom none (ps.flatMap Piece.image) ↔ ValueIn ps a := by
  constructor
  · intro hvalue
    obtain ⟨x, key, v, y, htext, hkey, hv⟩ := (pairScan none _).of_mem_values hvalue
    obtain ⟨k, s, rfl, -⟩ := hkey.spelled
    have hkept : ps.flatMap Piece.image = x ++ (k ++ s :: (v ++ a :: y)) := by
      rw [htext]
      simp
    obtain ⟨px, pz, rfl, rfl, hpz⟩ := exists_split_key hkey hkept
    have houtside : ∀ p ∈ pz, (∃ c, p = .kept c) ∨
        ∃ l e, p.image = l ++ [e] ∧ a ∉ p.image ∧ e ∉ [] := fun p _ =>
      (kept_or_mask p).imp_right fun hmask => by
        obtain ⟨l, e, hl, -⟩ := hmask.ends
        exact ⟨l, e, hl, fun hmem => ha (hmask.inserted a hmem).2, List.not_mem_nil⟩
    obtain ⟨pv, py, rfl, rfl, -⟩ := exists_split (fun _ => rfl) houtside hpz
    exact ⟨px, k ++ [s], pv, py, rfl, hkey, hv⟩
  · rintro ⟨px, key, pv, py, rfl, hkey, hv⟩
    have htext : (px ++ (key.map Piece.kept ++ (pv ++ Piece.kept a :: py))).flatMap Piece.image =
        px.flatMap Piece.image ++ key ++ pv.flatMap Piece.image ++ a ::
          py.flatMap Piece.image := by
      rw [List.flatMap_append, @flatMap_kept_append Piece.image fun _ => rfl,
        List.flatMap_append, List.flatMap_cons]
      simp [Piece.image]
    exact (pairScan none _).mem_values htext hkey hv

/-- A letter of a value is no white space and no `&`. -/
theorem isValue_iff (c : Char) : isValue c = true ↔ isSpace c = false ∧ c ≠ '&' := by
  unfold isValue
  simp

/-- A letter comes after a key that the first two patterns leave, with no white space between, and
with no `&` but in credentials. -/
def Reached (text : List CodeUnit) (a : Letter) : Prop :=
  ∃ before key between after, positioned text = before ++ key ++ between ++ a :: after ∧
    KeyAt (lastCode Letter.char none before) key ∧
    (∀ b ∈ key, b ∉ credentials text ∧ b ∉ bearers text) ∧
    ∀ b ∈ between ++ [a], isSpace b.char = false ∧ (b.char = '&' → b ∈ credentials text)

namespace Cut

variable {text : List CodeUnit} {ps : List Piece} {a : Letter}

/-- What is taken away comes from the text. -/
theorem mem_positioned (h : Cut text ps) (ha : a ∈ credentials text ∨ a ∈ bearers text) :
    a ∈ positioned text := by
  rw [← h.urlLetters, ← h.bearerLetters] at ha
  rw [← h.source]
  rcases ha with ha | ha
  · obtain ⟨p, hp, ha⟩ := List.mem_flatMap.mp ha
    cases p with
    | url letters => exact List.mem_flatMap.mpr ⟨_, hp, ha⟩
    | kept c => cases ha
    | bearer letters => cases ha
  · obtain ⟨p, hp, ha⟩ := List.mem_flatMap.mp ha
    cases p with
    | bearer letters => exact List.mem_flatMap.mpr ⟨_, hp, ha⟩
    | kept c => cases ha
    | url letters => cases ha

/-- A letter that is not taken away stays. -/
theorem mem_image (h : Cut text ps) (hmem : a ∈ positioned text)
    (ha : a ∉ credentials text ∧ a ∉ bearers text) : a ∈ ps.flatMap Piece.image := by
  rw [← h.urlLetters, ← h.bearerLetters] at ha
  rw [← h.source] at hmem
  obtain ⟨p, hp, hmem⟩ := List.mem_flatMap.mp hmem
  cases p with
  | kept c => exact List.mem_flatMap.mpr ⟨_, hp, hmem⟩
  | url letters => exact (ha.1 (List.mem_flatMap.mpr ⟨_, hp, hmem⟩)).elim
  | bearer letters => exact (ha.2 (List.mem_flatMap.mpr ⟨_, hp, hmem⟩)).elim

/-- A letter of the text is kept once or taken away once. -/
theorem count_le (h : Cut text ps) (ha : a.2 ≠ none) : (ps.flatMap Piece.image).count a +
    (credentials text).count a + (bearers text).count a ≤ 1 := by
  have hcount := count_pieces ha ps
  rw [h.source, h.urlLetters, h.bearerLetters] at hcount
  exact hcount.trans (List.nodup_iff_count_le_one.mp (nodup_positioned text) a)

/-- A letter of credentials or of a bearer token is taken away. -/
theorem notMem_image (h : Cut text ps) (ha : a ∈ credentials text ∨ a ∈ bearers text) :
    a ∉ ps.flatMap Piece.image := by
  intro himage
  have hcount := h.count_le (ne_none_of_mem_positioned (h.mem_positioned ha))
  have hpos := List.count_pos_iff.mpr himage
  rcases ha with ha | ha
  · have := List.count_pos_iff.mpr ha
    omega
  · have := List.count_pos_iff.mpr ha
    omega

/-- A letter that is kept is in no credentials and in no bearer token. -/
theorem notMem_of_kept (h : Cut text ps) (ha : .kept a ∈ ps) :
    a ∉ credentials text ∧ a ∉ bearers text := by
  have himage : a ∈ ps.flatMap Piece.image :=
    List.mem_flatMap.mpr ⟨_, ha, List.mem_singleton_self a⟩
  exact ⟨fun hmem => h.notMem_image (Or.inl hmem) himage,
    fun hmem => h.notMem_image (Or.inr hmem) himage⟩

/-- Letters that are not taken away are outside of the pieces that are. -/
theorem outside (h : Cut text ps) {w : List Letter} {z : Letter}
    (hw : ∀ b ∈ w ++ [z], b ∉ credentials text ∧ b ∉ bearers text) :
    ∀ p ∈ ps, (∃ c, p = .kept c) ∨ ∃ l e, p.source = l ++ [e] ∧ z ∉ p.source ∧ e ∉ w := by
  intro p hp
  obtain ⟨px, py, rfl⟩ := List.append_of_mem hp
  have hplaced := h.placed.of_append
  have hsource : (∃ c, p = .kept c) ∨ p.source ≠ [] ∧
      ∀ b ∈ p.source, b ∈ credentials text ∨ b ∈ bearers text := by
    rw [← h.urlLetters, ← h.bearerLetters]
    cases p with
    | kept c => exact Or.inl ⟨c, rfl⟩
    | url letters =>
      obtain ⟨⟨r, e, rfl, -⟩, -⟩ := hplaced.1
      exact Or.inr ⟨by simp [Piece.source], fun b hb =>
        Or.inl (List.mem_flatMap.mpr ⟨_, hp, hb⟩)⟩
    | bearer letters =>
      obtain ⟨⟨x, hx, -⟩, -⟩ := hplaced
      exact Or.inr ⟨List.ne_nil_of_mem hx, fun b hb =>
        Or.inr (List.mem_flatMap.mpr ⟨_, hp, hb⟩)⟩
  refine hsource.imp_right fun htaken => ?_
  obtain ⟨hne, hall⟩ := htaken
  have hnot : ∀ b ∈ w ++ [z], b ∉ p.source := fun b hb hmem =>
    (hall b hmem).elim (hw b hb).1 (hw b hb).2
  obtain ⟨l, e, hl⟩ := (List.eq_nil_or_concat' p.source).resolve_left hne
  refine ⟨l, e, hl, hnot z (by simp), fun hmem => hnot e (List.mem_append_left _ hmem) ?_⟩
  rw [hl]
  simp

/-- Before a key that is kept, what stands for the text ends a word when the text does. -/
theorem keyAt_iff (h : Cut text ps) {px py : List Piece} {k : List Letter} {s : Letter}
    (hps : ps = px ++ ((k ++ [s]).map .kept ++ py)) :
    KeyAt (lastCode Letter.char none (px.flatMap Piece.image)) (k ++ [s]) ↔
      KeyAt (lastCode Letter.char none (px.flatMap Piece.source)) (k ++ [s]) := by
  have hboundary : (∃ prev, KeyAt prev (k ++ [s])) →
      (lastCode Letter.char none (px.flatMap Piece.image)).any isWord =
        (lastCode Letter.char none (px.flatMap Piece.source)).any isWord := by
    rintro ⟨prev, -, k', s', hks, -, name, hname, hk⟩
    obtain ⟨rfl, -⟩ := List.append_inj' hks rfl
    obtain ⟨hne, hword⟩ := isWord_of_key hname hk
    obtain ⟨b, k, rfl⟩ := List.exists_cons_of_ne_nil hne
    exact any_isWord_pieces (hps ▸ h.placed) (hword b List.mem_cons_self)
  constructor
  · exact fun hkey => ⟨(hboundary ⟨_, hkey⟩).symm.trans hkey.boundary, hkey.spelled⟩
  · exact fun hkey => ⟨(hboundary ⟨_, hkey⟩).trans hkey.boundary, hkey.spelled⟩

/-- What stands for a piece may stand in a value when the piece has no white space, and no `&` but
in credentials. -/
theorem isValue_piece (h : Cut text ps) {p : Piece} (hp : p ∈ ps) :
    (∀ b ∈ p.image, isValue b.char = true) ↔
      ∀ b ∈ p.source, isSpace b.char = false ∧ (b.char = '&' → b ∈ credentials text) := by
  obtain ⟨px, py, hps⟩ := List.append_of_mem hp
  have hplaced := (hps ▸ h.placed).of_append
  cases p with
  | kept c =>
    refine forall₂_congr fun b hb => ?_
    rw [isValue_iff, List.mem_singleton.mp hb]
    exact and_congr_right fun _ =>
      ⟨fun hne hand => absurd hand hne, fun hand hne => (h.notMem_of_kept hp).1 (hand hne)⟩
  | url letters =>
    have hmask : ∀ b ∈ redactedUrl, isValue b.char = true := by decide
    refine iff_of_true hmask fun b hb => ⟨hplaced.1.no_space b hb, fun _ => ?_⟩
    rw [← h.urlLetters]
    exact List.mem_flatMap.mpr ⟨_, hp, hb⟩
  | bearer letters =>
    have hmem : inserted ' ' ∈ redactedBearer := by decide
    have hmask : isValue (inserted ' ').char ≠ true := by decide
    obtain ⟨⟨x, hx, hspace⟩, -⟩ := hplaced
    refine iff_of_false (fun hall => hmask (hall _ hmem)) fun hall => ?_
    rw [(hall x hx).1] at hspace
    cases hspace

/-- What stands for the pieces up to a letter that is kept may stand in a value when they have no
white space, and no `&` but in credentials. -/
theorem isValue_pieces (h : Cut text ps) {pv : List Piece}
    (hpv : ∀ p ∈ pv ++ [Piece.kept a], p ∈ ps) :
    (∀ b ∈ pv.flatMap Piece.image ++ [a], isValue b.char = true) ↔
      ∀ b ∈ pv.flatMap Piece.source ++ [a],
        isSpace b.char = false ∧ (b.char = '&' → b ∈ credentials text) := by
  have htext : ∀ f : Piece → List Letter, (∀ b, f (.kept b) = [b]) →
      pv.flatMap f ++ [a] = (pv ++ [Piece.kept a]).flatMap f := by
    intro f hf
    rw [List.flatMap_append, List.flatMap_singleton, hf]
  rw [htext _ fun _ => rfl, htext _ fun _ => rfl, List.forall_mem_flatMap, List.forall_mem_flatMap]
  exact forall₂_congr fun p hp => h.isValue_piece (hpv p hp)

/-- **A value that is not taken away is found when its key is left**, and only then. -/
theorem reached_iff (h : Cut text ps) (ha : a ∉ credentials text ∧ a ∉ bearers text) :
    Reached text a ↔ ValueIn ps a := by
  constructor
  · rintro ⟨before, key, between, after, htext, hkey, hleft, hbetween⟩
    obtain ⟨k, s, rfl, -⟩ := hkey.spelled
    have hsource : ps.flatMap Piece.source = before ++ (k ++ s :: (between ++ a :: after)) := by
      rw [h.source, htext]
      simp
    obtain ⟨px, pz, hps, rfl, hpz⟩ := exists_split (fun _ => rfl) (h.outside hleft) hsource
    have houtside : ∀ b ∈ [] ++ [a], b ∉ credentials text ∧ b ∉ bearers text := by
      intro b hb
      rw [List.mem_singleton.mp hb]
      exact ha
    obtain ⟨pv, py, rfl, rfl, -⟩ := exists_split (w := []) (fun _ => rfl)
      (fun p hp => h.outside houtside p (by rw [hps]; simp [hp])) hpz
    have hps : ps = px ++ ((k ++ [s]).map .kept ++ (pv ++ .kept a :: py)) := hps
    refine ⟨px, k ++ [s], pv, py, hps, (h.keyAt_iff hps).mpr hkey,
      (h.isValue_pieces fun p hp => ?_).mpr hbetween⟩
    rw [hps, List.append_cons pv]
    exact List.mem_append_right _ (List.mem_append_right _ (List.mem_append_left _ hp))
  · rintro ⟨px, key, pv, py, hps, hkey, hvalue⟩
    obtain ⟨k, s, rfl, -⟩ := hkey.spelled
    refine ⟨px.flatMap Piece.source, k ++ [s], pv.flatMap Piece.source, py.flatMap Piece.source,
      ?_, (h.keyAt_iff hps).mp hkey, fun b hb => h.notMem_of_kept ?_,
      (h.isValue_pieces fun p hp => ?_).mp hvalue⟩
    · rw [← h.source, hps, List.flatMap_append, flatMap_kept_append fun _ => rfl,
        List.flatMap_append, List.flatMap_cons]
      simp [Piece.source]
    · rw [hps]
      exact List.mem_append_right _ (List.mem_append_left _ (List.mem_map_of_mem hb))
    · rw [hps, List.append_cons pv]
      exact List.mem_append_right _ (List.mem_append_right _ (List.mem_append_left _ hp))

end Cut

end Reaching

section Surviving

variable {text : List CodeUnit} {ps : List Piece} {a : Letter}

/-- The secrets of a pattern, by what is taken from the segments of the text. -/
theorem secrets_eq (p : SecretPattern) (text : List CodeUnit) : secrets p text =
    (segments Letter.char p.pattern 0 none (positioned text)).flatMap
      (Segment.taken (marked .secret)) :=
  flatMap_matchAll (marked Part.secret) (positioned text)

/-- The user and the password of an address are taken away. -/
theorem mem_credentials (ha : a ∈ secrets urlSecrets text) : a ∈ credentials text := by
  obtain ⟨letters, hletters, ha⟩ := List.mem_flatMap.mp ha
  refine List.mem_flatMap.mpr ⟨letters, hletters, ?_⟩
  obtain ⟨x, hx, rfl⟩ := List.mem_map.mp ha
  obtain ⟨hmem, hlabel⟩ := List.mem_filter.mp hx
  have hsecret : x.2 = some .secret := by simpa using hlabel
  exact List.mem_map_of_mem (List.mem_filter.mpr ⟨hmem, by simp [hsecret]⟩)

/-- A bearer token is taken away. -/
theorem mem_bearers (ha : a ∈ secrets bearerSecrets text) : a ∈ bearers text := by
  obtain ⟨letters, hletters, ha⟩ := List.mem_flatMap.mp ha
  obtain ⟨x, hx, rfl⟩ := List.mem_map.mp ha
  exact List.mem_flatMap.mpr ⟨letters, hletters, List.mem_map_of_mem (List.mem_filter.mp hx).1⟩

/-- What is scrubbed is left of what stands for the pieces. -/
theorem Cut.pairScan (h : Cut text ps) : PairScan none (ps.flatMap Piece.image)
    (valuesFrom none (ps.flatMap Piece.image)) (scrubPositioned text) := by
  rw [← h.image]
  exact Logging.pairScan none _

/-- A letter that is taken away does not survive. -/
theorem Cut.notMem_of_taken (h : Cut text ps) (ha : a ∈ credentials text ∨ a ∈ bearers text) :
    a ∉ scrubPositioned text := by
  intro hleft
  have hcount := h.pairScan.count_add_le (ne_none_of_mem_positioned (h.mem_positioned ha))
  have hpos := List.count_pos_iff.mpr hleft
  exact h.notMem_image ha (List.count_pos_iff.mp (by omega))

/-- A letter that the third pattern finds at the end does not survive. -/
theorem Cut.notMem_of_value (h : Cut text ps) (ha : a.2 ≠ none)
    (hvalue : a ∈ valuesFrom none (ps.flatMap Piece.image)) : a ∉ scrubPositioned text := by
  intro hleft
  have hcount := h.pairScan.count_add_le ha
  have hsingle := h.count_le ha
  have hpos := List.count_pos_iff.mpr hleft
  have hpos' := List.count_pos_iff.mpr hvalue
  omega

/-- Before the sign of a key that is left, a letter of the key is one of the value when the sign is
one. -/
theorem Cut.exists_value_before (h : Cut text ps) {x k y : List Letter}
    (himage : ps.flatMap Piece.image = x ++ k ++ a :: y)
    (hkey : KeyAt (lastCode Letter.char none x) (k ++ [a]))
    (ha : a ∈ valuesFrom none (positioned text)) :
    ∃ b ∈ k, b ∈ valuesFrom none (positioned text) := by
  rw [List.append_assoc] at himage
  obtain ⟨px, py, hps, rfl, rfl⟩ := exists_split_key hkey himage
  obtain ⟨-, k', s, hks, -, name, hname, hk⟩ := hkey
  obtain ⟨rfl, -⟩ := List.append_inj' hks rfl
  obtain ⟨hne, hword⟩ := isWord_of_key hname hk
  obtain ⟨k, b, rfl⟩ := (List.eq_nil_or_concat' k).resolve_left hne
  have hb : isWord b.char = true := hword b (by simp)
  have htext : positioned text =
      px.flatMap Piece.source ++ k ++ [b] ++ a :: py.flatMap Piece.source := by
    rw [← h.source, hps, List.flatMap_append, flatMap_kept_append fun _ => rfl]
    simp
  obtain ⟨x', key', v', y', htext', hkey', hv'⟩ := (Logging.pairScan none _).of_mem_values ha
  have hnodup := nodup_positioned text
  rw [htext', List.nodup_middle, List.nodup_cons, List.mem_append, not_or] at hnodup
  rw [htext'] at htext
  obtain ⟨hbefore, -, -⟩ :=
    (List.append_cons_inj_of_notMem hnodup.1.1 hnodup.1.2).mp htext
  refine ⟨b, by simp, ?_⟩
  rcases List.eq_nil_or_concat' v' with rfl | ⟨v', b', rfl⟩
  · -- the letter before is the sign after a key, and not one of a word
    obtain ⟨k', s, rfl, hs, -⟩ := hkey'.spelled
    rw [List.append_nil, ← List.append_assoc] at hbefore
    obtain ⟨-, hlast⟩ := List.append_inj' hbefore rfl
    obtain rfl := List.singleton_inj.mp hlast
    rw [hs] at hb
    exact absurd hb (by decide)
  · rw [← List.append_assoc] at hbefore
    obtain ⟨-, hlast⟩ := List.append_inj' hbefore rfl
    obtain rfl := List.singleton_inj.mp hlast
    have hvalue : positioned text = x' ++ key' ++ v' ++ b' :: a :: y' := by
      rw [htext']
      simp
    exact (Logging.pairScan none _).mem_values hvalue hkey' fun c hc =>
      hv' c (List.mem_append_left _ hc)

/-- **Each letter of a value is reached**, or it is one of credentials or of a bearer token. -/
def ValuesReached (text : List CodeUnit) : Prop :=
  ∀ a ∈ secrets pairSecrets text, a ∈ credentials text ∨ a ∈ bearers text ∨ Reached text a

/-- **No secret survives exactly when each letter of a value is reached.** -/
theorem noSecretSurvives_iff (text : List CodeUnit) :
    NoSecretSurvives text ↔ ValuesReached text := by
  obtain ⟨ps, hcut⟩ := exists_cut text
  have hvalues : secrets pairSecrets text = valuesFrom none (positioned text) :=
    secrets_eq pairSecrets text
  constructor
  · intro hscrubbed a hvalue
    by_contra! hcovered
    obtain ⟨hurl, hbearer, hreached⟩ := hcovered
    have hnot : ∀ b ∈ valuesFrom none (positioned text), b ∉ scrubPositioned text := by
      rw [← hvalues]
      exact hscrubbed pairSecrets (by simp [secretPatterns])
    rw [hvalues] at hvalue
    have hmem := (pairScan none _).mem_text hvalue
    have hposition := ne_none_of_mem_positioned hmem
    have himage := hcut.mem_image hmem ⟨hurl, hbearer⟩
    rcases hcut.pairScan.cases_of_mem himage with hleft | hfound | ⟨x, k, y, htext, hkey, hk⟩
    · exact hnot a hvalue hleft
    · exact hreached ((hcut.reached_iff ⟨hurl, hbearer⟩).mpr
        ((mem_valuesFrom_iff ps hposition).mp hfound))
    · obtain ⟨b, hb, hvalue'⟩ := hcut.exists_value_before htext hkey hvalue
      exact hnot b hvalue' (hk b hb)
  · intro hreached p hp a ha
    have hpatterns : p = urlSecrets ∨ p = bearerSecrets ∨ p = pairSecrets := by
      simpa [secretPatterns] using hp
    rcases hpatterns with rfl | rfl | rfl
    · exact hcut.notMem_of_taken (Or.inl (mem_credentials ha))
    · exact hcut.notMem_of_taken (Or.inr (mem_bearers ha))
    · by_cases htaken : a ∈ credentials text ∨ a ∈ bearers text
      · exact hcut.notMem_of_taken htaken
      · obtain ⟨hurl, hbearer⟩ := not_or.mp htaken
        have hposition := ne_none_of_mem_positioned ((pairScan none _).mem_text (hvalues ▸ ha))
        refine hcut.notMem_of_value hposition ((mem_valuesFrom_iff ps hposition).mpr
          ((hcut.reached_iff ⟨hurl, hbearer⟩).mp ?_))
        exact ((hreached a ha).resolve_left hurl).resolve_left hbearer

/-- A text in which the token of a bearer is a key. -/
def keyAsToken : List CodeUnit := "Bearer password=xyz".toList.map unitOf

/-- The value survives when its key is taken for a token. -/
theorem not_noSecretSurvives : ¬ ∀ text, NoSecretSurvives text := by
  intro h
  have hmem : pairSecrets ∈ secretPatterns :=
    List.mem_cons_of_mem _ (List.mem_cons_of_mem _ (List.mem_singleton_self _))
  have hfound : (unitOf 'x', some 16) ∈ secrets pairSecrets keyAsToken := by decide +kernel
  have hleft : (unitOf 'x', some 16) ∈ scrubPositioned keyAsToken := by decide +kernel
  exact h keyAsToken pairSecrets hmem _ hfound hleft

end Surviving

end Odiseo.Logging
