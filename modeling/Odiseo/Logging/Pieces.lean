import Odiseo.Logging.SecretMatches

/-!
# What the first two patterns leave

A text is cut into letters that are kept, credentials of addresses and matches of bearer tokens, so
that the text after the first two replacements is made of the same pieces.
-/

namespace Odiseo.Logging

open Text Text.Regex

/-- A piece of a text: a letter that is kept, or letters that one of the first two patterns takes
away. -/
inductive Piece
  | kept (a : Letter)
  | url (letters : List Letter)
  | bearer (letters : List Letter)

/-- What stands for credentials. -/
def redactedUrl : List Letter := "[REDACTED]:[REDACTED]@".toList.map inserted

/-- What stands for a bearer token. -/
def redactedBearer : List Letter := "Bearer [REDACTED]".toList.map inserted

namespace Piece

/-- The letters of a piece. -/
def source : Piece → List Letter
  | kept a => [a]
  | url letters => letters
  | bearer letters => letters

/-- What stands for a piece after the replacements. -/
def image : Piece → List Letter
  | kept a => [a]
  | url _ => redactedUrl
  | bearer _ => redactedBearer

/-- The letters that the pattern of addresses takes away. -/
def urlLetters : Piece → List Letter
  | url letters => letters
  | _ => []

/-- The letters that the pattern of bearer tokens takes away. -/
def bearerLetters : Piece → List Letter
  | bearer letters => letters
  | _ => []

end Piece

/-- Credentials stand after the three signs of an address. -/
inductive Guarded : List Piece → Prop
  | nil : Guarded []
  | kept (a : Letter) {ps : List Piece} (h : Guarded ps) : Guarded (.kept a :: ps)
  | url {d s s' : Letter} {c : List Letter} {ps : List Piece} (hd : d.char = ':')
      (hs : s.char = '/') (hs' : s'.char = '/') (hc : Credentials c) (h : Guarded ps) :
      Guarded (.kept d :: .kept s :: .kept s' :: .url c :: ps)

/-- The pieces are where they have to be: the credentials have no white space and end with their
sign, a bearer token has white space, and where a letter of a word is kept after it, it does not end
with one. -/
def Placed : List Piece → Prop
  | [] => True
  | .kept _ :: ps => Placed ps
  | .url c :: ps => Credentials c ∧ Placed ps
  | .bearer letters :: ps => (∃ a ∈ letters, isSpace a.char = true) ∧
      (∀ b, ps.head? = some (.kept b) → isWord b.char = true →
        (lastCode Letter.char none letters).any isWord = false) ∧ Placed ps

section Addresses

/-- Letters that are kept guard what follows them. -/
theorem guarded_map_kept {ps : List Piece} (h : Guarded ps) (w : List Letter) :
    Guarded (w.map .kept ++ ps) := by
  induction w with
  | nil => exact h
  | cons a w ih => exact .kept a ih

/-- Kept letters are what they stand for. -/
theorem flatMap_kept_append {f : Piece → List Letter} (hf : ∀ a, f (.kept a) = [a])
    (w : List Letter) (ps : List Piece) :
    (w.map Piece.kept ++ ps).flatMap f = w ++ ps.flatMap f := by
  rw [List.flatMap_append, List.flatMap_map]
  simp [hf]

/-- Of kept letters nothing is taken away. -/
theorem flatMap_kept_append_nil {f : Piece → List Letter} (hf : ∀ a, f (.kept a) = [])
    (w : List Letter) (ps : List Piece) :
    (w.map Piece.kept ++ ps).flatMap f = ps.flatMap f := by
  rw [List.flatMap_append, List.flatMap_map]
  simp [hf]

/-- **What the pattern of addresses leaves.** -/
theorem exists_pieces_url (prev : Option Char) (l : List Letter) : ∃ ps, Guarded ps ∧
    ps.flatMap Piece.source = l ∧
    ps.flatMap Piece.image = (segments Letter.char urlPattern 0 prev l).flatMap
      (Segment.replaced inserted urlSecrets.replacement) ∧
    ps.flatMap Piece.urlLetters =
      (segments Letter.char urlPattern 0 prev l).flatMap (Segment.taken removed) := by
  induction hlength : l.length using Nat.strongRecOn generalizing l prev with
  | ind n ih =>
    cases l with
    | nil => exact ⟨[], .nil, rfl, rfl, rfl⟩
    | cons a l =>
      rcases @segments_cases _ _ Letter.char urlPattern prev a l with
        ⟨m, hexec, hne, hstep⟩ | ⟨-, hstep⟩
      · have hm := mem_run_of_exec hexec
        have hsplit := of_mem_run hm
        obtain ⟨w, d, s, s', hmarked, hd, hs, hs', hcredentials, hparts⟩ := of_mem_run_url hm
        have hshort : m.rest.length < n := by
          have hpos : 0 < (m.letters.map Prod.fst).length := by
            rw [List.length_map]
            exact List.length_pos_of_ne_nil hne
          rw [← hlength, ← hsplit, List.length_append]
          omega
        obtain ⟨ps, hguarded, hsource, himage, hurl⟩ := ih _ hshort
          (lastCode Letter.char prev (m.letters.map Prod.fst)) m.rest rfl
        refine ⟨w.map .kept ++ .kept d :: .kept s :: .kept s' :: .url (removed m.letters) :: ps,
          guarded_map_kept (.url hd hs hs' hcredentials hguarded) w, ?_, ?_, ?_⟩
        · rw [← hsplit, hparts, hmarked, flatMap_kept_append fun _ => rfl]
          simp [Piece.source, hsource]
        · have hreplaced : Segment.replaced inserted urlSecrets.replacement
              (.matched m.letters) = w ++ [d, s, s'] ++ redactedUrl := by
            rw [← hmarked]
            exact expand_part_text inserted .group1 _ m.letters
          have hsegments : (segments Letter.char urlPattern 0 prev (a :: l)).flatMap
              (Segment.replaced inserted urlSecrets.replacement) =
                w ++ [d, s, s'] ++ redactedUrl ++ ps.flatMap Piece.image := by
            rw [hstep, List.flatMap_cons, hreplaced, himage]
          rw [hsegments, flatMap_kept_append fun _ => rfl]
          simp [Piece.image]
        · have hsegments : (segments Letter.char urlPattern 0 prev (a :: l)).flatMap
              (Segment.taken removed) = removed m.letters ++ ps.flatMap Piece.urlLetters := by
            rw [hstep, List.flatMap_cons, hurl]
            rfl
          rw [hsegments, flatMap_kept_append_nil fun _ => rfl]
          simp [Piece.urlLetters]
      · obtain ⟨ps, hguarded, hsource, himage, hurl⟩ := ih l.length (by rw [← hlength]; simp)
          (some a.char) l rfl
        refine ⟨.kept a :: ps, .kept a hguarded, ?_, ?_, ?_⟩
        · rw [List.flatMap_cons, hsource]
          rfl
        · rw [List.flatMap_cons, himage, hstep, List.flatMap_cons]
          rfl
        · rw [List.flatMap_cons, hurl, hstep, List.flatMap_cons]
          rfl

end Addresses

section Tokens

/-- Letters without white space, before a character that no token has, are no bearer token. -/
theorem exec_bearer_eq_none {g : List Letter} (hg : ∀ b ∈ g, isSpace b.char = false) {d : Letter}
    (hd : bearerPattern.Avoids d.char) (prev : Option Char) (z : List Letter) :
    bearerPattern.exec Letter.char prev (g ++ d :: z) = none := by
  rw [exec_append hd, Option.map_eq_none_iff]
  by_contra hsome
  obtain ⟨m, hm⟩ := Option.ne_none_iff_exists'.mp hsome
  obtain ⟨x, hx, hspace⟩ := exists_space_of_exec_bearer hm
  have hmem : x.1 ∈ g := by
    rw [← of_mem_run (mem_run_of_exec hm)]
    exact List.mem_append_left _ (List.mem_map_of_mem hx)
  rw [hg _ hmem] at hspace
  cases hspace

/-- No bearer token goes over a colon. -/
theorem bearer_avoids_colon {d : Letter} (hd : d.char = ':') : bearerPattern.Avoids d.char := by
  rw [hd]
  exact ⟨rfl, ⟨rfl, rfl, rfl, rfl, rfl, rfl, trivial⟩, ⟨rfl, rfl⟩, ⟨rfl, rfl⟩, rfl⟩

/-- No bearer token goes over the sign that ends credentials. -/
theorem bearer_avoids_at {d : Letter} (hd : d.char = '@') : bearerPattern.Avoids d.char := by
  rw [hd]
  exact ⟨rfl, ⟨rfl, rfl, rfl, rfl, rfl, rfl, trivial⟩, ⟨rfl, rfl⟩, ⟨rfl, rfl⟩, rfl⟩

/-- The scan for bearer tokens copies letters without white space up to the end of credentials. -/
theorem segments_bearer_block {g : List Letter} (hg : ∀ b ∈ g, isSpace b.char = false)
    {d : Letter} (hd : d.char = '@') (prev : Option Char) (z : List Letter) :
    segments Letter.char bearerPattern 0 prev (g ++ d :: z) =
      (g ++ [d]).map .copied ++ segments Letter.char bearerPattern 0 (some '@') z := by
  induction g generalizing prev with
  | nil =>
    have hnone := exec_bearer_eq_none hg (bearer_avoids_at hd) prev z
    rw [List.nil_append] at hnone ⊢
    rw [segments_of_exec_none hnone, hd]
    rfl
  | cons b g ih =>
    have hnone := exec_bearer_eq_none hg (bearer_avoids_at hd) prev z
    rw [List.cons_append] at hnone ⊢
    rw [segments_of_exec_none hnone, ih fun c hc => hg c (List.mem_cons_of_mem b hc)]
    rfl

/-- Before the first colon all letters are kept. -/
theorem Guarded.exists_run {ps : List Piece} (h : Guarded ps) : ∃ (w : List Letter) (z : _),
    ps = w.map .kept ++ z ∧ Guarded z ∧ (z = [] ∨ ∃ d z', z = .kept d :: z' ∧ d.char = ':') := by
  induction h with
  | nil => exact ⟨[], [], rfl, .nil, Or.inl rfl⟩
  | @kept a ps h ih =>
    by_cases ha : a.char = ':'
    · exact ⟨[], _, rfl, .kept a h, Or.inr ⟨a, _, rfl, ha⟩⟩
    · obtain ⟨w, z, rfl, hz, hend⟩ := ih
      exact ⟨a :: w, z, rfl, hz, hend⟩
  | url hd hs hs' hc h => exact ⟨[], _, rfl, .url hd hs hs' hc h, Or.inr ⟨_, _, rfl, hd⟩⟩

/-- Up to the first colon the match of a bearer token does not depend on what the pieces stand
for. -/
theorem exec_bearer_pieces {f : Piece → List Letter} (hf : ∀ a, f (.kept a) = [a])
    {w : List Letter} {z : List Piece} (hz : z = [] ∨ ∃ d z', z = .kept d :: z' ∧ d.char = ':')
    (prev : Option Char) :
    bearerPattern.exec Letter.char prev ((w.map Piece.kept ++ z).flatMap f) =
      (bearerPattern.exec Letter.char prev w).map fun m => ⟨m.letters, m.rest ++ z.flatMap f⟩ := by
  rw [flatMap_kept_append hf]
  rcases hz with rfl | ⟨d, z', rfl, hd⟩
  · rw [List.flatMap_nil, List.append_nil]
    simp only [List.append_nil]
    exact Option.map_id'.symm ▸ rfl
  · rw [List.flatMap_cons, hf]
    exact exec_append (bearer_avoids_colon hd) prev w _

/-- What stands for credentials looks like them. -/
theorem credentials_redactedUrl : Credentials redactedUrl where
  ends := ⟨redactedUrl.dropLast, inserted '@', by decide, by decide⟩
  no_space := by decide

/-- Copied letters stay as they are. -/
theorem flatMap_map_copied {f : Segment Letter Part → List Letter}
    (hf : ∀ a, f (.copied a) = [a]) (w : List Letter) :
    (w.map Segment.copied).flatMap f = w := by
  rw [List.flatMap_map]
  simp [hf]

/-- Of copied letters nothing is taken away. -/
theorem flatMap_map_copied_nil {f : Segment Letter Part → List Letter}
    (hf : ∀ a, f (.copied a) = []) (w : List Letter) :
    (w.map Segment.copied).flatMap f = [] := by
  rw [List.flatMap_map]
  simp [hf]

/-- The pattern of bearer tokens makes pieces of others: the text is the same, the credentials are
the same, and its matches stand in the new pieces. -/
structure TokensTaken (prev : Option Char) (ps ps' : List Piece) : Prop where
  source : ps'.flatMap Piece.source = ps.flatMap Piece.source
  urlLetters : ps'.flatMap Piece.urlLetters = ps.flatMap Piece.urlLetters
  image : ps'.flatMap Piece.image =
    (segments Letter.char bearerPattern 0 prev (ps.flatMap Piece.image)).flatMap
      (Segment.replaced inserted bearerSecrets.replacement)
  bearerLetters : ps'.flatMap Piece.bearerLetters =
    (segments Letter.char bearerPattern 0 prev (ps.flatMap Piece.source)).flatMap
      (Segment.taken (List.map Prod.fst))
  placed : Placed ps'

namespace TokensTaken

variable {prev : Option Char} {ps ps' : List Piece}

/-- Where no token begins, the letter is kept. -/
theorem kept {a : Letter} (hnone : ∀ f : Piece → List Letter, (∀ b, f (.kept b) = [b]) →
      bearerPattern.exec Letter.char prev (a :: ps.flatMap f) = none)
    (h : TokensTaken (some a.char) ps ps') : TokensTaken prev (.kept a :: ps) (.kept a :: ps') where
  source := by
    rw [List.flatMap_cons, List.flatMap_cons, h.source]
  urlLetters := by
    rw [List.flatMap_cons, List.flatMap_cons, h.urlLetters]
  image := by
    have hstep := segments_of_exec_none (hnone Piece.image fun _ => rfl)
    have htext : (Piece.kept a :: ps).flatMap Piece.image = a :: ps.flatMap Piece.image := rfl
    rw [htext, hstep, List.flatMap_cons, List.flatMap_cons, h.image]
    rfl
  bearerLetters := by
    have hstep := segments_of_exec_none (hnone Piece.source fun _ => rfl)
    have htext : (Piece.kept a :: ps).flatMap Piece.source = a :: ps.flatMap Piece.source := rfl
    rw [htext, hstep, List.flatMap_cons, List.flatMap_cons, h.bearerLetters]
    rfl
  placed := h.placed

/-- In an address nothing is taken. -/
theorem url {d s s' : Letter} {c : List Letter} (hd : d.char = ':') (hs : s.char = '/')
    (hs' : s'.char = '/') (hc : Credentials c) (h : TokensTaken (some '@') ps ps') :
    TokensTaken prev (.kept d :: .kept s :: .kept s' :: .url c :: ps)
      (.kept d :: .kept s :: .kept s' :: .url c :: ps') := by
  have hsigns : ∀ b ∈ [d, s, s'], isSpace b.char = false := by
    simp only [List.mem_cons, List.not_mem_nil, or_false]
    rintro b (rfl | rfl | rfl)
    · rw [hd]
      decide
    · rw [hs]
      decide
    · rw [hs']
      decide
  refine ⟨?_, ?_, ?_, ?_, hc, h.placed⟩
  · simp only [List.flatMap_cons, h.source]
  · simp only [List.flatMap_cons, h.urlLetters]
  · obtain ⟨⟨r, a, hr, ha⟩, hspace⟩ := credentials_redactedUrl
    have hbefore : ∀ b ∈ [d, s, s'] ++ r, isSpace b.char = false :=
      List.forall_mem_append.mpr ⟨hsigns, fun b hb => hspace b (hr ▸ List.mem_append_left _ hb)⟩
    have htext : (Piece.kept d :: .kept s :: .kept s' :: .url c :: ps).flatMap Piece.image =
        [d, s, s'] ++ r ++ a :: ps.flatMap Piece.image := by
      simp [Piece.image, hr]
    rw [htext, segments_bearer_block hbefore ha, List.flatMap_append,
      flatMap_map_copied fun _ => rfl, ← h.image]
    simp [Piece.image, hr]
  · obtain ⟨⟨r, a, rfl, ha⟩, hspace⟩ := hc
    have hbefore : ∀ b ∈ [d, s, s'] ++ r, isSpace b.char = false :=
      List.forall_mem_append.mpr ⟨hsigns, fun b hb => hspace b (List.mem_append_left _ hb)⟩
    have htext : (Piece.kept d :: .kept s :: .kept s' :: .url (r ++ [a]) :: ps).flatMap
        Piece.source = [d, s, s'] ++ r ++ a :: ps.flatMap Piece.source := by
      simp [Piece.source]
    rw [htext, segments_bearer_block hbefore ha, List.flatMap_append,
      flatMap_map_copied_nil fun _ => rfl, ← h.bearerLetters]
    simp [Piece.bearerLetters]

/-- A token is taken out of letters that are kept. -/
theorem matched {w : List Letter} {z : List Piece}
    (hz : z = [] ∨ ∃ d z', z = .kept d :: z' ∧ d.char = ':') {m : Match Letter Part}
    (hexec : bearerPattern.exec Letter.char prev w = some m)
    (h : TokensTaken (lastCode Letter.char prev (m.letters.map Prod.fst))
      (m.rest.map .kept ++ z) ps') :
    TokensTaken prev (w.map .kept ++ z) (.bearer (m.letters.map Prod.fst) :: ps') := by
  have hsplit := of_mem_run (mem_run_of_exec hexec)
  obtain ⟨x, hx, hspace⟩ := exists_space_of_exec_bearer hexec
  have hstep : ∀ f : Piece → List Letter, (∀ b, f (.kept b) = [b]) →
      segments Letter.char bearerPattern 0 prev ((w.map Piece.kept ++ z).flatMap f) =
        .matched m.letters :: segments Letter.char bearerPattern 0
          (lastCode Letter.char prev (m.letters.map Prod.fst))
            ((m.rest.map Piece.kept ++ z).flatMap f) := by
    intro f hf
    have hexec' := exec_bearer_pieces hf hz prev (w := w)
    rw [hexec] at hexec'
    rw [segments_of_exec hexec' (List.ne_nil_of_mem hx), flatMap_kept_append hf]
  refine ⟨?_, ?_, ?_, ?_, ⟨x.1, List.mem_map_of_mem hx, hspace⟩, fun b hb hword => ?_, h.placed⟩
  · rw [List.flatMap_cons, h.source, flatMap_kept_append fun _ => rfl,
      flatMap_kept_append fun _ => rfl, ← hsplit, List.append_assoc]
    rfl
  · rw [List.flatMap_cons, h.urlLetters, flatMap_kept_append_nil fun _ => rfl,
      flatMap_kept_append_nil fun _ => rfl]
    rfl
  · rw [hstep Piece.image fun _ => rfl, List.flatMap_cons, List.flatMap_cons, h.image]
    exact congrArg (· ++ _) (expand_text inserted _ m.letters).symm
  · rw [hstep Piece.source fun _ => rfl, List.flatMap_cons, List.flatMap_cons, h.bearerLetters]
    rfl
  · have hexec' := exec_bearer_pieces (f := Piece.source) (fun _ => rfl) hz prev (w := w)
    rw [hexec, Option.map_some] at hexec'
    have hhead : (m.rest ++ z.flatMap Piece.source).head? = some b := by
      have hsource := h.source
      rw [flatMap_kept_append fun _ => rfl] at hsource
      rw [← hsource]
      cases ps' with
      | nil => cases hb
      | cons p ps' =>
        cases hb
        rfl
    have hne : m.letters.map Prod.fst ≠ [] := List.ne_nil_of_mem (List.mem_map_of_mem hx)
    have hlast := last_of_exec_bearer hexec' hhead hword
    rw [lastCode_eq hne none prev]
    exact hlast

end TokensTaken

/-- **What the pattern of bearer tokens leaves.** -/
theorem exists_pieces_bearer {ps : List Piece} (h : Guarded ps) (prev : Option Char) :
    ∃ ps', TokensTaken prev ps ps' := by
  induction hlength : ps.length using Nat.strongRecOn generalizing ps prev with
  | ind n ih =>
    obtain ⟨w, z, rfl, hguarded, hz⟩ := h.exists_run
    cases hexec : bearerPattern.exec Letter.char prev w with
    | some m =>
      obtain ⟨x, hx, -⟩ := exists_space_of_exec_bearer hexec
      have hsplit := of_mem_run (mem_run_of_exec hexec)
      have hshort : (m.rest.map Piece.kept ++ z).length < n := by
        have hpos := List.length_pos_of_mem hx
        rw [← hlength, ← hsplit]
        simp
        omega
      obtain ⟨ps', hps'⟩ := ih _ hshort (guarded_map_kept hguarded m.rest)
        (lastCode Letter.char prev (m.letters.map Prod.fst)) rfl
      exact ⟨_, hps'.matched hz hexec⟩
    | none =>
      have hnone : ∀ f : Piece → List Letter, (∀ b, f (.kept b) = [b]) →
          bearerPattern.exec Letter.char prev ((w.map Piece.kept ++ z).flatMap f) = none := by
        intro f hf
        rw [exec_bearer_pieces hf hz, hexec]
        rfl
      generalize w.map Piece.kept ++ z = ps at h hlength hnone
      cases h with
      | nil => exact ⟨[], rfl, rfl, rfl, rfl, trivial⟩
      | @kept a ps h =>
        obtain ⟨ps', hps'⟩ := ih ps.length (by rw [← hlength]; simp) h (some a.char) rfl
        refine ⟨_, hps'.kept fun f hf => ?_⟩
        have hnone := hnone f hf
        rw [List.flatMap_cons, hf] at hnone
        exact hnone
      | @url d s s' c ps hd hs hs' hc h =>
        obtain ⟨ps', hps'⟩ := ih ps.length (by rw [← hlength]; simp; omega) h (some '@') rfl
        exact ⟨_, hps'.url hd hs hs' hc⟩

end Tokens

end Odiseo.Logging
