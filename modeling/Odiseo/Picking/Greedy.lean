import Mathlib.Data.List.ReduceOption
import Mathlib.Tactic.Push

/-!
# Greedy picking from a pool

Wishes are answered one after the other from a pool of elements, each of some kind. A wish for
a kind takes the first element of this kind. When there is none, and when the wish names no
kind, it takes the first element of the pool. Taken elements leave the pool.
-/

namespace Picking

variable {α κ : Type} [DecidableEq κ] (kind : α → Option κ)

/-- A wish fits the elements of the kind that it names. -/
def fits (w : Option κ) (a : α) : Bool := w.isSome && kind a == w

/-- What a wish takes: the first element that it fits, else the first of the pool. -/
def pick (w : Option κ) (pool : List α) : Option α := (pool.find? (fits kind w)).or pool.head?

/-- What a wish leaves in the pool. -/
def rest (w : Option κ) (pool : List α) : List α :=
  if pool.any (fits kind w) then pool.eraseP (fits kind w) else pool.tail

/-- The answers to a list of wishes. -/
def picks : List (Option κ) → List α → List (Option α)
  | [], _ => []
  | w :: ws, pool => pick kind w pool :: picks ws (rest kind w pool)

/-- What a list of wishes leaves in the pool. -/
def left : List (Option κ) → List α → List α
  | [], pool => pool
  | w :: ws, pool => left ws (rest kind w pool)

/-- The elements that a list of wishes takes, in order. -/
def taken (ws : List (Option κ)) (pool : List α) : List α := (picks kind ws pool).reduceOption

variable {w : Option κ} {ws : List (Option κ)} {pool : List α}

@[simp]
theorem fits_none (a : α) : fits kind none a = false := by
  simp [fits]

@[simp]
theorem fits_some (k : κ) (a : α) : fits kind (some k) a = true ↔ kind a = some k := by
  simp [fits]

@[simp]
theorem pick_nil : pick kind w [] = none := by
  simp [pick]

@[simp]
theorem rest_nil : rest kind w [] = [] := by
  simp [rest]

/-- The head of the pool is taken by a wish that it fits. -/
theorem pick_cons_of_fits {a : α} (h : fits kind w a = true) :
    pick kind w (a :: pool) = some a ∧ rest kind w (a :: pool) = pool := by
  simp [pick, rest, h]

/-- The head of the pool is taken by a wish that nothing fits. -/
theorem pick_cons_of_not_fits {a : α} (h : ∀ b ∈ a :: pool, fits kind w b = false) :
    pick kind w (a :: pool) = some a ∧ rest kind w (a :: pool) = pool := by
  have hnone : (a :: pool).find? (fits kind w) = none :=
    List.find?_eq_none.mpr fun b hb => by simp [h b hb]
  have hany : ¬(a :: pool).any (fits kind w) = true := by simpa using h
  rw [pick, hnone, rest, if_neg hany]
  exact ⟨rfl, rfl⟩

/-- A wish that something fits passes over the elements before that it does not fit. -/
theorem pick_append_of_fits {front : List α} (hfront : ∀ a ∈ front, fits kind w a = false)
    {b : α} (hb : b ∈ pool) (h : fits kind w b = true) :
    pick kind w (front ++ pool) = pick kind w pool ∧
      rest kind w (front ++ pool) = front ++ rest kind w pool := by
  have hany : pool.any (fits kind w) = true := List.any_eq_true.mpr ⟨b, hb, h⟩
  have hnone : front.find? (fits kind w) = none :=
    List.find?_eq_none.mpr fun a ha => by simp [hfront a ha]
  obtain ⟨c, hc⟩ : ∃ c, pool.find? (fits kind w) = some c := by
    rw [← Option.isSome_iff_exists, List.find?_isSome]
    exact ⟨b, hb, h⟩
  constructor
  · simp [pick, List.find?_append, hnone, hc]
  · rw [rest, rest, if_pos hany, if_pos (by simp [hany]),
      List.eraseP_append_right _ fun a ha => by simp [hfront a ha]]

/-- The two cases of a wish: it takes the first element that it fits, or there is none and it
takes the head of the pool. -/
theorem pick_cases (w : Option κ) (hpool : pool ≠ []) :
    (∃ before a after, pool = before ++ a :: after ∧ fits kind w a = true ∧
      (∀ b ∈ before, fits kind w b = false) ∧ pick kind w pool = some a ∧
        rest kind w pool = before ++ after) ∨
    (∃ a after, pool = a :: after ∧ (∀ b ∈ pool, fits kind w b = false) ∧
      pick kind w pool = some a ∧ rest kind w pool = after) := by
  by_cases hany : ∃ a ∈ pool, fits kind w a = true
  · left
    obtain ⟨a, ha, hfits⟩ := hany
    obtain ⟨x, before, after, hbefore, hx, hsplit, herase⟩ := List.exists_of_eraseP ha hfits
    have hnone : before.find? (fits kind w) = none :=
      List.find?_eq_none.mpr hbefore
    refine ⟨before, x, after, hsplit, hx, fun b hb => ?_, ?_, ?_⟩
    · simpa using hbefore b hb
    · rw [pick, hsplit, List.find?_append, hnone, List.find?_cons_of_pos hx]
      simp
    · rw [rest, if_pos (List.any_eq_true.mpr ⟨a, ha, hfits⟩), herase]
  · right
    have hfits : ∀ b ∈ pool, fits kind w b = false := by simpa using hany
    obtain ⟨a, after, rfl⟩ := List.exists_cons_of_ne_nil hpool
    refine ⟨a, after, rfl, hfits, ?_, ?_⟩
    · have hnone : (a :: after).find? (fits kind w) = none :=
        List.find?_eq_none.mpr fun b hb => by simp [hfits b hb]
      rw [pick, hnone]
      simp
    · rw [rest, if_neg fun h => hany (List.any_eq_true.mp h)]
      rfl

/-- A wish takes nothing only from an empty pool. -/
theorem pick_eq_none_iff : pick kind w pool = none ↔ pool = [] := by
  constructor
  · intro h
    by_contra hpool
    rcases pick_cases kind w hpool with ⟨_, _, _, _, _, _, hpick, _⟩ | ⟨_, _, _, _, hpick, _⟩
    · simp [hpick] at h
    · simp [hpick] at h
  · rintro rfl
    exact pick_nil kind

/-- What a wish takes and what it leaves is the pool. -/
theorem pick_perm (w : Option κ) (pool : List α) :
    ((pick kind w pool).toList ++ rest kind w pool).Perm pool := by
  by_cases hpool : pool = []
  · subst hpool
    simp
  · rcases pick_cases kind w hpool with
      ⟨before, a, after, rfl, _, _, hpick, hrest⟩ | ⟨a, after, rfl, _, hpick, hrest⟩
    · rw [hpick, hrest]
      have hmiddle : (before ++ a :: after).Perm (a :: (before ++ after)) := List.perm_middle
      simpa using hmiddle.symm
    · rw [hpick, hrest]
      exact List.Perm.refl _

/-- A wish takes an element of the pool. -/
theorem mem_of_pick {a : α} (h : pick kind w pool = some a) : a ∈ pool := by
  refine (pick_perm kind w pool).subset ?_
  simp [h]

/-- **A wish for a kind is granted** while the pool has an element of this kind. -/
theorem kind_of_pick {k : κ} {a : α} (ha : a ∈ pool) (hkind : kind a = some k) :
    ∃ b ∈ pool, pick kind (some k) pool = some b ∧ kind b = some k := by
  rcases pick_cases kind (some k) (List.ne_nil_of_mem ha) with
    ⟨before, b, after, rfl, hfits, _, hpick, _⟩ | ⟨_, _, _, hfits, _, _⟩
  · exact ⟨b, by simp, hpick, (fits_some kind k b).mp hfits⟩
  · have hfalse := hfits a ha
    rw [(fits_some kind k a).mpr hkind] at hfalse
    cases hfalse

@[simp]
theorem length_picks : (picks kind ws pool).length = ws.length := by
  induction ws generalizing pool with
  | nil => rfl
  | cons w ws ih => simp [picks, ih]

@[simp]
theorem taken_nil : taken kind [] pool = [] := rfl

/-- What the first wish takes comes first. -/
theorem taken_cons : taken kind (w :: ws) pool =
    (pick kind w pool).toList ++ taken kind ws (rest kind w pool) := by
  cases hpick : pick kind w pool <;> simp [taken, picks, hpick]

/-- What is taken, and what is left, is the pool. -/
theorem taken_perm (ws : List (Option κ)) (pool : List α) :
    (taken kind ws pool ++ left kind ws pool).Perm pool := by
  induction ws generalizing pool with
  | nil => exact List.Perm.refl _
  | cons w ws ih =>
    rw [taken_cons, left, List.append_assoc]
    exact ((ih (rest kind w pool)).append_left _).trans (pick_perm kind w pool)

/-- What is taken was in the pool. -/
theorem mem_of_mem_taken {a : α} (h : a ∈ taken kind ws pool) : a ∈ pool :=
  (taken_perm kind ws pool).subset (List.mem_append_left _ h)

/-- What is left was in the pool. -/
theorem mem_of_mem_left {a : α} (h : a ∈ left kind ws pool) : a ∈ pool :=
  (taken_perm kind ws pool).subset (List.mem_append_right _ h)

/-- What was in the pool is taken or left. -/
theorem mem_taken_or_mem_left (ws : List (Option κ)) {a : α} (h : a ∈ pool) :
    a ∈ taken kind ws pool ∨ a ∈ left kind ws pool :=
  List.mem_append.mp ((taken_perm kind ws pool).symm.subset h)

/-- One element leaves the pool for each wish. -/
theorem length_rest : (rest kind w pool).length = pool.length - 1 := by
  by_cases hpool : pool = []
  · simp [hpool]
  · have hlength := (pick_perm kind w pool).length_eq
    obtain ⟨a, ha⟩ := Option.ne_none_iff_exists'.mp fun h => hpool ((pick_eq_none_iff kind).mp h)
    rw [ha] at hlength
    simp at hlength
    omega

/-- What is left after a list of wishes, counted. -/
theorem length_left : (left kind ws pool).length = pool.length - ws.length := by
  induction ws generalizing pool with
  | nil => rfl
  | cons w ws ih =>
    rw [left, ih, length_rest, List.length_cons]
    omega

/-- **As many elements are taken as there are wishes**, or all of them. -/
theorem length_taken : (taken kind ws pool).length = min ws.length pool.length := by
  have hlength := (taken_perm kind ws pool).length_eq
  rw [List.length_append, length_left] at hlength
  omega

/-- **Each wish in its turn** is answered from what the wishes before it left. -/
theorem getElem?_picks (i : ℕ) :
    (picks kind ws pool)[i]? = ws[i]?.map fun w => pick kind w (left kind (ws.take i) pool) := by
  induction ws generalizing pool i with
  | nil => simp [picks]
  | cons w ws ih =>
    cases i with
    | zero => simp [picks, left]
    | succ i => simp [picks, left, ih]

/-- The answers to the first wishes. -/
theorem take_picks (i : ℕ) : (picks kind ws pool).take i = picks kind (ws.take i) pool := by
  induction ws generalizing pool i with
  | nil => simp [picks]
  | cons w ws ih =>
    cases i with
    | zero => simp [picks]
    | succ i => simp [picks, ih]

section Spare

variable {spare : List α}

/-- Elements of no kind at the end of the pool are taken when nothing else is there. -/
theorem pick_append_spare (hspare : ∀ a ∈ spare, kind a = none) (hpool : pool ≠ []) :
    pick kind w (pool ++ spare) = pick kind w pool ∧
      rest kind w (pool ++ spare) = rest kind w pool ++ spare := by
  have hnofit : ∀ b ∈ spare, fits kind w b = false := by
    intro b hb
    cases w with
    | none => simp
    | some k => simp [fits, hspare b hb]
  rcases pick_cases kind w hpool with
    ⟨before, a, after, rfl, hfits, hbefore, hpick, hrest⟩ | ⟨a, after, rfl, hfits, hpick, hrest⟩
  · have hmem : a ∈ a :: (after ++ spare) := List.mem_cons_self
    obtain ⟨hpick', hrest'⟩ := pick_append_of_fits kind hbefore hmem hfits
    obtain ⟨hhead, htail⟩ := pick_cons_of_fits kind hfits
    rw [hhead] at hpick'
    rw [htail] at hrest'
    rw [hpick, hrest]
    simpa using And.intro hpick' hrest'
  · have hall : ∀ b ∈ a :: (after ++ spare), fits kind w b = false := by
      intro b hb
      rcases List.mem_append.mp (show b ∈ (a :: after) ++ spare from hb) with hb | hb
      · exact hfits b hb
      · exact hnofit b hb
    obtain ⟨hpick', hrest'⟩ := pick_cons_of_not_fits kind hall
    rw [hpick, hrest]
    exact ⟨hpick', hrest'⟩

/-- Elements of no kind are taken in order. -/
theorem pick_spare (hspare : ∀ a ∈ spare, kind a = none) :
    pick kind w spare = spare.head? ∧ rest kind w spare = spare.tail := by
  cases spare with
  | nil => simp
  | cons a spare =>
    have hall : ∀ b ∈ a :: spare, fits kind w b = false := by
      intro b hb
      cases w with
      | none => simp
      | some k => simp [fits, hspare b hb]
    exact pick_cons_of_not_fits kind hall

/-- **Spare elements** are only taken after the pool. -/
theorem left_append_spare (hspare : ∀ a ∈ spare, kind a = none) :
    left kind ws (pool ++ spare) = left kind ws pool ++ spare.drop (ws.length - pool.length) := by
  induction ws generalizing pool spare with
  | nil => simp [left]
  | cons w ws ih =>
    by_cases hpool : pool = []
    · subst hpool
      have htail : ∀ a ∈ spare.tail, kind a = none := fun a ha => hspare a (List.mem_of_mem_tail ha)
      have hrest : left kind ws spare.tail =
          left kind ws [] ++ spare.tail.drop (ws.length - 0) := @ih [] spare.tail htail
      rw [List.nil_append, left, left, rest_nil, (pick_spare kind hspare).2, hrest, ← List.drop_one,
        List.drop_drop]
      congr 2
      simp only [List.length_nil, List.length_cons]
      omega
    · rw [left, left, (pick_append_spare kind hspare hpool).2, ih hspare, length_rest]
      have hlength := List.length_pos_iff.mpr hpool
      rw [List.length_cons, show ws.length - (pool.length - 1) = ws.length + 1 - pool.length by omega]

end Spare

end Picking
