import Odiseo.Materials.Selection
import Odiseo.Picking.Reach

/-!
# The selection strategy as greedy picking

The three steps of `selectBestQuestions` are greedy picking from one pool: the unused
questions, and after them the used ones when recycling is allowed. A used question is of no
level there, so that a wish for a level passes it over.
-/

namespace Odiseo.Materials

open Picking

/-- The difficulties. -/
def QuestionDifficultyLevel.all : List QuestionDifficultyLevel := [.easy, .medium, .hard]

/-- There is no other difficulty. -/
theorem QuestionDifficultyLevel.mem_all (level : QuestionDifficultyLevel) : level ∈ all := by
  cases level <;> simp [all]

instance : Fintype QuestionDifficultyLevel :=
  Fintype.ofList QuestionDifficultyLevel.all QuestionDifficultyLevel.mem_all

/-- The difficulty that the bank's level key of a question stands for. -/
def Question.level (q : Question) : Option QuestionDifficultyLevel :=
  QuestionDifficultyLevel.all.find? fun level => level.levelIds.contains q.levelId

/-- The three difficulties have no level key in common. -/
theorem Question.level_eq_some_iff {q : Question} {level : QuestionDifficultyLevel} :
    q.level = some level ↔ level.levelIds.contains q.levelId = true := by
  have hdisjoint : ∀ other : QuestionDifficultyLevel, other.levelIds.contains q.levelId = true →
      level.levelIds.contains q.levelId = true → other = level := by
    intro other hother hlevel
    cases other <;> cases level <;> simp [QuestionDifficultyLevel.levelIds] at hother hlevel ⊢ <;>
      omega
  constructor
  · intro h
    exact List.find?_some (p := fun l : QuestionDifficultyLevel => l.levelIds.contains q.levelId) h
  · intro h
    have hsome : q.level.isSome := by
      rw [Question.level, List.find?_isSome]
      exact ⟨level, level.mem_all, h⟩
    obtain ⟨other, hother⟩ := Option.isSome_iff_exists.mp hsome
    rw [hother, hdisjoint other (List.find?_some
      (p := fun l : QuestionDifficultyLevel => l.levelIds.contains q.levelId) hother) h]

/-- What a question counts as in a selection: a used one is of no level. -/
def standing (usedIdsList : List QuestionId) (q : Question) : Option QuestionDifficultyLevel :=
  if usedIdsList.contains q.id then none else q.level

/-- A selection without used questions goes by the level alone. -/
@[simp]
theorem standing_nil : standing [] = Question.level := by
  funext q
  simp [standing]

/-- A question is of a level in the selection when it is unused and of this level. -/
theorem standing_eq_some_iff {usedIdsList : List QuestionId} {level : QuestionDifficultyLevel}
    {q : Question} :
    standing usedIdsList q = some level ↔ q.id ∉ usedIdsList ∧ q.level = some level := by
  unfold standing
  split
  · rename_i hq
    simp [List.contains_iff_mem.mp hq]
  · rename_i hq
    simp [show q.id ∉ usedIdsList by simpa using hq]

section TakeFirst

variable {α : Type} {p : α → Bool} {xs rest : List α} {x : α}

/-- `findIndex` and `splice` split the list at the first element with the property. -/
theorem takeFirst_eq_some (h : takeFirst p xs = some (x, rest)) :
    ∃ before after, xs = before ++ x :: after ∧ rest = before ++ after ∧ p x = true ∧
      ∀ b ∈ before, p b = false := by
  induction xs generalizing rest with
  | nil => cases h
  | cons y ys ih =>
    unfold takeFirst at h
    split at h
    · rename_i hy
      cases h
      exact ⟨[], ys, rfl, rfl, hy, by simp⟩
    · rename_i hy
      obtain ⟨⟨z, zs⟩, htaken, heq⟩ := Option.map_eq_some_iff.mp h
      cases heq
      obtain ⟨before, after, rfl, rfl, hz, hbefore⟩ := ih htaken
      refine ⟨y :: before, after, rfl, rfl, hz, ?_⟩
      intro b hb
      rcases List.mem_cons.mp hb with rfl | hb
      · simpa using hy
      · exact hbefore b hb

/-- `findIndex` answers `-1` when no element has the property. -/
theorem takeFirst_eq_none (h : takeFirst p xs = none) : ∀ x ∈ xs, p x = false := by
  induction xs with
  | nil => simp
  | cons y ys ih =>
    unfold takeFirst at h
    split at h
    · cases h
    · rename_i hy
      intro x hx
      rcases List.mem_cons.mp hx with rfl | hx
      · simpa using hy
      · exact ih (Option.map_eq_none_iff.mp h) x hx

end TakeFirst

/-- The used questions that a selection may fall back on. -/
def recycled (allowRecycling : Bool) (usedPool : List Question) : List Question :=
  if allowRecycling then usedPool else []

variable (allowRecycling : Bool) (expectedLevel : Option QuestionDifficultyLevel)
  {usedIdsList : List QuestionId} {unusedPool usedPool : List Question}

/-- A wish for a level fits the unused questions of this level. -/
theorem fits_standing {level : QuestionDifficultyLevel} {q : Question}
    (hq : usedIdsList.contains q.id = false) :
    fits (standing usedIdsList) (some level) q = level.levelIds.contains q.levelId := by
  rw [Bool.eq_iff_iff, fits_some, standing, if_neg (by rw [hq]; exact Bool.false_ne_true)]
  exact Question.level_eq_some_iff

/-- No wish fits a used question. -/
theorem not_fits_of_used {q : Question} (hq : usedIdsList.contains q.id = true) :
    fits (standing usedIdsList) expectedLevel q = false := by
  cases expectedLevel with
  | none => simp
  | some level => simp [fits, standing, List.contains_iff_mem.mp hq]

/-- **One choice** is a greedy pick, and leaves what the pick leaves. -/
theorem selectQuestion_eq_pick (hunused : ∀ q ∈ unusedPool, usedIdsList.contains q.id = false)
    (hused : ∀ q ∈ usedPool, usedIdsList.contains q.id = true) :
    let (selected, unused, used) := selectQuestion allowRecycling expectedLevel unusedPool usedPool
    selected = pick (standing usedIdsList) expectedLevel
        (unusedPool ++ recycled allowRecycling usedPool) ∧
      unused ++ recycled allowRecycling used = rest (standing usedIdsList) expectedLevel
        (unusedPool ++ recycled allowRecycling usedPool) := by
  have hrecycled : ∀ q ∈ recycled allowRecycling usedPool, usedIdsList.contains q.id = true := by
    intro q hq
    unfold recycled at hq
    split at hq
    · exact hused q hq
    · cases hq
  unfold selectQuestion
  cases hmatching : expectedLevel.bind fun level =>
      takeFirst (fun q => level.levelIds.contains q.levelId) unusedPool with
  | some taken =>
    obtain ⟨q, rest⟩ := taken
    obtain ⟨level, rfl, htaken⟩ := Option.bind_eq_some_iff.mp hmatching
    obtain ⟨before, after, rfl, rfl, hq, hbefore⟩ := takeFirst_eq_some htaken
    have hfits : fits (standing usedIdsList) (some level) q = true := by
      rw [fits_standing (hunused q (by simp))]
      exact hq
    have hfront : ∀ b ∈ before, fits (standing usedIdsList) (some level) b = false := by
      intro b hb
      rw [fits_standing (hunused b (by simp [hb]))]
      exact hbefore b hb
    have hmem : q ∈ q :: (after ++ recycled allowRecycling usedPool) := List.mem_cons_self
    obtain ⟨hpick, hrest⟩ := pick_append_of_fits (standing usedIdsList) hfront hmem hfits
    obtain ⟨hpick', hrest'⟩ := pick_cons_of_fits (standing usedIdsList) hfits
    rw [hpick'] at hpick
    rw [hrest'] at hrest
    simp only [List.append_assoc, List.cons_append]
    exact ⟨hpick.symm, hrest.symm⟩
  | none =>
    have hnone : ∀ q ∈ unusedPool ++ recycled allowRecycling usedPool,
        fits (standing usedIdsList) expectedLevel q = false := by
      intro q hq
      rcases List.mem_append.mp hq with hq | hq
      · cases expectedLevel with
        | none => simp
        | some level =>
          rw [fits_standing (hunused q hq)]
          exact takeFirst_eq_none hmatching q hq
      · exact not_fits_of_used expectedLevel (hrecycled q hq)
    cases unusedPool with
    | cons q unusedPool =>
      obtain ⟨hpick, hrest⟩ := pick_cons_of_not_fits (standing usedIdsList) hnone
      exact ⟨hpick.symm, hrest.symm⟩
    | nil =>
      cases allowRecycling with
      | false => cases usedPool <;> simp [recycled]
      | true =>
        cases usedPool with
        | nil => simp [recycled]
        | cons q usedPool =>
          obtain ⟨hpick, hrest⟩ := pick_cons_of_not_fits (standing usedIdsList) hnone
          exact ⟨hpick.symm, hrest.symm⟩

/-- **The loop** over the requests is greedy picking. -/
theorem selectQuestions_eq_picks (requests : List (Option QuestionDifficultyLevel))
    (hunused : ∀ q ∈ unusedPool, usedIdsList.contains q.id = false)
    (hused : ∀ q ∈ usedPool, usedIdsList.contains q.id = true) :
    selectQuestions allowRecycling requests unusedPool usedPool =
      picks (standing usedIdsList) requests (unusedPool ++ recycled allowRecycling usedPool) := by
  induction requests generalizing unusedPool usedPool with
  | nil => rfl
  | cons expectedLevel requests ih =>
    have hpick := selectQuestion_eq_pick allowRecycling expectedLevel hunused hused
    have hsubset := selectQuestion_subset allowRecycling expectedLevel unusedPool usedPool
    rw [selectQuestions, picks]
    generalize selectQuestion allowRecycling expectedLevel unusedPool usedPool = choice
      at hpick hsubset ⊢
    obtain ⟨selected, unused, used⟩ := choice
    obtain ⟨hselected, hrest⟩ := hpick
    obtain ⟨_, hunused', hused'⟩ := hsubset
    rw [← hrest, ← hselected]
    change selected :: selectQuestions allowRecycling requests unused used = _
    rw [ih (fun q hq => hunused q (hunused' hq)) fun q hq => hused q (hused' hq)]

/-- The pool that a selection picks from, in the order of its shuffles. -/
def candidates (random randomUsed : ℕ → ℕ) (availablePool : List Question)
    (usedIdsList : List QuestionId) (allowRecycling : Bool) : List Question :=
  shuffle random (availablePool.filter fun q => !usedIdsList.contains q.id) ++
    recycled allowRecycling
      (shuffle randomUsed (availablePool.filter fun q => usedIdsList.contains q.id))

/-- **`selectBestQuestions` is greedy picking** from its candidates. -/
theorem selectBestQuestions_eq_picks (random randomUsed : ℕ → ℕ) (availablePool : List Question)
    (usedIdsList : List QuestionId) (requests : List (Option QuestionDifficultyLevel))
    (allowRecycling : Bool) :
    selectBestQuestions random randomUsed availablePool usedIdsList requests allowRecycling =
      picks (standing usedIdsList) requests
        (candidates random randomUsed availablePool usedIdsList allowRecycling) := by
  apply selectQuestions_eq_picks
  · intro q hq
    simpa using (List.mem_filter.mp (mem_of_mem_shuffle hq)).2
  · intro q hq
    exact (List.mem_filter.mp (mem_of_mem_shuffle hq)).2

section Candidates

variable {random randomUsed : ℕ → ℕ} {availablePool : List Question}

/-- The candidates are part of the pool, in another order. -/
theorem candidates_subperm :
    (candidates random randomUsed availablePool usedIdsList allowRecycling).Subperm
      availablePool := by
  have hunused := shuffle_perm random (availablePool.filter fun q => !usedIdsList.contains q.id)
  have hused := shuffle_perm randomUsed (availablePool.filter fun q => usedIdsList.contains q.id)
  cases allowRecycling with
  | false =>
    rw [candidates, recycled, if_neg Bool.false_ne_true, List.append_nil]
    exact hunused.subperm.trans List.filter_sublist.subperm
  | true =>
    rw [candidates, recycled, if_pos rfl]
    refine (((hunused.append hused).trans List.perm_append_comm).trans ?_).subperm
    exact List.filter_append_perm (fun q : Question => usedIdsList.contains q.id) availablePool

/-- An unused question is a candidate that stands before the used ones. -/
theorem mem_shuffle_of_unused {q : Question} (hq : q ∈ availablePool)
    (hunused : q.id ∉ usedIdsList) :
    q ∈ shuffle random (availablePool.filter fun q => !usedIdsList.contains q.id) := by
  rw [(shuffle_perm _ _).mem_iff]
  exact List.mem_filter.mpr ⟨hq, by simpa using hunused⟩

/-- How many candidates a selection has. -/
theorem length_candidates :
    (candidates random randomUsed availablePool usedIdsList allowRecycling).length =
      (availablePool.filter fun q => !usedIdsList.contains q.id).length +
        if allowRecycling then (availablePool.filter fun q => usedIdsList.contains q.id).length
        else 0 := by
  rw [candidates, List.length_append, (shuffle_perm _ _).length_eq]
  cases allowRecycling with
  | false => rfl
  | true => rw [recycled, if_pos rfl, if_pos rfl, (shuffle_perm _ _).length_eq]

/-- A used question is of no level in the selection. -/
theorem standing_of_recycled {q : Question} (h : q ∈ recycled allowRecycling
      (shuffle randomUsed (availablePool.filter fun q => usedIdsList.contains q.id))) :
    q.id ∈ usedIdsList ∧ standing usedIdsList q = none ∧ allowRecycling = true := by
  unfold recycled at h
  split at h
  · rename_i hrecycling
    have hused := (List.mem_filter.mp (mem_of_mem_shuffle h)).2
    exact ⟨List.contains_iff_mem.mp hused, if_pos hused, hrecycling⟩
  · cases h

/-- The used questions are left over until the unused ones are taken. -/
theorem left_candidates (ws : List (Option QuestionDifficultyLevel)) :
    left (standing usedIdsList) ws
        (candidates random randomUsed availablePool usedIdsList allowRecycling) =
      left (standing usedIdsList) ws
          (shuffle random (availablePool.filter fun q => !usedIdsList.contains q.id)) ++
        (recycled allowRecycling (shuffle randomUsed
          (availablePool.filter fun q => usedIdsList.contains q.id))).drop
            (ws.length - (availablePool.filter fun q => !usedIdsList.contains q.id).length) := by
  have hlength := (shuffle_perm random
    (availablePool.filter fun q => !usedIdsList.contains q.id)).length_eq
  rw [← hlength]
  exact left_append_spare (standing usedIdsList) fun q hq =>
    (standing_of_recycled allowRecycling hq).2.1

/-- While unused questions are left, one of them is picked. -/
theorem pick_unused {ws : List (Option QuestionDifficultyLevel)} {q : Question}
    (hlength : ws.length < (availablePool.filter fun q => !usedIdsList.contains q.id).length)
    (hpick : pick (standing usedIdsList) expectedLevel (left (standing usedIdsList) ws
      (candidates random randomUsed availablePool usedIdsList allowRecycling)) = some q) :
    q.id ∉ usedIdsList := by
  have hne : left (standing usedIdsList) ws
      (shuffle random (availablePool.filter fun q => !usedIdsList.contains q.id)) ≠ [] := by
    rw [← List.length_pos_iff, length_left, (shuffle_perm _ _).length_eq]
    omega
  have hdrop : ∀ p ∈ (recycled allowRecycling (shuffle randomUsed
      (availablePool.filter fun q => usedIdsList.contains q.id))).drop
        (ws.length - (availablePool.filter fun q => !usedIdsList.contains q.id).length),
      standing usedIdsList p = none := fun p hp =>
    (standing_of_recycled allowRecycling (List.mem_of_mem_drop hp)).2.1
  rw [left_candidates, (pick_append_spare (standing usedIdsList) hdrop hne).1] at hpick
  have hq := mem_of_mem_shuffle (mem_of_mem_left _ (mem_of_pick _ hpick))
  simpa using (List.mem_filter.mp hq).2

/-- When no unused question is left, the used ones are picked in their order. -/
theorem pick_recycled {ws : List (Option QuestionDifficultyLevel)}
    (hlength : (availablePool.filter fun q => !usedIdsList.contains q.id).length ≤ ws.length) :
    pick (standing usedIdsList) expectedLevel (left (standing usedIdsList) ws
        (candidates random randomUsed availablePool usedIdsList allowRecycling)) =
      (recycled allowRecycling (shuffle randomUsed
        (availablePool.filter fun q => usedIdsList.contains q.id)))[ws.length -
          (availablePool.filter fun q => !usedIdsList.contains q.id).length]? := by
  have hempty : left (standing usedIdsList) ws
      (shuffle random (availablePool.filter fun q => !usedIdsList.contains q.id)) = [] := by
    rw [← List.length_eq_zero_iff, length_left, (shuffle_perm _ _).length_eq]
    omega
  rw [left_candidates, hempty, List.nil_append, (pick_spare (standing usedIdsList) fun p hp =>
    (standing_of_recycled allowRecycling (List.mem_of_mem_drop hp)).2.1).1, List.head?_drop]

/-- **A used question is picked last:** recycling is allowed, and every unused question of the
pool has been taken. -/
theorem taken_of_pick_used {ws : List (Option QuestionDifficultyLevel)} {q : Question}
    (hpick : pick (standing usedIdsList) expectedLevel (left (standing usedIdsList) ws
      (candidates random randomUsed availablePool usedIdsList allowRecycling)) = some q)
    (hq : q.id ∈ usedIdsList) :
    allowRecycling = true ∧ ∀ p ∈ availablePool, p.id ∉ usedIdsList →
      p ∈ taken (standing usedIdsList) ws
        (candidates random randomUsed availablePool usedIdsList allowRecycling) := by
  have hlength : (availablePool.filter fun q => !usedIdsList.contains q.id).length ≤ ws.length := by
    by_contra hlt
    exact pick_unused allowRecycling expectedLevel (by omega) hpick hq
  rw [pick_recycled allowRecycling expectedLevel hlength] at hpick
  have hspare := standing_of_recycled allowRecycling (List.mem_of_getElem? hpick)
  refine ⟨hspare.2.2, fun p hp hunused => ?_⟩
  have hfront : p ∈ candidates random randomUsed availablePool usedIdsList allowRecycling :=
    List.mem_append_left _ (mem_shuffle_of_unused hp hunused)
  refine (mem_taken_or_mem_left (standing usedIdsList) ws hfront).resolve_right fun hleft => ?_
  rw [left_candidates] at hleft
  rcases List.mem_append.mp hleft with hleft | hleft
  · have hlost := List.length_pos_of_mem hleft
    rw [length_left, (shuffle_perm _ _).length_eq] at hlost
    omega
  · exact hunused (standing_of_recycled allowRecycling (List.mem_of_mem_drop hleft)).1

/-- **A level is served while it lasts:** an unused question of the level that is not yet taken
makes the pick one of this level. -/
theorem pick_of_level {ws : List (Option QuestionDifficultyLevel)} {level : QuestionDifficultyLevel}
    {p : Question} (hp : p ∈ availablePool) (hunused : p.id ∉ usedIdsList)
    (hlevel : p.level = some level)
    (hleft : p ∉ taken (standing usedIdsList) ws
      (candidates random randomUsed availablePool usedIdsList allowRecycling)) :
    ∃ q, pick (standing usedIdsList) (some level) (left (standing usedIdsList) ws
        (candidates random randomUsed availablePool usedIdsList allowRecycling)) = some q ∧
      q.id ∉ usedIdsList ∧ q.level = some level := by
  have hmem : p ∈ candidates random randomUsed availablePool usedIdsList allowRecycling :=
    List.mem_append_left _ (mem_shuffle_of_unused hp hunused)
  have hp' := (mem_taken_or_mem_left (standing usedIdsList) ws hmem).resolve_left hleft
  have hkind : standing usedIdsList p = some level := by
    rw [standing, if_neg (by simpa using hunused), hlevel]
  obtain ⟨q, _, hpick, hq⟩ := kind_of_pick (standing usedIdsList) hp' hkind
  refine ⟨q, hpick, ?_⟩
  unfold standing at hq
  split at hq
  · cases hq
  · rename_i hq'
    exact ⟨by simpa using hq', hq⟩

/-- The candidates of each level are the unused questions of this level. -/
theorem supply_candidates (level : QuestionDifficultyLevel) :
    supply (standing usedIdsList)
        (candidates random randomUsed availablePool usedIdsList allowRecycling) (some level) =
      supply (standing usedIdsList) availablePool (some level) := by
  have hzero : ∀ qs : List Question, (∀ q ∈ qs, q.id ∈ usedIdsList) →
      supply (standing usedIdsList) qs (some level) = 0 := by
    intro qs hqs
    rw [supply_eq_zero_iff]
    intro q hq
    rw [standing, if_pos (List.contains_iff_mem.mpr (hqs q hq))]
    simp
  have hpool := supply_eq_of_perm (standing usedIdsList)
    (List.filter_append_perm (fun q : Question => usedIdsList.contains q.id) availablePool)
    (some level)
  rw [supply_append, hzero _ fun q hq => by simpa using (List.mem_filter.mp hq).2] at hpool
  rw [candidates, supply_append, hzero _ fun q hq => (standing_of_recycled allowRecycling hq).1,
    supply_eq_of_perm (standing usedIdsList) (shuffle_perm random _), ← hpool]
  omega

/-- The reach goes by the questions of the pool, in whatever order they stand. -/
theorem reach_candidates (ws : List (Option QuestionDifficultyLevel))
    (level : Option QuestionDifficultyLevel) :
    reach (standing usedIdsList) ws
        (candidates random randomUsed availablePool usedIdsList allowRecycling) level =
      reach (standing usedIdsList) ws availablePool level := by
  apply reach_congr
  intro m
  exact supply_candidates allowRecycling m

/-- The unused questions are taken before the used ones. -/
theorem countP_unused_taken (random randomUsed : ℕ → ℕ) (availablePool : List Question)
    (usedIdsList : List QuestionId) (ws : List (Option QuestionDifficultyLevel)) :
    (taken (standing usedIdsList) ws
        (candidates random randomUsed availablePool usedIdsList allowRecycling)).countP
        (fun q => !usedIdsList.contains q.id) =
      min ws.length (availablePool.countP fun q => !usedIdsList.contains q.id) := by
  have hunused : ∀ qs : List Question, (∀ q ∈ qs, q.id ∉ usedIdsList) →
      qs.countP (fun q => !usedIdsList.contains q.id) = qs.length := by
    intro qs hqs
    exact List.countP_eq_length.mpr fun q hq => by simpa using hqs q hq
  have hused : ∀ qs : List Question, (∀ q ∈ qs, q.id ∈ usedIdsList) →
      qs.countP (fun q => !usedIdsList.contains q.id) = 0 := by
    intro qs hqs
    exact List.countP_eq_zero.mpr fun q hq => by simpa using hqs q hq
  have hfront : ∀ q ∈ shuffle random (availablePool.filter fun q => !usedIdsList.contains q.id),
      q.id ∉ usedIdsList := by
    intro q hq
    simpa using (List.mem_filter.mp (mem_of_mem_shuffle hq)).2
  have hperm := (taken_perm (standing usedIdsList) ws
    (candidates random randomUsed availablePool usedIdsList allowRecycling)).countP_eq
      fun q => !usedIdsList.contains q.id
  rw [List.countP_append, left_candidates, List.countP_append,
    hunused _ fun q hq => hfront q (mem_of_mem_left _ hq),
    hused _ fun q hq => (standing_of_recycled allowRecycling (List.mem_of_mem_drop hq)).1,
    candidates, List.countP_append, hunused _ hfront,
    hused _ fun q hq => (standing_of_recycled allowRecycling hq).1, length_left,
    (shuffle_perm _ _).length_eq, ← List.countP_eq_length_filter] at hperm
  rw [candidates]
  omega

/-- **No question is selected twice** from a pool of distinct questions. -/
theorem nodup_selectBestQuestions (random randomUsed : ℕ → ℕ)
    (hids : (availablePool.map (·.id)).Nodup) (usedIdsList : List QuestionId)
    (requests : List (Option QuestionDifficultyLevel)) :
    ((selectBestQuestions random randomUsed availablePool usedIdsList requests
      allowRecycling).reduceOption.map (·.id)).Nodup := by
  rw [selectBestQuestions_eq_picks]
  have htaken : (taken (standing usedIdsList) requests (candidates random randomUsed availablePool
      usedIdsList allowRecycling)).Subperm availablePool :=
    ((List.sublist_append_left _ _).subperm.trans
      (taken_perm (standing usedIdsList) requests _).subperm).trans
        (candidates_subperm allowRecycling)
  obtain ⟨sub, hperm, hsublist⟩ := htaken
  exact (hperm.map Question.id).nodup_iff.mp ((hsublist.map Question.id).nodup hids)

end Candidates

end Odiseo.Materials
