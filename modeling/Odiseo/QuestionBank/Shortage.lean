import Odiseo.QuestionBank.Strategy

/-!
# Shortage in one level

The strategy answers request by request. A request whose own level has run out takes any unused
question, also one that a later request for its level would have needed. A level is safe when
its unused questions suffice for its own requests and for all requests before the last of them
that may fall back.
-/

namespace Odiseo.QuestionBank

open Odiseo.Materials Picking

/-- Every request for a level that the pool has enough unused questions of is answered with a
question of this level. -/
def ServesLevels (availablePool : List Question) (usedIdsList : List QuestionId)
    (levels : List (Option QuestionDifficultyLevel)) (selected : List (Option Question)) : Prop :=
  ∀ level, levels.count (some level) ≤ supply (standing usedIdsList) availablePool (some level) →
    ∀ i : ℕ, levels[i]? = some (some level) →
      ∃ q, selected[i]? = some (some q) ∧ q.level = some level

/-- The requests before one for a level leave an unused question of it: those for the same level
and those that can fall back are fewer. Otherwise all unused questions are gone by then, and
the request is answered with a recycled question, all of which are of the level. -/
def Spared (availablePool : List Question) (usedIdsList : List QuestionId)
    (levels : List (Option QuestionDifficultyLevel)) (allowRecycling : Bool)
    (level : QuestionDifficultyLevel) (i : ℕ) : Prop :=
  reach (standing usedIdsList) (levels.take i) availablePool (some level) <
    supply (standing usedIdsList) availablePool (some level) ∨
  allowRecycling = true ∧
    (availablePool.filter fun q => !usedIdsList.contains q.id).length ≤ i ∧
    i < availablePool.length ∧
    ∀ q ∈ availablePool, q.id ∈ usedIdsList → q.level = some level

/-- Every request for a level that the pool has enough unused questions of is spared. -/
def SparesLevels (availablePool : List Question) (usedIdsList : List QuestionId)
    (levels : List (Option QuestionDifficultyLevel)) (allowRecycling : Bool) : Prop :=
  ∀ level, levels.count (some level) ≤ supply (standing usedIdsList) availablePool (some level) →
    ∀ i : ℕ, levels[i]? = some (some level) →
      Spared availablePool usedIdsList levels allowRecycling level i

variable {availablePool : List Question} {usedIdsList : List QuestionId}
  {levels : List (Option QuestionDifficultyLevel)} {allowRecycling : Bool}
  {level : QuestionDifficultyLevel} {i : ℕ}

/-- The unused and the used questions are the pool. -/
theorem length_unused_add_used (availablePool : List Question) (usedIdsList : List QuestionId) :
    (availablePool.filter fun q => !usedIdsList.contains q.id).length +
      (availablePool.filter fun q => usedIdsList.contains q.id).length = availablePool.length := by
  have hlength := (List.filter_append_perm (fun q : Question => usedIdsList.contains q.id)
    availablePool).length_eq
  rw [List.length_append] at hlength
  omega

/-- The answer to a request, in its turn. -/
theorem getElem?_selectBestQuestions (random randomUsed : ℕ → ℕ)
    {w : Option QuestionDifficultyLevel} (hw : levels[i]? = some w) :
    (Materials.selectBestQuestions random randomUsed availablePool usedIdsList levels
        allowRecycling)[i]? =
      some (pick (standing usedIdsList) w (left (standing usedIdsList) (levels.take i)
        (candidates random randomUsed availablePool usedIdsList allowRecycling))) := by
  rw [selectBestQuestions_eq_picks, getElem?_picks, hw, Option.map_some]

/-- **A spared request** is answered with its level, whatever the shuffles do. -/
theorem served_of_spared (random randomUsed : ℕ → ℕ) (hi : levels[i]? = some (some level))
    (hspared : Spared availablePool usedIdsList levels allowRecycling level i) :
    ∃ q, (Materials.selectBestQuestions random randomUsed availablePool usedIdsList levels
      allowRecycling)[i]? = some (some q) ∧ q.level = some level := by
  rw [getElem?_selectBestQuestions random randomUsed hi]
  have hlength : (levels.take i).length = i := by
    have := (List.getElem?_eq_some_iff.mp hi).1
    rw [List.length_take]
    omega
  rcases hspared with hfew | ⟨hrecycling, hgone, hshort, hall⟩
  · -- Fewer questions of the level are taken than there are.
    set pool := candidates random randomUsed availablePool usedIdsList allowRecycling with hpool
    have htaken := supply_taken_le (standing usedIdsList) (levels.take i) pool (some level)
    rw [hpool, reach_candidates, ← hpool] at htaken
    have hsplit := supply_eq_taken_add_left (standing usedIdsList) (levels.take i) pool (some level)
    rw [hpool, supply_candidates, ← hpool] at hsplit
    have hleft : supply (standing usedIdsList)
        (left (standing usedIdsList) (levels.take i) pool) (some level) ≠ 0 := by omega
    have hmem := (supply_eq_zero_iff (standing usedIdsList)).not.mp hleft
    push Not at hmem
    obtain ⟨p, hp, hkind⟩ := hmem
    obtain ⟨q, _, hpick, hq⟩ := kind_of_pick (standing usedIdsList) hp hkind
    exact ⟨q, by rw [hpick], (standing_eq_some_iff.mp hq).2⟩
  · -- All unused questions are gone, and a recycled one is of the level.
    have hcount := length_unused_add_used availablePool usedIdsList
    rw [pick_recycled allowRecycling (some level) (by omega), hlength, recycled, if_pos hrecycling]
    have hin : i - (availablePool.filter fun q => !usedIdsList.contains q.id).length <
        (shuffle randomUsed (availablePool.filter fun q => usedIdsList.contains q.id)).length := by
      rw [(shuffle_perm _ _).length_eq]
      omega
    refine ⟨_, congrArg some (List.getElem?_eq_getElem hin), ?_⟩
    have hq := List.mem_filter.mp (mem_of_mem_shuffle (List.getElem_mem hin))
    exact hall _ hq.1 (List.contains_iff_mem.mp hq.2)

/-- An outcome of the shuffle of the unused questions has those of a level first. -/
theorem exists_levelFirst (qs : List Question) (level : QuestionDifficultyLevel) :
    ∃ random, shuffle random qs = (qs.filter fun q => q.level == some level) ++
      qs.filter fun q => !(q.level == some level) :=
  exists_shuffle_eq (List.filter_append_perm _ qs).symm

/-- An outcome of the shuffle has a given question at a given position. -/
theorem exists_at {qs : List Question} {q : Question} (hq : q ∈ qs) {n : ℕ} (hn : n < qs.length) :
    ∃ random, (shuffle random qs)[n]? = some q := by
  obtain ⟨before, after, rfl⟩ := List.append_of_mem hq
  have hperm : (before ++ q :: after).Perm
      ((before ++ after).take n ++ q :: (before ++ after).drop n) := by
    refine List.perm_middle.trans (List.Perm.trans ?_ List.perm_middle.symm)
    rw [List.take_append_drop]
  obtain ⟨random, hrandom⟩ := exists_shuffle_eq hperm
  refine ⟨random, ?_⟩
  have hlength : ((before ++ after).take n).length = n := by
    simp only [List.length_append, List.length_cons, List.length_take] at hn ⊢
    omega
  rw [hrandom, List.getElem?_append_right (by omega), hlength, Nat.sub_self]
  rfl

/-- Questions of a level that stand first are all taken by the requests for it and those that
fall back. -/
theorem supply_left_candidates_eq_zero (allowRecycling : Bool) {random : ℕ → ℕ}
    (randomUsed : ℕ → ℕ) {ws : List (Option QuestionDifficultyLevel)}
    (hrandom : shuffle random (availablePool.filter fun q => !usedIdsList.contains q.id) =
      ((availablePool.filter fun q => !usedIdsList.contains q.id).filter
        fun q => q.level == some level) ++
      (availablePool.filter fun q => !usedIdsList.contains q.id).filter
        fun q => !(q.level == some level))
    (hmany : supply (standing usedIdsList) availablePool (some level) ≤
      reach (standing usedIdsList) ws availablePool (some level)) :
    supply (standing usedIdsList) (left (standing usedIdsList) ws
      (candidates random randomUsed availablePool usedIdsList allowRecycling)) (some level) = 0 := by
  set S := (availablePool.filter fun q => !usedIdsList.contains q.id).filter
    fun q => q.level == some level with hS
  set R := (availablePool.filter fun q => !usedIdsList.contains q.id).filter
      (fun q => !(q.level == some level)) ++
    recycled allowRecycling
      (shuffle randomUsed (availablePool.filter fun q => usedIdsList.contains q.id)) with hR
  have hpool : candidates random randomUsed availablePool usedIdsList allowRecycling = S ++ R := by
    rw [candidates, hrandom, hR, List.append_assoc]
  have hSkind : ∀ q ∈ S, standing usedIdsList q = some level := by
    intro q hq
    obtain ⟨hunused, hlevel⟩ := List.mem_filter.mp hq
    exact standing_eq_some_iff.mpr
      ⟨by simpa using (List.mem_filter.mp hunused).2, by simpa using hlevel⟩
  have hRkind : ∀ q ∈ R, standing usedIdsList q ≠ some level := by
    intro q hq hkind
    rcases List.mem_append.mp hq with hq | hq
    · have hlevel := (List.mem_filter.mp hq).2
      simp [(standing_eq_some_iff.mp hkind).2] at hlevel
    · rw [(standing_of_recycled allowRecycling hq).2.1] at hkind
      cases hkind
  have hlength : supply (standing usedIdsList) availablePool (some level) = S.length := by
    rw [← supply_candidates allowRecycling level, hpool, supply_append,
      (supply_eq_zero_iff (standing usedIdsList)).mpr hRkind,
      supply_eq_length (standing usedIdsList) hSkind, Nat.add_zero]
  rw [hpool]
  apply supply_left_eq_zero (standing usedIdsList) hSkind hRkind
  rw [← hpool, reach_candidates, ← hlength]
  exact hmany

/-- **A request that is not spared** misses its level in some outcome of the shuffles. -/
theorem exists_missed_of_not_spared (hi : levels[i]? = some (some level))
    (hspared : ¬Spared availablePool usedIdsList levels allowRecycling level i) :
    ∃ random randomUsed, ∀ q, (Materials.selectBestQuestions random randomUsed availablePool
      usedIdsList levels allowRecycling)[i]? = some (some q) → q.level ≠ some level := by
  unfold Spared at hspared
  push Not at hspared
  obtain ⟨hmany, hrecycled⟩ := hspared
  have hlength : (levels.take i).length = i := by
    have := (List.getElem?_eq_some_iff.mp hi).1
    rw [List.length_take]
    omega
  have hcount := length_unused_add_used availablePool usedIdsList
  obtain ⟨random, hrandom⟩ := exists_levelFirst
    (availablePool.filter fun q => !usedIdsList.contains q.id) level
  -- The questions of the level stand first, and are all taken before the request.
  have hnone (randomUsed : ℕ → ℕ) (q : Question) (hunused : q.id ∉ usedIdsList)
      (hpick : pick (standing usedIdsList) (some level) (left (standing usedIdsList)
        (levels.take i)
        (candidates random randomUsed availablePool usedIdsList allowRecycling)) = some q) :
      q.level ≠ some level := by
    intro hlevel
    have hzero := supply_left_candidates_eq_zero allowRecycling randomUsed hrandom hmany
    exact (supply_eq_zero_iff (standing usedIdsList)).mp hzero q (mem_of_pick _ hpick)
      (standing_eq_some_iff.mpr ⟨hunused, hlevel⟩)
  by_cases hgone : (availablePool.filter fun q => !usedIdsList.contains q.id).length ≤ i
  · by_cases hother : allowRecycling = true ∧ i < availablePool.length
    · -- A recycled question of another level stands where the request looks.
      obtain ⟨p, hp, hused, hlevel⟩ := hrecycled hother.1 hgone hother.2
      have hmem : p ∈ availablePool.filter fun q => usedIdsList.contains q.id :=
        List.mem_filter.mpr ⟨hp, List.contains_iff_mem.mpr hused⟩
      have hin : i - (availablePool.filter fun q => !usedIdsList.contains q.id).length <
          (availablePool.filter fun q => usedIdsList.contains q.id).length := by omega
      obtain ⟨randomUsed, hat⟩ := exists_at hmem hin
      refine ⟨random, randomUsed, fun q hq => ?_⟩
      rw [getElem?_selectBestQuestions random randomUsed hi,
        pick_recycled allowRecycling (some level) (by omega), hlength, recycled,
        if_pos hother.1, hat] at hq
      rw [← Option.some.inj (Option.some.inj hq)]
      exact hlevel
    · -- The questions have run out.
      refine ⟨random, id, fun q hq => ?_⟩
      rw [getElem?_selectBestQuestions random id hi,
        pick_recycled allowRecycling (some level) (by omega), hlength,
        List.getElem?_eq_none ?_] at hq
      · cases hq
      · unfold recycled
        split
        · rename_i hrecycling
          rw [(shuffle_perm _ _).length_eq]
          have hlong : ¬i < availablePool.length := fun h => hother ⟨hrecycling, h⟩
          omega
        · exact Nat.zero_le _
  · refine ⟨random, id, fun q hq => ?_⟩
    rw [getElem?_selectBestQuestions random id hi] at hq
    have hpick := Option.some.inj hq
    exact hnone id q (pick_unused allowRecycling (some level) (by omega) hpick) hpick

/-- **A level costs no other level exactly when it is spared:** in every outcome of the shuffles,
each request for a level that the pool has enough unused questions of is answered with it, if and
only if the requests before it leave one. -/
theorem servesLevels_iff_spares (availablePool : List Question) (usedIdsList : List QuestionId)
    (requests : List SelectionRequest) (allowRecycling : Bool)
    (toUpperCase : String → String) :
    (∀ random randomUsed, ServesLevels availablePool usedIdsList
      (requests.map (·.level toUpperCase))
      (selectBestQuestions toUpperCase random randomUsed availablePool usedIdsList requests
        allowRecycling)) ↔
      SparesLevels availablePool usedIdsList (requests.map (·.level toUpperCase))
        allowRecycling := by
  simp only [selectBestQuestions_eq]
  constructor
  · intro hserves level hsupply i hi
    by_contra hspared
    obtain ⟨random, randomUsed, hmissed⟩ := exists_missed_of_not_spared hi hspared
    obtain ⟨q, hq, hlevel⟩ := hserves random randomUsed level hsupply i hi
    exact hmissed q hq hlevel
  · intro hspares random randomUsed level hsupply i hi
    exact served_of_spared random randomUsed hi (hspares level hsupply i hi)

/-- A request for a hard question before one for an easy question. -/
def hardFirst : List SelectionRequest := [⟨some "HARD"⟩, ⟨some "EASY"⟩]

/-- The only question of a subtopic is easy. A request for a hard one takes it, and the request
for an easy one is left with nothing. -/
theorem not_servesLevels_hardFirst :
    ¬ServesLevels [⟨1, 43⟩] [] (hardFirst.map (·.level id))
      (selectBestQuestions id id id [⟨1, 43⟩] [] hardFirst false) := by
  intro h
  obtain ⟨q, hq, _⟩ := h .easy (by decide) 1 (by decide)
  have hnothing : (selectBestQuestions id id id [⟨1, 43⟩] [] hardFirst false)[1]? = some none := by
    decide
  rw [hnothing] at hq
  cases hq

end Odiseo.QuestionBank
