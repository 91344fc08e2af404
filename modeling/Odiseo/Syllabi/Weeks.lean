import Odiseo.Syllabi.Distributions

/-!
# The weeks of a cycle

A cycle is created with its weeks, and an update that changes its dates or its length lays them out
again: numbers that stay keep their rows, those beyond the end are deleted softly and new ones are
inserted. The live weeks are therefore always those of the calendar of the cycle.
-/

namespace Odiseo.Syllabi

open Database

/-- A row is a week of a cycle that has not been deleted. -/
def Db.LiveWeek (db : Db) (cycleId : Uuid) (w : CycleWeek) : Prop :=
  w ∈ db.weeks.rows ∧ w.cycleId = cycleId ∧ w.deleted = false

/-- The live weeks of a cycle are the numbers from 1 to the last once each, one a week from its
first day on, and it ends with the last of them. -/
structure Db.Contiguous (db : Db) (c : Cycle) : Prop where
  totalWeeks : 1 ≤ c.totalWeeks ∧ c.totalWeeks ≤ 52
  daysPerWeek : 1 ≤ c.daysPerWeek ∧ c.daysPerWeek ≤ 7
  number : ∀ w, db.LiveWeek c.id w → 1 ≤ w.weekNumber ∧ w.weekNumber ≤ c.totalWeeks
  exists_week : ∀ i, 1 ≤ i → i ≤ c.totalWeeks → ∃ w, db.LiveWeek c.id w ∧ w.weekNumber = i
  unique : ∀ v w, db.LiveWeek c.id v → db.LiveWeek c.id w → v.weekNumber = w.weekNumber → v = w
  startDate : ∀ w, db.LiveWeek c.id w → w.startDate = c.startDate + 7 * ((w.weekNumber : ℤ) - 1)
  endDate : ∀ w, db.LiveWeek c.id w → w.endDate = w.startDate + ((c.daysPerWeek : ℤ) - 1)
  disjoint : ∀ v w, db.LiveWeek c.id v → db.LiveWeek c.id w → v ≠ w →
    v.endDate < w.startDate ∨ w.endDate < v.startDate
  cycleEnd : ∀ w, db.LiveWeek c.id w → w.weekNumber = c.totalWeeks → c.endDate = w.endDate

/-- All cycles are contiguous, and each week has its cycle. -/
structure Db.Calendar (db : Db) : Prop where
  contiguous : ∀ c ∈ db.cycles.rows, db.Contiguous c
  cycle : ∀ w ∈ db.weeks.rows, ∃ c ∈ db.cycles.rows, c.id = w.cycleId

/-- A week number that is there before and after keeps its row and its flag. -/
def KeepsWeeks (db db' : Db) : Prop :=
  ∀ cycleId v w, db.LiveWeek cycleId v → db'.LiveWeek cycleId w → v.weekNumber = w.weekNumber →
    w.id = v.id ∧ w.isActive = v.isActive

/-- The identifiers that a call draws for weeks. -/
def PlanningCall.weekIds : PlanningCall → List Uuid
  | .whole (.createCycle _ _ weekIds) | .whole (.updateCycle _ _ weekIds) =>
    (List.range' 1 52).map weekIds
  | _ => []

/-- The identifiers that a call draws for weeks are distinct, and no week carries one of them. -/
def DrawsWeekIds (step : Step) : Prop :=
  step.call.weekIds.Nodup ∧ ∀ i ∈ step.call.weekIds, step.before.weeks.find i = none

/-- The call creates or updates a cycle. -/
def Step.EditsCycle (step : Step) : Prop :=
  match step.call with
  | .whole (.createCycle _ _ _) | .whole (.updateCycle _ _ _) => True
  | _ => False

section Layout

variable {db db' : Db} {c : Cycle}

/-- The first day of a week, in the order of the calendar. -/
theorem weekStart_eq (startDate : Day) (i : ℕ) :
    weekStart startDate i = startDate + 7 * ((i : ℤ) - 1) := by
  rw [weekStart, Int.mul_comm]

/-- A week ends before a later one starts. -/
theorem weekEnd_lt_weekStart (startDate : ℤ) {daysPerWeek i j : ℕ} (hdays : daysPerWeek ≤ 7)
    (hij : i < j) : weekEnd startDate daysPerWeek i < weekStart startDate j := by
  have hlt : startDate + ((i : ℤ) - 1) * 7 + ((daysPerWeek : ℤ) - 1) <
      startDate + ((j : ℤ) - 1) * 7 := by omega
  exact hlt

/-- Live weeks that are laid out one a number are contiguous. -/
theorem contiguous_of_layout {week : ℕ → CycleWeek}
    (htotal : 1 ≤ c.totalWeeks ∧ c.totalWeeks ≤ 52) (hdays : 1 ≤ c.daysPerWeek ∧ c.daysPerWeek ≤ 7)
    (hlive : ∀ w, db.LiveWeek c.id w ↔ ∃ i, (1 ≤ i ∧ i ≤ c.totalWeeks) ∧ week i = w)
    (hnumber : ∀ i, (week i).weekNumber = i)
    (hstart : ∀ i, (week i).startDate = weekStart c.startDate i)
    (hend : ∀ i, (week i).endDate = weekEnd c.startDate c.daysPerWeek i)
    (hcycle : c.endDate = weekEnd c.startDate c.daysPerWeek c.totalWeeks) : db.Contiguous c where
  totalWeeks := htotal
  daysPerWeek := hdays
  number := by
    intro w hw
    obtain ⟨i, hi, rfl⟩ := (hlive w).mp hw
    rwa [hnumber]
  exists_week := fun i h1 hle => ⟨week i, (hlive _).mpr ⟨i, ⟨h1, hle⟩, rfl⟩, hnumber i⟩
  unique := by
    intro v w hv hw heq
    obtain ⟨i, -, rfl⟩ := (hlive v).mp hv
    obtain ⟨j, -, rfl⟩ := (hlive w).mp hw
    rw [hnumber, hnumber] at heq
    rw [heq]
  startDate := by
    intro w hw
    obtain ⟨i, -, rfl⟩ := (hlive w).mp hw
    rw [hstart, hnumber, weekStart_eq]
  endDate := by
    intro w hw
    obtain ⟨i, -, rfl⟩ := (hlive w).mp hw
    rw [hend, hstart, weekEnd]
  disjoint := by
    intro v w hv hw hne
    obtain ⟨i, -, rfl⟩ := (hlive v).mp hv
    obtain ⟨j, -, rfl⟩ := (hlive w).mp hw
    have hij : i ≠ j := fun heq => hne (heq ▸ rfl)
    rw [hend, hend, hstart, hstart]
    rcases Nat.lt_or_gt_of_ne hij with hlt | hlt
    · exact Or.inl (weekEnd_lt_weekStart c.startDate hdays.2 hlt)
    · exact Or.inr (weekEnd_lt_weekStart c.startDate hdays.2 hlt)
  cycleEnd := by
    intro w hw hlast
    obtain ⟨i, -, rfl⟩ := (hlive w).mp hw
    rw [hnumber] at hlast
    rw [hend, hcycle, hlast]

/-- A cycle stays contiguous when its calendar and its live weeks stay, apart from their flags. -/
theorem Db.Contiguous.of_live {f : CycleWeek → CycleWeek} {c' : Cycle} (h : db.Contiguous c)
    (hid : c'.id = c.id) (hstart : c'.startDate = c.startDate) (hend : c'.endDate = c.endDate)
    (hdays : c'.daysPerWeek = c.daysPerWeek) (htotal : c'.totalWeeks = c.totalWeeks)
    (hf : ∀ w, (f w).weekNumber = w.weekNumber ∧ (f w).startDate = w.startDate ∧
      (f w).endDate = w.endDate)
    (hlive : ∀ w, db'.LiveWeek c.id w ↔ ∃ v, db.LiveWeek c.id v ∧ f v = w) : db'.Contiguous c' where
  totalWeeks := by rw [htotal]; exact h.totalWeeks
  daysPerWeek := by rw [hdays]; exact h.daysPerWeek
  number := by
    intro w hw
    rw [hid] at hw
    obtain ⟨v, hv, rfl⟩ := (hlive w).mp hw
    rw [(hf v).1, htotal]
    exact h.number v hv
  exists_week := by
    intro i h1 hle
    rw [htotal] at hle
    obtain ⟨v, hv, rfl⟩ := h.exists_week i h1 hle
    refine ⟨f v, ?_, (hf v).1⟩
    rw [hid]
    exact (hlive _).mpr ⟨v, hv, rfl⟩
  unique := by
    intro v w hv hw heq
    rw [hid] at hv hw
    obtain ⟨v₀, hv₀, rfl⟩ := (hlive v).mp hv
    obtain ⟨w₀, hw₀, rfl⟩ := (hlive w).mp hw
    rw [(hf v₀).1, (hf w₀).1] at heq
    rw [h.unique v₀ w₀ hv₀ hw₀ heq]
  startDate := by
    intro w hw
    rw [hid] at hw
    obtain ⟨v, hv, rfl⟩ := (hlive w).mp hw
    rw [(hf v).1, (hf v).2.1, hstart]
    exact h.startDate v hv
  endDate := by
    intro w hw
    rw [hid] at hw
    obtain ⟨v, hv, rfl⟩ := (hlive w).mp hw
    rw [(hf v).2.2, (hf v).2.1, hdays]
    exact h.endDate v hv
  disjoint := by
    intro v w hv hw hne
    rw [hid] at hv hw
    obtain ⟨v₀, hv₀, rfl⟩ := (hlive v).mp hv
    obtain ⟨w₀, hw₀, rfl⟩ := (hlive w).mp hw
    rw [(hf v₀).2.1, (hf v₀).2.2, (hf w₀).2.1, (hf w₀).2.2]
    exact h.disjoint v₀ w₀ hv₀ hw₀ fun heq => hne (heq ▸ rfl)
  cycleEnd := by
    intro w hw hlast
    rw [hid] at hw
    obtain ⟨v, hv, rfl⟩ := (hlive w).mp hw
    rw [(hf v).1, htotal] at hlast
    rw [(hf v).2.2, hend]
    exact h.cycleEnd v hv hlast

end Layout

section Saving

variable {db db' : Db} {w : CycleWeek}

/-- A week is listed among those of its number or after it. -/
theorem mem_insertByWeekNumber {week : CycleWeek} {weeks : List CycleWeek} :
    w ∈ insertByWeekNumber week weeks ↔ w = week ∨ w ∈ weeks := by
  induction weeks with
  | nil => simp [insertByWeekNumber]
  | cons v weeks ih =>
    unfold insertByWeekNumber
    split
    · simp
    · rw [List.mem_cons, ih, List.mem_cons]
      exact or_left_comm

/-- The weeks that are listed for a cycle are its live ones. -/
theorem mem_weeksOf {cycleId : Uuid} : w ∈ db.weeksOf cycleId ↔ db.LiveWeek cycleId w := by
  have hmem : ∀ weeks : List CycleWeek, w ∈ weeks.foldr insertByWeekNumber [] ↔ w ∈ weeks := by
    intro weeks
    induction weeks with
    | nil => rfl
    | cons v weeks ih =>
      rw [List.foldr_cons, mem_insertByWeekNumber, ih, List.mem_cons]
  unfold Db.weeksOf Db.LiveWeek Table.filter
  rw [hmem, List.mem_filter, Bool.and_eq_true, beq_iff_eq, Bool.not_eq_true']

/-- A saved week replaces the row of its identifier. -/
theorem mem_saveWeekIn {week : CycleWeek} (hlive : week.deleted = false)
    (hrow : ∀ row ∈ db.weeks.rows, row.id = week.id → row.deleted = false) :
    w ∈ (saveWeekIn week db).weeks.rows ↔
      (w ∈ db.weeks.rows ∧ w.id ≠ week.id) ∨ w = week := by
  unfold saveWeekIn
  cases hfind : db.weeks.find week.id with
  | none =>
    have hnone := Table.find_eq_none.mp hfind
    have hfresh : key week ∉ db.weeks.rows.map key := by
      intro hmem
      obtain ⟨v, hv, hkey⟩ := List.mem_map.mp hmem
      exact hnone v hv hkey
    simp only [Option.isSome_none, Bool.false_eq_true, if_false, Table.insert, hfresh, dite_false,
      List.mem_append, List.mem_singleton]
    constructor
    · rintro (hw | rfl)
      · exact Or.inl ⟨hw, hnone w hw⟩
      · exact Or.inr rfl
    · rintro (⟨hw, -⟩ | rfl)
      · exact Or.inl hw
      · exact Or.inr rfl
  | some old =>
    have hold : old ∈ db.weeks.rows := Table.mem_of_find hfind
    have hid : old.id = week.id := Table.key_of_find (k := week.id) hfind
    have hwritten : ({ week with id := old.id, deleted := old.deleted } : CycleWeek) = week := by
      rw [hrow old hold hid, hid, ← hlive]
    simp only [Option.isSome_some, if_true, Table.modify, List.mem_map]
    constructor
    · rintro ⟨v, hv, rfl⟩
      by_cases hkey : key v = week.id
      · have hv' : v = old := Table.eq_of_key_eq hv hold (hkey.trans hid.symm)
        rw [if_pos hkey, hv', hwritten]
        exact Or.inr rfl
      · rw [if_neg hkey]
        exact Or.inl ⟨hv, hkey⟩
    · rintro (⟨hw, hne⟩ | rfl)
      · exact ⟨w, hw, if_neg hne⟩
      · refine ⟨old, hold, ?_⟩
        have hkey : key old = w.id := hid
        rw [if_pos hkey, hwritten]

/-- Saving weeks replaces the rows of their identifiers, and touches nothing else. -/
theorem of_run_saveWeeksSafely {weeks : List CycleWeek} (hnodup : (weeks.map (·.id)).Nodup)
    (hlive : ∀ week ∈ weeks, week.deleted = false)
    (hrow : ∀ row ∈ db.weeks.rows, row.id ∈ weeks.map (·.id) → row.deleted = false)
    {jobs : List Empty} (h : (saveWeeksSafely weeks).run db = .ok ((), db', jobs)) :
    db'.cycles = db.cycles ∧ ∀ w, w ∈ db'.weeks.rows ↔
      (w ∈ db.weeks.rows ∧ w.id ∉ weeks.map (·.id)) ∨ w ∈ weeks := by
  induction weeks generalizing db jobs with
  | nil =>
    cases h
    simp
  | cons week weeks ih =>
    obtain ⟨_, db₁, _, _, hsave, hrest, -⟩ := Program.of_run_bind h
    unfold saveWeek at hsave
    rw [Program.run_attempt] at hsave
    split at hsave
    · cases hsave
    · cases hsave
      rw [List.map_cons, List.nodup_cons] at hnodup
      have hwrites : ∀ w, w ∈ (saveWeekIn week db).weeks.rows ↔
          (w ∈ db.weeks.rows ∧ w.id ≠ week.id) ∨ w = week := fun w =>
        mem_saveWeekIn (hlive week List.mem_cons_self) fun row hmem hid =>
          hrow row hmem (by rw [hid]; exact List.mem_cons_self)
      have hrow' : ∀ row ∈ (saveWeekIn week db).weeks.rows, row.id ∈ weeks.map (·.id) →
          row.deleted = false := by
        intro row hmem hid
        rcases (hwrites row).mp hmem with ⟨hmem, -⟩ | rfl
        · exact hrow row hmem (List.mem_cons_of_mem _ hid)
        · exact hlive row List.mem_cons_self
      obtain ⟨hcycles, hmem⟩ :=
        ih hnodup.2 (fun v hv => hlive v (List.mem_cons_of_mem _ hv)) hrow' hrest
      refine ⟨hcycles, fun w => ?_⟩
      rw [hmem, hwrites, List.map_cons, List.mem_cons, List.mem_cons, not_or]
      constructor
      · rintro (⟨⟨hw, hne⟩ | rfl, hnot⟩ | hw)
        · exact Or.inl ⟨hw, hne, hnot⟩
        · exact Or.inr (Or.inl rfl)
        · exact Or.inr (Or.inr hw)
      · rintro (⟨hw, hne, hnot⟩ | rfl | hw)
        · exact Or.inl ⟨Or.inl ⟨hw, hne⟩, hnot⟩
        · exact Or.inl ⟨Or.inr rfl, hnodup.1⟩
        · exact Or.inr hw

end Saving

section Laying

/-- The week of a number, laid out anew. -/
def laidWeek (existing : List CycleWeek) (cycleId : Uuid) (weekIds : ℕ → Uuid) (startDate : Day)
    (daysPerWeek i : ℕ) : CycleWeek :=
  let week : CycleWeek :=
    { id := weekIds i
      cycleId := cycleId
      weekNumber := i
      startDate := weekStart startDate i
      endDate := weekEnd startDate daysPerWeek i
      isActive := true
      deleted := false }
  match existing.find? fun w => w.weekNumber == i with
  | some e => { week with id := e.id, isActive := e.isActive }
  | none => week

variable {existing : List CycleWeek} {cycleId : Uuid} {weekIds : ℕ → Uuid} {startDate : Day}
  {daysPerWeek totalWeeks i : ℕ}

/-- The weeks of an update, number by number. -/
theorem regrownWeeks_eq : regrownWeeks existing cycleId weekIds startDate daysPerWeek totalWeeks =
    (List.range' 1 totalWeeks).map (laidWeek existing cycleId weekIds startDate daysPerWeek) := by
  unfold regrownWeeks newWeeks
  rw [List.map_map]
  rfl

/-- The weeks of a new cycle are laid out where none are. -/
theorem newWeeks_eq : newWeeks cycleId weekIds startDate daysPerWeek totalWeeks =
    (List.range' 1 totalWeeks).map (laidWeek [] cycleId weekIds startDate daysPerWeek) := rfl

/-- What the layout of a week does not look at the existing weeks for. -/
theorem laidWeek_calendar (existing : List CycleWeek) (cycleId : Uuid) (weekIds : ℕ → Uuid)
    (startDate : Day) (daysPerWeek i : ℕ) :
    (laidWeek existing cycleId weekIds startDate daysPerWeek i).cycleId = cycleId ∧
      (laidWeek existing cycleId weekIds startDate daysPerWeek i).weekNumber = i ∧
      (laidWeek existing cycleId weekIds startDate daysPerWeek i).startDate =
        weekStart startDate i ∧
      (laidWeek existing cycleId weekIds startDate daysPerWeek i).endDate =
        weekEnd startDate daysPerWeek i ∧
      (laidWeek existing cycleId weekIds startDate daysPerWeek i).deleted = false := by
  unfold laidWeek
  split <;> exact ⟨rfl, rfl, rfl, rfl, rfl⟩

/-- A week that was there keeps its row and its flag, and another one gets a drawn identifier. -/
theorem laidWeek_row (existing : List CycleWeek) (cycleId : Uuid) (weekIds : ℕ → Uuid)
    (startDate : Day) (daysPerWeek i : ℕ) :
    (∃ e ∈ existing, e.weekNumber = i ∧
        (laidWeek existing cycleId weekIds startDate daysPerWeek i).id = e.id ∧
        (laidWeek existing cycleId weekIds startDate daysPerWeek i).isActive = e.isActive) ∨
      ((∀ e ∈ existing, e.weekNumber ≠ i) ∧
        (laidWeek existing cycleId weekIds startDate daysPerWeek i).id = weekIds i) := by
  unfold laidWeek
  cases hfind : existing.find? fun w => w.weekNumber == i with
  | some e =>
    have hnumber : e.weekNumber = i := by simpa using List.find?_some hfind
    exact Or.inl ⟨e, List.mem_of_find?_eq_some hfind, hnumber, rfl, rfl⟩
  | none =>
    refine Or.inr ⟨fun e he => ?_, rfl⟩
    simpa using List.find?_eq_none.mp hfind e he

/-- The last of some weeks ends the cycle. -/
theorem lastEnd_laid (htotal : 1 ≤ totalWeeks) :
    lastEnd ((List.range' 1 totalWeeks).map
      (laidWeek existing cycleId weekIds startDate daysPerWeek)) =
      some (weekEnd startDate daysPerWeek totalWeeks) := by
  obtain ⟨n, rfl⟩ : ∃ n, totalWeeks = n + 1 := ⟨totalWeeks - 1, by omega⟩
  have hlast : (List.range' 1 (n + 1)).getLast? = some (n + 1) := by
    rw [List.range'_concat, List.getLast?_concat]
    congr 1
    omega
  unfold lastEnd
  rw [List.getLast?_map, hlast]
  exact congrArg some (laidWeek_calendar _ _ _ _ _ _).2.2.2.1

/-- A number of the calendar. -/
theorem mem_numbers : i ∈ List.range' 1 totalWeeks ↔ 1 ≤ i ∧ i ≤ totalWeeks := by
  rw [List.mem_range'_1]
  omega

variable {db db' : Db}

/-- The rows of weeks that are laid out are distinct, and none of them has been deleted. -/
theorem nodup_laid (hexisting : ∀ w, w ∈ existing ↔ db.LiveWeek cycleId w)
    (hdraws : ((List.range' 1 52).map weekIds).Nodup)
    (hfresh : ∀ i ∈ (List.range' 1 52).map weekIds, db.weeks.find i = none)
    (htotal : totalWeeks ≤ 52) :
    (((List.range' 1 totalWeeks).map
      (laidWeek existing cycleId weekIds startDate daysPerWeek)).map (·.id)).Nodup := by
  have hunused : ∀ j, 1 ≤ j → j ≤ totalWeeks → ∀ e ∈ existing, e.id ≠ weekIds j := by
    intro j h1 hj e he hid
    have hnone := hfresh (weekIds j) (List.mem_map_of_mem (mem_numbers.mpr ⟨h1, by omega⟩))
    exact Table.find_eq_none.mp hnone e ((hexisting e).mp he).1 hid
  rw [List.map_map]
  refine List.Nodup.map_on (fun i hi j hj heq => ?_) List.nodup_range'
  obtain ⟨hi1, hi⟩ := mem_numbers.mp hi
  obtain ⟨hj1, hj⟩ := mem_numbers.mp hj
  simp only [Function.comp_apply] at heq
  rcases laidWeek_row existing cycleId weekIds startDate daysPerWeek i with
    ⟨e, he, hei, hid, -⟩ | ⟨-, hid⟩ <;>
  rcases laidWeek_row existing cycleId weekIds startDate daysPerWeek j with
    ⟨e', he', hej, hid', -⟩ | ⟨-, hid'⟩ <;>
  rw [hid, hid'] at heq
  · have hsame : e = e' :=
      Table.eq_of_key_eq ((hexisting e).mp he).1 ((hexisting e').mp he').1 heq
    rw [← hei, ← hej, hsame]
  · exact absurd heq (hunused j hj1 hj e he)
  · exact absurd heq.symm (hunused i hi1 hi e' he')
  · exact List.inj_on_of_nodup_map hdraws (mem_numbers.mpr ⟨hi1, by omega⟩)
      (mem_numbers.mpr ⟨hj1, by omega⟩) heq

/-- The database in which the weeks of a new layout are saved: those beyond it are deleted. -/
def droppedIn (existing weeks : List CycleWeek) (db : Db) : Db :=
  softDeleteWeeksIn ((existing.filter fun w => !(weeks.map (·.id)).contains w.id).map (·.id)) db

/-- After the weeks beyond a layout have been deleted the other rows are as before. -/
theorem mem_droppedIn {weeks : List CycleWeek} {w : CycleWeek}
    (hexisting : ∀ w, w ∈ existing ↔ db.LiveWeek cycleId w) :
    w ∈ (droppedIn existing weeks db).weeks.rows ↔
      (w ∈ db.weeks.rows ∧ (w ∈ existing → w.id ∈ weeks.map (·.id))) ∨
        ∃ v ∈ existing, v.id ∉ weeks.map (·.id) ∧ { v with deleted := true } = w := by
  have hdropped : ∀ v ∈ db.weeks.rows,
      ((existing.filter fun w => !(weeks.map (·.id)).contains w.id).map (·.id)).contains v.id ↔
        v ∈ existing ∧ v.id ∉ weeks.map (·.id) := by
    intro v hv
    rw [List.contains_iff_mem, List.mem_map]
    constructor
    · rintro ⟨e, he, hid⟩
      obtain ⟨he, hout⟩ := List.mem_filter.mp he
      have hsame : e = v := Table.eq_of_key_eq ((hexisting e).mp he).1 hv hid
      subst hsame
      exact ⟨he, by simpa using hout⟩
    · rintro ⟨he, hout⟩
      exact ⟨v, List.mem_filter.mpr ⟨he, by simpa using hout⟩, rfl⟩
  unfold droppedIn softDeleteWeeksIn Table.modifyAll
  rw [List.mem_map]
  constructor
  · rintro ⟨v, hv, rfl⟩
    split
    · rename_i hgone
      obtain ⟨he, hout⟩ := (hdropped v hv).mp hgone
      exact Or.inr ⟨v, he, hout, rfl⟩
    · rename_i hkept
      refine Or.inl ⟨hv, fun he => ?_⟩
      by_contra hout
      exact hkept ((hdropped v hv).mpr ⟨he, hout⟩)
  · rintro (⟨hw, hkept⟩ | ⟨v, hv, hout, rfl⟩)
    · refine ⟨w, hw, if_neg fun hgone => ?_⟩
      obtain ⟨he, hout⟩ := (hdropped w hw).mp hgone
      exact hout (hkept he)
    · have hmem := ((hexisting v).mp hv).1
      exact ⟨v, hmem, if_pos ((hdropped v hmem).mpr ⟨hv, hout⟩)⟩

/-- **What a layout leaves:** the weeks of the cycle are those that were laid out, and the live
weeks of the other cycles are the same. -/
theorem of_run_layout (hexisting : ∀ w, w ∈ existing ↔ db.LiveWeek cycleId w)
    (hdraws : ((List.range' 1 52).map weekIds).Nodup)
    (hfresh : ∀ i ∈ (List.range' 1 52).map weekIds, db.weeks.find i = none)
    (htotal : totalWeeks ≤ 52) {weeks : List CycleWeek}
    (hweeks : weeks = (List.range' 1 totalWeeks).map
      (laidWeek existing cycleId weekIds startDate daysPerWeek)) {jobs : List Empty}
    (h : (saveWeeksSafely weeks).run (droppedIn existing weeks db) = .ok ((), db', jobs)) :
    db'.cycles = db.cycles ∧
      (∀ w, db'.LiveWeek cycleId w ↔ ∃ i, (1 ≤ i ∧ i ≤ totalWeeks) ∧
        laidWeek existing cycleId weekIds startDate daysPerWeek i = w) ∧
      (∀ other w, other ≠ cycleId → (db'.LiveWeek other w ↔ db.LiveWeek other w)) ∧
      ∀ w ∈ db'.weeks.rows, w.cycleId = cycleId ∨ ∃ v ∈ db.weeks.rows, v.cycleId = w.cycleId := by
  have hlaid : ∀ w, w ∈ weeks ↔ ∃ i, (1 ≤ i ∧ i ≤ totalWeeks) ∧
      laidWeek existing cycleId weekIds startDate daysPerWeek i = w := by
    intro w
    simp only [hweeks, List.mem_map, mem_numbers]
  have hnodup := @nodup_laid existing cycleId weekIds startDate daysPerWeek totalWeeks db hexisting
    hdraws hfresh htotal
  rw [← hweeks] at hnodup
  have howner : ∀ row ∈ db.weeks.rows, row.id ∈ weeks.map (·.id) → row ∈ existing := by
    intro row hmem hid
    obtain ⟨week, hweek, hid⟩ := List.mem_map.mp hid
    obtain ⟨i, ⟨h1, hi⟩, rfl⟩ := (hlaid week).mp hweek
    rcases laidWeek_row existing cycleId weekIds startDate daysPerWeek i with
      ⟨e, he, -, hrow, -⟩ | ⟨-, hdrawn⟩
    · have hsame : e = row :=
        Table.eq_of_key_eq ((hexisting e).mp he).1 hmem (hrow.symm.trans hid)
      exact hsame ▸ he
    · have hnone := hfresh (weekIds i) (List.mem_map_of_mem (mem_numbers.mpr ⟨h1, by omega⟩))
      exact absurd (hid.symm.trans hdrawn) (Table.find_eq_none.mp hnone row hmem)
  have hlive : ∀ week ∈ weeks, week.deleted = false := by
    intro week hweek
    obtain ⟨i, -, rfl⟩ := (hlaid week).mp hweek
    exact (laidWeek_calendar _ _ _ _ _ _).2.2.2.2
  have hrow : ∀ row ∈ (droppedIn existing weeks db).weeks.rows, row.id ∈ weeks.map (·.id) →
      row.deleted = false := by
    intro row hmem hid
    rcases (mem_droppedIn hexisting).mp hmem with ⟨hold, -⟩ | ⟨v, -, hout, rfl⟩
    · exact ((hexisting row).mp (howner row hold hid)).2.2
    · exact absurd hid hout
  obtain ⟨hcycles, hmem⟩ := of_run_saveWeeksSafely hnodup hlive hrow h
  refine ⟨hcycles, fun w => ?_, fun other w hne => ?_, fun w hw => ?_⟩
  · rw [← hlaid w]
    constructor
    · rintro ⟨hw, hcycle, hdeleted⟩
      refine ((hmem w).mp hw).resolve_left ?_
      rintro ⟨hkept, hout⟩
      rcases (mem_droppedIn hexisting).mp hkept with ⟨hold, hin⟩ | ⟨v, -, -, rfl⟩
      · exact hout (hin ((hexisting w).mpr ⟨hold, hcycle, hdeleted⟩))
      · cases hdeleted
    · intro hw
      obtain ⟨i, -, rfl⟩ := (hlaid w).mp hw
      exact ⟨(hmem _).mpr (Or.inr hw), (laidWeek_calendar _ _ _ _ _ _).1, hlive _ hw⟩
  · constructor
    · rintro ⟨hw, hcycle, hdeleted⟩
      rcases (hmem w).mp hw with ⟨hkept, -⟩ | hw
      · rcases (mem_droppedIn hexisting).mp hkept with ⟨hold, -⟩ | ⟨v, -, -, rfl⟩
        · exact ⟨hold, hcycle, hdeleted⟩
        · cases hdeleted
      · obtain ⟨i, -, rfl⟩ := (hlaid w).mp hw
        exact absurd (hcycle.symm.trans (laidWeek_calendar _ _ _ _ _ _).1) hne
    · rintro ⟨hw, hcycle, hdeleted⟩
      have hforeign : w ∉ existing := fun he =>
        hne (hcycle.symm.trans ((hexisting w).mp he).2.1)
      have hkept := (@mem_droppedIn existing cycleId db weeks w hexisting).mpr
        (Or.inl ⟨hw, fun he => absurd he hforeign⟩)
      have hout : w.id ∉ weeks.map (·.id) := fun hin => hforeign (howner w hw hin)
      exact ⟨(hmem w).mpr (Or.inl ⟨hkept, hout⟩), hcycle, hdeleted⟩
  · rcases (hmem w).mp hw with ⟨hkept, -⟩ | hw
    · rcases (mem_droppedIn hexisting).mp hkept with ⟨hold, -⟩ | ⟨v, hv, -, rfl⟩
      · exact Or.inr ⟨w, hold, rfl⟩
      · exact Or.inl ((hexisting v).mp hv).2.1
    · obtain ⟨i, -, rfl⟩ := (hlaid w).mp hw
      exact Or.inl (laidWeek_calendar _ _ _ _ _ _).1

end Laying

section Steps

variable {db db' : Db}

/-- Without weeks to drop nothing is deleted. -/
theorem droppedIn_nil (weeks : List CycleWeek) (db : Db) : droppedIn [] weeks db = db := by
  have hweeks : (droppedIn [] weeks db).weeks = db.weeks := by
    apply Table.ext_rows
    simp [droppedIn, softDeleteWeeksIn, Table.modifyAll]
  exact congrArg (fun t => { db with weeks := t }) hweeks

/-- Contiguity looks at the live weeks of the cycle only. -/
theorem Db.Contiguous.congr {c : Cycle} (h : db.Contiguous c)
    (hlive : ∀ w, db'.LiveWeek c.id w ↔ db.LiveWeek c.id w) : db'.Contiguous c :=
  h.of_live (f := fun w => w) rfl rfl rfl rfl rfl (fun _ => ⟨rfl, rfl, rfl⟩) fun w => by
    rw [hlive]
    exact ⟨fun hw => ⟨w, hw, rfl⟩, fun ⟨v, hv, heq⟩ => heq ▸ hv⟩

/-- In a calendar the live weeks of one number are one row. -/
theorem Db.Calendar.unique (h : db.Calendar) {cycleId : Uuid} {v w : CycleWeek}
    (hv : db.LiveWeek cycleId v) (hw : db.LiveWeek cycleId w)
    (heq : v.weekNumber = w.weekNumber) : v = w := by
  obtain ⟨c, hc, hid⟩ := h.cycle v hv.1
  rw [hv.2.1] at hid
  subst hid
  exact (h.contiguous c hc).unique v w hv hw heq

/-- A change of one cycle keeps the calendar when that cycle is contiguous afterwards and the weeks
of the others stay. -/
theorem calendar_of_change (hdb : db.Calendar) (id : Uuid)
    (hcycles : ∀ c ∈ db'.cycles.rows, c.id ≠ id → c ∈ db.cycles.rows)
    (hids : ∀ c ∈ db.cycles.rows, ∃ c' ∈ db'.cycles.rows, c'.id = c.id)
    (hcycle : ∃ c' ∈ db'.cycles.rows, c'.id = id)
    (hcontiguous : ∀ c ∈ db'.cycles.rows, c.id = id → db'.Contiguous c)
    (hlive : ∀ other w, other ≠ id → (db'.LiveWeek other w ↔ db.LiveWeek other w))
    (hweeks : ∀ w ∈ db'.weeks.rows, w.cycleId = id ∨ ∃ v ∈ db.weeks.rows, v.cycleId = w.cycleId) :
    db'.Calendar where
  contiguous := by
    intro c hc
    by_cases hid : c.id = id
    · exact hcontiguous c hc hid
    · exact (hdb.contiguous c (hcycles c hc hid)).congr fun w => hlive c.id w hid
  cycle := by
    intro w hw
    rcases hweeks w hw with hid | ⟨v, hv, hvid⟩
    · obtain ⟨c, hc, hcid⟩ := hcycle
      exact ⟨c, hc, hcid.trans hid.symm⟩
    · obtain ⟨c, hc, hcid⟩ := hdb.cycle v hv
      obtain ⟨c', hc', hcid'⟩ := hids c hc
      exact ⟨c', hc', hcid'.trans (hcid.trans hvid)⟩

/-- A new cycle is contiguous. -/
theorem calendar_of_run_createCycle (hdb : db.Calendar) {dto : CreateCycle} {cycleId out : Uuid}
    {weekIds : ℕ → Uuid} (hdraws : ((List.range' 1 52).map weekIds).Nodup)
    (hfresh : ∀ i ∈ (List.range' 1 52).map weekIds, db.weeks.find i = none) {jobs : List Empty}
    (h : (createCycle dto cycleId weekIds).run db = .ok (out, db', jobs)) :
    db'.Calendar ∧ KeepsWeeks db db' := by
  unfold createCycle at h
  simp only [newWeeks_eq, lastEnd_laid dto.totalWeeks_mem.1] at h
  obtain ⟨_, db₁, _, _, hinsert, h₁, -⟩ := Program.of_run_bind h
  rw [Program.run_attempt] at hinsert
  split at hinsert
  · cases hinsert
  · rename_i hfree
    cases hinsert
    have hnone : db.cycles.find cycleId = none := by simpa using hfree
    have hunknown : ∀ w ∈ db.weeks.rows, w.cycleId ≠ cycleId := by
      intro w hw heq
      obtain ⟨c, hc, hid⟩ := hdb.cycle w hw
      exact Table.find_eq_none.mp hnone c hc (hid.trans heq)
    generalize hnew : Cycle.mk cycleId dto.name dto.year dto.startDate
      (weekEnd dto.startDate dto.daysPerWeek dto.totalWeeks) dto.daysPerWeek dto.totalWeeks true =
      new at h₁
    obtain ⟨_, db₂, _, _, hsave, h₂, -⟩ := Program.of_run_bind h₁
    cases h₂
    have hexisting : ∀ w, w ∈ ([] : List CycleWeek) ↔
        (insertCycleIn new db).LiveWeek cycleId w := by
      intro w
      refine ⟨fun hmem => absurd hmem List.not_mem_nil, fun hw => ?_⟩
      exact absurd hw.2.1 (hunknown w hw.1)
    have hsave' := hsave
    rw [← droppedIn_nil ((List.range' 1 dto.totalWeeks).map
      (laidWeek [] cycleId weekIds dto.startDate dto.daysPerWeek)) (insertCycleIn new db)] at hsave'
    obtain ⟨hcycles, hlive, hothers, hweeks⟩ :=
      of_run_layout hexisting hdraws hfresh dto.totalWeeks_mem.2 rfl hsave'
    have hrows : db'.cycles.rows = db.cycles.rows ++ [new] := by
      rw [hcycles]
      have hkey : key new ∉ db.cycles.rows.map key := by
        intro hmem
        obtain ⟨c, hc, hid⟩ := List.mem_map.mp hmem
        exact Table.find_eq_none.mp hnone c hc (hid.trans (congrArg Cycle.id hnew.symm))
      simp [insertCycleIn, Table.insert, hkey]
    have hid : new.id = cycleId := congrArg Cycle.id hnew.symm
    have hmem : ∀ c, c ∈ db'.cycles.rows ↔ c ∈ db.cycles.rows ∨ c = new := by
      intro c
      rw [hrows, List.mem_append, List.mem_singleton]
    refine ⟨calendar_of_change hdb cycleId ?_ ?_ ?_ ?_ hothers hweeks, ?_⟩
    · exact fun c hc hne => ((hmem c).mp hc).resolve_right fun heq => hne (heq ▸ hid)
    · exact fun c hc => ⟨c, (hmem c).mpr (Or.inl hc), rfl⟩
    · exact ⟨new, (hmem new).mpr (Or.inr rfl), hid⟩
    · intro c hc hcid
      have hsame : c = new := by
        refine ((hmem c).mp hc).resolve_left fun hold => ?_
        exact Table.find_eq_none.mp hnone c hold hcid
      rw [← hcid] at hlive
      subst hsame
      subst hnew
      exact contiguous_of_layout dto.totalWeeks_mem dto.daysPerWeek_mem hlive
        (fun i => (laidWeek_calendar _ _ _ _ _ i).2.1)
        (fun i => (laidWeek_calendar _ _ _ _ _ i).2.2.1)
        (fun i => (laidWeek_calendar _ _ _ _ _ i).2.2.2.1) rfl
    · intro other v w hv hw heq
      have hne : other ≠ cycleId := fun hother => hunknown v hv.1 (hv.2.1.trans hother)
      have hw' := (hothers other w hne).mp hw
      obtain rfl := hdb.unique hv hw' heq
      exact ⟨rfl, rfl⟩

/-- Where the dates and the length stay, so do the columns that hold them. -/
theorem columns_of_not_needsRecalculation {dto : UpdateCycle} {c : Cycle}
    (h : needsRecalculation dto c = false) :
    dto.startDate.getD c.startDate = c.startDate ∧
      dto.daysPerWeek.getD c.daysPerWeek = c.daysPerWeek ∧
      dto.totalWeeks.getD c.totalWeeks = c.totalWeeks := by
  have hsame : ∀ {α : Type} [BEq α] [LawfulBEq α] (o : Option α) (a : α),
      (o.isSome && o != some a) = false → o.getD a = a := by
    intro α _ _ o a ho
    cases o with
    | none => rfl
    | some b => simpa using ho
  unfold needsRecalculation at h
  rw [Bool.or_eq_false_iff, Bool.or_eq_false_iff] at h
  exact ⟨hsame _ _ h.1.1, hsame _ _ h.1.2, hsame _ _ h.2⟩

/-- The bounds of the columns of an update. -/
theorem bounds_of_update (dto : UpdateCycle) {c : Cycle} (h : db.Contiguous c) :
    (1 ≤ dto.totalWeeks.getD c.totalWeeks ∧ dto.totalWeeks.getD c.totalWeeks ≤ 52) ∧
      1 ≤ dto.daysPerWeek.getD c.daysPerWeek ∧ dto.daysPerWeek.getD c.daysPerWeek ≤ 7 := by
  constructor
  · cases hweeks : dto.totalWeeks with
    | none => exact h.totalWeeks
    | some n => exact dto.totalWeeks_mem n hweeks
  · cases hdays : dto.daysPerWeek with
    | none => exact h.daysPerWeek
    | some n => exact dto.daysPerWeek_mem n hdays

/-- The rows of the cycles after the columns of one have been written. -/
theorem mem_updateCycleIn {id : Uuid} {dto : UpdateCycle} {weeks : List CycleWeek} {c : Cycle}
    (hfind : db.cycles.find id = some c) {c' : Cycle} :
    c' ∈ (updateCycleIn id dto weeks db).cycles.rows ↔
      (c' ∈ db.cycles.rows ∧ c'.id ≠ id) ∨ c' = updateCycleColumns dto weeks c := by
  have hc : c ∈ db.cycles.rows := Table.mem_of_find hfind
  have hid : c.id = id := Table.key_of_find (k := id) hfind
  unfold updateCycleIn Table.modify
  rw [List.mem_map]
  constructor
  · rintro ⟨c₀, hc₀, rfl⟩
    by_cases hkey : key c₀ = id
    · have hsame : c₀ = c := Table.eq_of_key_eq hc₀ hc (hkey.trans hid.symm)
      rw [if_pos hkey, hsame]
      exact Or.inr rfl
    · rw [if_neg hkey]
      exact Or.inl ⟨hc₀, hkey⟩
  · rintro (⟨hc', hne⟩ | rfl)
    · exact ⟨c', hc', if_neg hne⟩
    · exact ⟨c, hc, if_pos hid⟩

/-- What an update that ran to its end has done. -/
theorem of_run_updateCycle {id : Uuid} {dto : UpdateCycle} {weekIds : ℕ → Uuid} {jobs : List Empty}
    (h : (updateCycle id dto weekIds).run db = .ok ((), db', jobs)) :
    ∃ c, db.cycles.find id = some c ∧
      ((needsRecalculation dto c = false ∧ db' = updateCycleIn id dto [] db) ∨
        ∃ weeks more, weeks = regrownWeeks (db.weeksOf id) id weekIds
            (dto.startDate.getD c.startDate) (dto.daysPerWeek.getD c.daysPerWeek)
            (dto.totalWeeks.getD c.totalWeeks) ∧
          (writeCycle id dto weeks).run db = .ok ((), db', more)) := by
  unfold updateCycle getCycleWithSyllabus at h
  simp only [Program.bind_eq, Program.run_select_bind] at h
  cases hfind : db.cycles.find id with
  | none =>
    rw [hfind] at h
    cases h
  | some c =>
    rw [hfind] at h
    simp only [Option.map_some] at h
    refine ⟨c, rfl, ?_⟩
    split at h
    · cases h
    · split at h
      · unfold getWeeksByCycle at h
        simp only [Program.run_select_bind] at h
        exact Or.inr ⟨_, _, rfl, h⟩
      · rename_i hneeds
        unfold writeCycle at h
        obtain ⟨_, db₁, _, _, hwrite, h₁, -⟩ := Program.of_run_bind h
        cases hwrite
        cases h₁
        exact Or.inl ⟨by simpa using hneeds, rfl⟩

/-- An update lays the weeks of a cycle out again, or leaves them. -/
theorem calendar_of_run_updateCycle (hdb : db.Calendar) {id : Uuid} {dto : UpdateCycle}
    {weekIds : ℕ → Uuid} (hdraws : ((List.range' 1 52).map weekIds).Nodup)
    (hfresh : ∀ i ∈ (List.range' 1 52).map weekIds, db.weeks.find i = none) {jobs : List Empty}
    (h : (updateCycle id dto weekIds).run db = .ok ((), db', jobs)) :
    db'.Calendar ∧ KeepsWeeks db db' := by
  obtain ⟨c, hfind, hrun⟩ := of_run_updateCycle h
  have hc : c ∈ db.cycles.rows := Table.mem_of_find hfind
  have hid : c.id = id := Table.key_of_find (k := id) hfind
  have hcontiguous := hdb.contiguous c hc
  have hids : ∀ weeks, ∀ c₀ ∈ db.cycles.rows,
      ∃ c' ∈ (updateCycleIn id dto weeks db).cycles.rows, c'.id = c₀.id := by
    intro weeks c₀ hc₀
    by_cases hne : c₀.id = id
    · exact ⟨_, (mem_updateCycleIn hfind).mpr (Or.inr rfl), hid.trans hne.symm⟩
    · exact ⟨c₀, (mem_updateCycleIn hfind).mpr (Or.inl ⟨hc₀, hne⟩), rfl⟩
  have hcolumns : ∀ weeks, ∀ c' ∈ (updateCycleIn id dto weeks db).cycles.rows, c'.id = id →
      c' = updateCycleColumns dto weeks c :=
    fun weeks c' hc' hcid => ((mem_updateCycleIn hfind).mp hc').resolve_left fun hold =>
      hold.2 hcid
  have hothers : ∀ weeks, ∀ c' ∈ (updateCycleIn id dto weeks db).cycles.rows, c'.id ≠ id →
      c' ∈ db.cycles.rows := by
    intro weeks c' hc' hne
    rcases (mem_updateCycleIn hfind).mp hc' with ⟨hold, -⟩ | rfl
    · exact hold
    · exact absurd hid hne
  rcases hrun with ⟨hneeds, rfl⟩ | ⟨weeks, more, hweeks, hwrite⟩
  · -- Neither the dates nor the weeks change.
    obtain ⟨hstart, hdays, htotal⟩ := columns_of_not_needsRecalculation hneeds
    refine ⟨calendar_of_change hdb id (hothers []) (hids [])
      ⟨_, (mem_updateCycleIn hfind).mpr (Or.inr rfl), hid⟩ ?_ (fun _ _ _ => Iff.rfl)
      fun w hw => Or.inr ⟨w, hw, rfl⟩, ?_⟩
    · intro c' hc' hcid
      rw [hcolumns [] c' hc' hcid]
      exact hcontiguous.of_live (f := fun w => w) rfl hstart rfl hdays htotal
        (fun _ => ⟨rfl, rfl, rfl⟩) fun w => ⟨fun hw => ⟨w, hw, rfl⟩, fun ⟨v, hv, heq⟩ => heq ▸ hv⟩
    · intro cycleId v w hv hw heq
      obtain rfl := hdb.unique hv hw heq
      exact ⟨rfl, rfl⟩
  · obtain ⟨htotal, hdays⟩ := bounds_of_update dto hcontiguous
    rw [regrownWeeks_eq] at hweeks
    have hne : weeks.isEmpty = false := by
      rw [hweeks, List.isEmpty_map, List.isEmpty_eq_false_iff, Ne, List.range'_eq_nil_iff]
      omega
    have hlast : lastEnd weeks = some (weekEnd (dto.startDate.getD c.startDate)
        (dto.daysPerWeek.getD c.daysPerWeek) (dto.totalWeeks.getD c.totalWeeks)) := by
      rw [hweeks]
      exact lastEnd_laid htotal.1
    unfold writeCycle at hwrite
    obtain ⟨_, db₁, _, _, hcycle, h₁, -⟩ := Program.of_run_bind hwrite
    cases hcycle
    rw [hne] at h₁
    simp only [Bool.false_eq_true, if_false, getWeeksByCycle, Program.bind_eq,
      Program.run_select_bind, Program.run_write_bind] at h₁
    have hexisting : ∀ w, w ∈ db.weeksOf id ↔ (updateCycleIn id dto weeks db).LiveWeek id w :=
      fun w => mem_weeksOf
    have hfresh' : ∀ i ∈ (List.range' 1 52).map weekIds,
        (updateCycleIn id dto weeks db).weeks.find i = none := hfresh
    obtain ⟨hcycles, hlive, hforeign, hrows⟩ :=
      of_run_layout hexisting hdraws hfresh' htotal.2 hweeks h₁
    have hcycles' : ∀ c', c' ∈ db'.cycles.rows ↔
        c' ∈ (updateCycleIn id dto weeks db).cycles.rows := fun c' => by rw [hcycles]
    refine ⟨calendar_of_change hdb id ?_ ?_ ?_ ?_ hforeign hrows, ?_⟩
    · exact fun c' hc' hne => hothers weeks c' ((hcycles' c').mp hc') hne
    · intro c₀ hc₀
      obtain ⟨c', hc', heq⟩ := hids weeks c₀ hc₀
      exact ⟨c', (hcycles' c').mpr hc', heq⟩
    · obtain ⟨c', hc', heq⟩ := hids weeks c hc
      exact ⟨c', (hcycles' c').mpr hc', heq.trans hid⟩
    · intro c' hc' hcid
      rw [← hcid] at hlive
      rw [hcolumns weeks c' ((hcycles' c').mp hc') hcid] at hlive ⊢
      refine contiguous_of_layout htotal hdays hlive
        (fun i => (laidWeek_calendar _ _ _ _ _ i).2.1)
        (fun i => (laidWeek_calendar _ _ _ _ _ i).2.2.1)
        (fun i => (laidWeek_calendar _ _ _ _ _ i).2.2.2.1) ?_
      unfold updateCycleColumns
      rw [hlast]
      rfl
    · intro cycleId v w hv hw heq
      by_cases hsame : cycleId = id
      · subst hsame
        obtain ⟨i, -, rfl⟩ := (hlive w).mp hw
        rw [(laidWeek_calendar _ _ _ _ _ i).2.1] at heq
        rcases laidWeek_row (db.weeksOf cycleId) cycleId weekIds _ _ i with
          ⟨e, he, hei, hrow, hactive⟩ | ⟨hnone, -⟩
        · obtain rfl := hdb.unique (mem_weeksOf.mp he) hv (hei.trans heq.symm)
          exact ⟨hrow, hactive⟩
        · exact absurd heq (hnone v (mem_weeksOf.mpr hv))
      · obtain rfl := hdb.unique hv ((hforeign cycleId w hsame).mp hw) heq
        exact ⟨rfl, rfl⟩

/-- A statement that touches neither the cycles nor their weeks. -/
def KeepsCalendar (v : Db) (_ : List Row) (change : Db → Db) : Prop :=
  (change v).cycles = v.cycles ∧ (change v).weeks = v.weeks

/-- What touches neither the cycles nor their weeks keeps the calendar. -/
theorem calendar_of_keeps {α : Type} {p : Tx α} (hp : p.Writes KeepsCalendar) (hdb : db.Calendar)
    {a : α} {jobs : List Empty} (h : p.run db = .ok (a, db', jobs)) : db'.Calendar := by
  have hkeeps : p.Writes fun v _ change => v.Calendar → (change v).Calendar := by
    refine hp.mono fun v _ change hchange hv => ?_
    obtain ⟨hcycles, hweeks⟩ := hchange
    have hlive : ∀ cycleId w, (change v).LiveWeek cycleId w ↔ v.LiveWeek cycleId w := by
      intro cycleId w
      unfold Db.LiveWeek
      rw [hweeks]
    constructor
    · intro c hc
      rw [hcycles] at hc
      exact (hv.contiguous c hc).congr (hlive c.id)
    · intro w hw
      rw [hweeks] at hw
      rw [hcycles]
      exact hv.cycle w hw
  exact hkeeps.of_run hdb h

/-- A clone touches neither the cycles nor their weeks. -/
theorem keepsCalendar_of_cloneWrite {change : Db → Db} (h : CloneWrite change) (v : Db) :
    (change v).cycles = v.cycles ∧ (change v).weeks = v.weeks := by
  cases h <;> exact ⟨rfl, rfl⟩

/-- A statement that may be refused and writes neither cycles nor weeks. -/
theorem keepsCalendar_attempt {locks : Db → List Row} {refused : Db → Bool} {change : Db → Db}
    {error : AcademicError} (h : ∀ v, (change v).cycles = v.cycles ∧ (change v).weeks = v.weeks) :
    (Program.attempt locks refused change error : Tx Unit).Writes KeepsCalendar :=
  Program.writes_attempt (fun _ => ⟨rfl, rfl⟩) fun v _ => h v

/-- A query writes nothing. -/
theorem keepsCalendar_select {α : Type} (f : Db → α) :
    (Program.select f : Tx α).Writes KeepsCalendar :=
  Program.writes_select (fun _ => ⟨rfl, rfl⟩) f

/-- Creating a syllabus touches neither the cycles nor their weeks. -/
theorem keepsCalendar_create (dto : CreateSyllabus) (id : Uuid) :
    (create dto id).Writes KeepsCalendar := by
  refine (keepsCalendar_select _).bind fun courseVisible => ?_
  split
  · trivial
  · refine (keepsCalendar_select _).bind fun existing => ?_
    cases existing with
    | some _ => trivial
    | none =>
      refine Program.Writes.bind ?_ fun _ => trivial
      exact writes_insertUnless (fun _ => ⟨rfl, rfl⟩) fun _ _ => ⟨rfl, rfl⟩

/-- Cloning a cycle touches neither the cycles nor their weeks. -/
theorem keepsCalendar_cloneCycleSyllabuses (normalize : String → String)
    (targetCycleId sourceCycleId : Uuid) (ids : CloneIds) :
    (cloneCycleSyllabuses normalize targetCycleId sourceCycleId ids).Writes KeepsCalendar := by
  refine (keepsCalendar_select _).bind fun sources => ?_
  split
  · trivial
  · refine (keepsCalendar_select _).bind fun weeks => ?_
    refine (keepsCalendar_select _).bind fun targets => ?_
    refine Program.Writes.bind ?_ fun _ => trivial
    refine (cloneWrites_cloneEach 0 _).mono fun v _ change hchange => ?_
    rcases hchange with hchange | ⟨s, -, -, -, rfl⟩
    · exact keepsCalendar_of_cloneWrite hchange v
    · exact ⟨rfl, rfl⟩

/-- Adding a cell touches neither the cycles nor their weeks. -/
theorem keepsCalendar_addDistribution (known : CatalogId → CatalogId → Bool) (syllabusId : Uuid)
    (dto : CreateDistribution) (id : Uuid) :
    (addDistribution known syllabusId dto id).Writes KeepsCalendar := by
  refine (keepsCalendar_select _).bind fun currentSum => ?_
  split
  · trivial
  · exact keepsCalendar_attempt fun _ => ⟨rfl, rfl⟩

/-- Changing a cell touches neither the cycles nor their weeks. -/
theorem keepsCalendar_updateDistributionQuantity (distId syllabusId : Uuid)
    (dto : UpdateDistribution) :
    (updateDistributionQuantity distId syllabusId dto).Writes KeepsCalendar := by
  have hwrite : (writeQuestionCount distId syllabusId dto.questionCount).Writes KeepsCalendar :=
    keepsCalendar_attempt fun _ => ⟨rfl, rfl⟩
  refine (keepsCalendar_select _).bind fun dist => ?_
  cases dist with
  | none => exact hwrite
  | some dist =>
    refine (keepsCalendar_select _).bind fun otherCellsSum => ?_
    split
    · trivial
    · exact hwrite

/-- The flag of a week is written beside its dates. -/
theorem calendar_setWeekActiveIn (hdb : db.Calendar) (id : Uuid) (isActive : Bool) :
    (setWeekActiveIn id isActive db).Calendar := by
  have hlive : ∀ cycleId w, (setWeekActiveIn id isActive db).LiveWeek cycleId w ↔
      ∃ v, db.LiveWeek cycleId v ∧ (if v.id = id then { v with isActive } else v) = w := by
    intro cycleId w
    constructor
    · rintro ⟨hw, hcycle, hdeleted⟩
      obtain ⟨v, hv, rfl⟩ := List.mem_map.mp hw
      refine ⟨v, ?_, rfl⟩
      by_cases hid : key v = id
      · rw [if_pos hid] at hcycle hdeleted
        exact ⟨hv, hcycle, hdeleted⟩
      · rw [if_neg hid] at hcycle hdeleted
        exact ⟨hv, hcycle, hdeleted⟩
    · rintro ⟨v, ⟨hv, hcycle, hdeleted⟩, rfl⟩
      refine ⟨List.mem_map.mpr ⟨v, hv, rfl⟩, ?_⟩
      split
      · exact ⟨hcycle, hdeleted⟩
      · exact ⟨hcycle, hdeleted⟩
  constructor
  · intro c hc
    refine (hdb.contiguous c hc).of_live (f := fun v => if v.id = id then { v with isActive } else v)
      rfl rfl rfl rfl rfl (fun v => ?_) (hlive c.id)
    split <;> exact ⟨rfl, rfl, rfl⟩
  · intro w hw
    obtain ⟨v, hv, rfl⟩ := List.mem_map.mp hw
    have hsame : (if key v = id then { v with isActive } else v).cycleId = v.cycleId := by
      split <;> rfl
    rw [hsame]
    exact hdb.cycle v hv

/-- The flag of a cycle is written beside its dates. -/
theorem calendar_setCycleActiveIn (hdb : db.Calendar) (id : Uuid) (isActive : Bool) :
    (setCycleActiveIn id isActive db).Calendar := by
  have hsame : ∀ c : Cycle, (if key c = id then { c with isActive } else c).id = c.id := by
    intro c
    split <;> rfl
  constructor
  · intro c hc
    obtain ⟨c₀, hc₀, rfl⟩ := List.mem_map.mp hc
    refine (hdb.contiguous c₀ hc₀).of_live (f := fun w => w) (hsame c₀) ?_ ?_ ?_ ?_
      (fun _ => ⟨rfl, rfl, rfl⟩) fun w => ⟨fun hw => ⟨w, hw, rfl⟩, fun ⟨v, hv, heq⟩ => heq ▸ hv⟩ <;>
    · split <;> rfl
  · intro w hw
    obtain ⟨c, hc, hid⟩ := hdb.cycle w hw
    exact ⟨_, List.mem_map.mpr ⟨c, hc, rfl⟩, (hsame c).trans hid⟩

/-- **Step lemma:** a call keeps the calendar, and one that edits a cycle keeps the rows of the weeks
whose numbers stay. -/
theorem calendar_after (setting : Setting) (step : Step) (hdraws : DrawsWeekIds step)
    (hdb : step.before.Calendar) : (step.after setting).Calendar ∧
      (step.EditsCycle → KeepsWeeks step.before (step.after setting)) := by
  rcases step.after_cases setting with ⟨e, -, heq⟩ | ⟨jobs, hrun⟩
  · rw [heq]
    refine ⟨hdb, fun _ cycleId v w hv hw hnumber => ?_⟩
    obtain rfl := hdb.unique hv hw hnumber
    exact ⟨rfl, rfl⟩
  · obtain ⟨db, call⟩ := step
    obtain ⟨hnodup, hfresh⟩ := hdraws
    unfold Step.answer at hrun
    dsimp only at hrun hdb hnodup hfresh ⊢
    generalize Step.after setting ⟨db, call⟩ = db' at hrun
    cases call with
    | whole call =>
      cases call with
      | createCycle dto cycleId weekIds =>
        obtain ⟨_, _, _, _, hcreate, hdone, -⟩ := Program.of_run_bind hrun
        cases hdone
        obtain ⟨hcalendar, hkeeps⟩ := calendar_of_run_createCycle hdb hnodup hfresh hcreate
        exact ⟨hcalendar, fun _ => hkeeps⟩
      | updateCycle id dto weekIds =>
        obtain ⟨hcalendar, hkeeps⟩ := calendar_of_run_updateCycle hdb hnodup hfresh hrun
        exact ⟨hcalendar, fun _ => hkeeps⟩
      | toggleCycleVisibility id isActive =>
        refine ⟨?_, fun hedits => hedits.elim⟩
        have hset := calendar_setCycleActiveIn hdb id isActive
        obtain ⟨_, db₁, _, _, hwrite, hrest, -⟩ := Program.of_run_bind hrun
        cases hwrite
        cases isActive with
        | true =>
          cases hrest
          exact hset
        | false =>
          have hdeactivate : (deactivateByCycleId id).Writes KeepsCalendar :=
            fun v => ⟨⟨rfl, rfl⟩, trivial⟩
          exact calendar_of_keeps hdeactivate hset hrest
      | create dto id =>
        refine ⟨?_, fun hedits => hedits.elim⟩
        obtain ⟨_, _, _, _, hcreate, hdone, -⟩ := Program.of_run_bind hrun
        cases hdone
        exact calendar_of_keeps (keepsCalendar_create dto id) hdb hcreate
      | archiveSyllabus id isActive =>
        refine ⟨?_, fun hedits => hedits.elim⟩
        have hkeeps : (archiveSyllabus id isActive).Writes KeepsCalendar :=
          keepsCalendar_attempt fun _ => ⟨rfl, rfl⟩
        exact calendar_of_keeps hkeeps hdb hrun
      | cloneSyllabus syllabusId sourceSyllabusId rowIds =>
        refine ⟨?_, fun hedits => hedits.elim⟩
        obtain ⟨_, _, _, _, hclone, hdone, -⟩ := Program.of_run_bind hrun
        cases hdone
        refine calendar_of_keeps ?_ hdb hclone
        exact (cloneWrites_cloneSyllabus _ _ _ _).mono fun v _ _ hchange =>
          keepsCalendar_of_cloneWrite hchange v
      | cloneCycleSyllabuses targetCycleId sourceCycleId ids =>
        refine ⟨?_, fun hedits => hedits.elim⟩
        obtain ⟨_, _, _, _, hclone, hdone, -⟩ := Program.of_run_bind hrun
        cases hdone
        exact calendar_of_keeps (keepsCalendar_cloneCycleSyllabuses _ _ _ _) hdb hclone
    | toggleWeekVisibility id isActive =>
      cases hrun
      exact ⟨calendar_setWeekActiveIn hdb id isActive, fun hedits => hedits.elim⟩
    | addDistribution syllabusId dto id =>
      exact ⟨calendar_of_keeps (keepsCalendar_addDistribution _ _ _ _) hdb hrun,
        fun hedits => hedits.elim⟩
    | updateDistributionQuantity distId syllabusId dto =>
      exact ⟨calendar_of_keeps (keepsCalendar_updateDistributionQuantity _ _ _) hdb hrun,
        fun hedits => hedits.elim⟩
    | deleteDistribution distId syllabusId =>
      have hkeeps : (deleteDistribution distId syllabusId).Writes KeepsCalendar :=
        keepsCalendar_attempt fun _ => ⟨rfl, rfl⟩
      exact ⟨calendar_of_keeps hkeeps hdb hrun, fun hedits => hedits.elim⟩

end Steps

/-- A new tenant has no weeks. -/
theorem calendar_provisioned (courses : List CatalogId) : (Db.provisioned courses).Calendar where
  contiguous := fun _ hc => absurd hc List.not_mem_nil
  cycle := fun _ hw => absurd hw List.not_mem_nil

/-- In every state of a run the weeks of all cycles are contiguous, and every call that creates or
updates a cycle keeps the rows of the numbers that stay. -/
def StaysContiguous (setting : Setting) (db : Db) (calls : List PlanningCall) : Prop :=
  (∀ state ∈ planningStates setting db calls, ∀ c ∈ state.cycles.rows, state.Contiguous c) ∧
    ∀ step ∈ planningSteps setting db calls, step.EditsCycle →
      KeepsWeeks step.before (step.after setting)

/-- **The weeks of a cycle stay contiguous**: from every calendar, such as the empty one of a new
tenant, whatever calls create cycles, change their dates, lengths and flags, or plan in them. -/
theorem staysContiguous (setting : Setting) (db : Db) (hdb : db.Calendar)
    (calls : List PlanningCall)
    (hdraws : ∀ step ∈ planningSteps setting db calls, DrawsWeekIds step) :
    StaysContiguous setting db calls := by
  have hstep : ∀ step : Step, DrawsWeekIds step → step.before.Calendar →
      (step.after setting).Calendar :=
    fun step hstep hbefore => (calendar_after setting step hstep hbefore).1
  constructor
  · intro state hstate
    exact (invariant_of_planningStates hdb hdraws hstep state hstate).contiguous
  · intro step hmem
    have hbefore := (invariant_of_planningSteps hdb hdraws hstep step hmem).1
    exact (calendar_after setting step (hdraws step hmem) hbefore).2

instance (step : Step) : Decidable (DrawsWeekIds step) :=
  inferInstanceAs (Decidable (step.call.weekIds.Nodup ∧
    ∀ i ∈ step.call.weekIds, step.before.weeks.find i = none))

/-- The year of the cycle below. -/
theorem threeWeeks_year : 2000 ≤ 2026 ∧ 2026 ≤ 2100 := by decide

/-- The days of its weeks. -/
theorem threeWeeks_days : 1 ≤ 5 ∧ 5 ≤ 7 := by decide

/-- Its weeks. -/
theorem threeWeeks_weeks : 1 ≤ 3 ∧ 3 ≤ 52 := by decide

/-- A cycle of three weeks of five days. -/
def threeWeeks : CreateCycle where
  name := "2026-I"
  year := 2026
  startDate := 0
  daysPerWeek := 5
  totalWeeks := 3
  year_mem := threeWeeks_year
  daysPerWeek_mem := threeWeeks_days
  totalWeeks_mem := threeWeeks_weeks

/-- The bounds of the update below. -/
theorem twoWeeks_mem : (∀ n, (none : Option ℕ) = some n → 2000 ≤ n ∧ n ≤ 2100) ∧
    (∀ n, some 6 = some n → 1 ≤ n ∧ n ≤ 7) ∧ ∀ n, some 2 = some n → 1 ≤ n ∧ n ≤ 52 := by
  refine ⟨?_, ?_, ?_⟩
  · rintro n ⟨⟩
  · rintro n ⟨⟩
    decide
  · rintro n ⟨⟩
    decide

/-- The cycle begins a day later and has two weeks of six days. -/
def twoWeeks : UpdateCycle where
  name := none
  year := none
  startDate := some 1
  daysPerWeek := some 6
  totalWeeks := some 2
  year_mem := twoWeeks_mem.1
  daysPerWeek_mem := twoWeeks_mem.2.1
  totalWeeks_mem := twoWeeks_mem.2.2

/-- A cycle is created, its second week is deactivated and it is shortened. -/
def shortening : List PlanningCall :=
  [.whole (.createCycle threeWeeks 1 (100 + ·)), .toggleWeekVisibility 102 false,
    .whole (.updateCycle 1 twoWeeks (200 + ·))]

/-- The run of `shortening` in a new tenant. -/
theorem staysContiguous_shortening :
    (∀ step ∈ planningSteps plainSetting (Db.provisioned []) shortening, DrawsWeekIds step) ∧
      StaysContiguous plainSetting (Db.provisioned []) shortening := by
  have hdraws : ∀ step ∈ planningSteps plainSetting (Db.provisioned []) shortening,
      DrawsWeekIds step := by decide +kernel
  exact ⟨hdraws, staysContiguous plainSetting (Db.provisioned []) (calendar_provisioned [])
    shortening hdraws⟩

end Odiseo.Syllabi
