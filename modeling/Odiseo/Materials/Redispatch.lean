import Odiseo.Materials.Sweep

/-!
# Sweeps of a request that is still running

A sweep that dispatches a request again writes its `updated_at`, so that the request is not
stale at the next tick. The ticks are fifteen minutes apart and a request is stale after
five, so the write protects a request from the next tick only when the sweep itself takes
more than ten minutes.
-/

namespace Odiseo.Materials

open Database

/-- One tick of the cron for a tenant: the database as the sweep finds it, the `updated_at` of
the other requests, and what happens around the sweep. -/
structure Tick where
  db : Db
  otherUpdatedAt : RequestId → ℕ
  inputs : SweepInputs

/-- The `updated_at` of all requests at a tick. -/
def Tick.updatedAt (t : Tick) (r : RequestId) (updatedAt : ℕ) : RequestId → ℕ := fun k =>
  if k = r then updatedAt else t.otherUpdatedAt k

/-- The sweep of a tick at which the request carries `updatedAt`. -/
def Tick.sweep (t : Tick) (r : RequestId) (updatedAt : ℕ) : Swept :=
  sweepStuckMaterialCourses t.db (t.updatedAt r updatedAt) t.inputs

/-- The jobs that the ticks of a run enqueue for a request that nothing but the sweeps
writes. -/
def redispatches (r : RequestId) (updatedAt : ℕ) : List Tick → List GeneratePdfJob
  | [] => []
  | t :: ts =>
    (t.sweep r updatedAt).jobs.filter (fun job => job.materialRequestId = r) ++
      redispatches r ((t.sweep r updatedAt).updatedAt r) ts

/-- The request keeps its courses, all of them `PROCESSING`. -/
def Tick.StillProcessing (t : Tick) (r : RequestId) : Prop :=
  (t.db.requests.find r).isSome = true ∧ t.db.coursesOf r ≠ [] ∧
    ∀ c ∈ t.db.coursesOf r, c.status = .processing

/-- `0 */15 * * * *`. -/
def sweepInterval : ℕ := 15 * minute

/-- The ticks of a run are a quarter of an hour apart: the sweep of each tick runs between its
tick and the next one. -/
def AtCronSpacing (r : RequestId) (start : ℕ) (ticks : List Tick) : Prop :=
  ∀ k t, ticks[k]? = some t → start + k * sweepInterval ≤ t.inputs.now ∧
    t.inputs.now ≤ t.inputs.bumpedAt r ∧ t.inputs.bumpedAt r < start + (k + 1) * sweepInterval

/-- A request that is still being worked on is dispatched at most once. -/
def DispatchesOnce : Prop :=
  ∀ r updatedAt start ticks, AtCronSpacing r start ticks → (∀ t ∈ ticks, t.StillProcessing r) →
    (redispatches r updatedAt ticks).length ≤ 1

/-- The rows that the query of a tick answers when the request counts as stale. -/
def Tick.rowsWith (t : Tick) (r : RequestId) : List StuckMaterialCourse :=
  t.inputs.staleCourses t.db fun k => k = r || stale (t.otherUpdatedAt k) t.inputs.now

/-- The query of a tick has room for a course of the request, and no exception keeps the job
from being added. -/
def Tick.Admits (t : Tick) (r : RequestId) : Prop :=
  (t.inputs.lookupFails r || t.inputs.addFails r) = false ∧
    ∃ c ∈ t.rowsWith r, c.materialRequestId = r

instance (t : Tick) (r : RequestId) : Decidable (t.Admits r) :=
  inferInstanceAs (Decidable (_ ∧ ∃ c ∈ t.rowsWith r, _))

/-- A request that was last written at `updatedAt` is due at a tick. -/
def Tick.Due (t : Tick) (r : RequestId) (updatedAt : ℕ) : Prop :=
  stale updatedAt t.inputs.now = true ∧ t.Admits r

instance (t : Tick) (r : RequestId) (updatedAt : ℕ) : Decidable (t.Due r updatedAt) :=
  inferInstanceAs (Decidable (_ ∧ _))

/-- The `updated_at` that a tick writes, unless the write fails. -/
def Tick.bumped (t : Tick) (r : RequestId) (updatedAt : ℕ) : ℕ :=
  if t.inputs.bumpFails r then updatedAt else t.inputs.bumpedAt r

/-- After the first tick at which the request is due, every later tick comes at most five
minutes after the write of that tick, or does not admit the request. -/
def BumpProtects (r : RequestId) (updatedAt : ℕ) : List Tick → Prop
  | [] => True
  | t :: ts =>
    if t.Due r updatedAt then ∀ t' ∈ ts, ¬t'.Due r (t.bumped r updatedAt)
    else BumpProtects r updatedAt ts

section Ticks

variable {t : Tick} {r : RequestId} {updatedAt : ℕ}

/-- At a tick at which the request is stale, the query answers the same rows as if it counted as
stale. -/
theorem rows_of_stale (h : stale updatedAt t.inputs.now = true) :
    (t.inputs.staleCourses t.db fun k => stale (t.updatedAt r updatedAt k) t.inputs.now) =
      t.rowsWith r := by
  unfold Tick.rowsWith
  congr 1
  funext k
  unfold Tick.updatedAt
  by_cases hk : k = r
  · simp [hk, h]
  · simp [hk]

/-- A request gets a job at the ticks at which it is due. -/
theorem redispatch_isSome_iff_due (t : Tick) (r : RequestId) (updatedAt : ℕ) :
    (t.inputs.redispatch t.db
      (t.inputs.staleCourses t.db fun k => stale (t.updatedAt r updatedAt k) t.inputs.now)
        r).isSome = true ↔ t.Due r updatedAt := by
  cases hstale : stale updatedAt t.inputs.now with
  | true =>
    rw [rows_of_stale hstale, redispatch_isSome]
    exact ⟨fun h => ⟨hstale, h⟩, fun h => h.2⟩
  | false =>
    constructor
    · intro h
      obtain ⟨_, row, hrow, hrequest⟩ := redispatch_isSome.mp h
      obtain ⟨c, _, q, _, hcourse, hfind, rfl⟩ := mem_stuckCourses.mp (mem_staleCourses hrow)
      have hq : c.materialRequestId = r := (Table.key_of_find hfind).symm.trans hrequest
      simp [Tick.updatedAt, hq, hstale] at hcourse
    · rintro ⟨h, _⟩
      rw [hstale] at h
      cases h

/-- **The jobs of one tick:** one when the request is due, else none. -/
theorem length_jobs (t : Tick) (r : RequestId) (updatedAt : ℕ) :
    ((t.sweep r updatedAt).jobs.filter fun job => job.materialRequestId = r).length =
      if t.Due r updatedAt then 1 else 0 := by
  simp only [Tick.sweep, sweepStuckMaterialCourses, filter_jobs,
    ← redispatch_isSome_iff_due t r updatedAt]
  cases t.inputs.redispatch t.db _ r <;> rfl

/-- The `updated_at` after one tick. -/
theorem updatedAt_sweep (t : Tick) (r : RequestId) (updatedAt : ℕ) :
    (t.sweep r updatedAt).updatedAt r =
      if t.Due r updatedAt then t.bumped r updatedAt else updatedAt := by
  have hown : t.updatedAt r updatedAt r = updatedAt := if_pos rfl
  have hany : (t.sweep r updatedAt).jobs.any (fun job => job.materialRequestId = r) =
      decide (t.Due r updatedAt) := by
    rw [Bool.eq_iff_iff, decide_eq_true_iff, ← redispatch_isSome_iff_due]
    exact Bool.eq_iff_iff.mp (any_jobs t.inputs t.db _ r)
  have hupdated : (t.sweep r updatedAt).updatedAt r =
      if (t.sweep r updatedAt).jobs.any (fun job => job.materialRequestId = r) &&
        !t.inputs.bumpFails r then t.inputs.bumpedAt r else t.updatedAt r updatedAt r := rfl
  rw [hupdated, hany, hown]
  by_cases hdue : t.Due r updatedAt <;> cases hfails : t.inputs.bumpFails r <;>
    simp [Tick.bumped, hdue, hfails]

/-- No tick of a run dispatches the request when it is due at none. -/
theorem redispatches_eq_nil_iff (r : RequestId) (updatedAt : ℕ) (ticks : List Tick) :
    (redispatches r updatedAt ticks).length = 0 ↔ ∀ t ∈ ticks, ¬t.Due r updatedAt := by
  induction ticks with
  | nil => simp [redispatches]
  | cons t ts ih =>
    rw [redispatches, List.length_append, length_jobs, updatedAt_sweep, List.forall_mem_cons, ← ih]
    by_cases hdue : t.Due r updatedAt <;> simp [hdue]

/-- **Redispatches.** The sweeps of a run enqueue at most one job for a request that stays
`PROCESSING` and that nothing else writes if and only if the write of `updated_at` protects
it. -/
theorem length_redispatches_le_one_iff (r : RequestId) (updatedAt : ℕ) (ticks : List Tick) :
    (redispatches r updatedAt ticks).length ≤ 1 ↔ BumpProtects r updatedAt ticks := by
  induction ticks with
  | nil => simp [redispatches, BumpProtects]
  | cons t ts ih =>
    rw [redispatches, List.length_append, length_jobs, updatedAt_sweep, BumpProtects]
    by_cases hdue : t.Due r updatedAt
    · rw [if_pos hdue, if_pos hdue, if_pos hdue, ← redispatches_eq_nil_iff]
      omega
    · rw [if_neg hdue, if_neg hdue, if_neg hdue, ← ih]
      omega

end Ticks

section Spacing

variable {r : RequestId} {updatedAt start : ℕ} {ticks : List Tick}

/-- The sweep of each tick writes `updated_at` within ten minutes of its tick. -/
def Prompt (r : RequestId) (start : ℕ) (ticks : List Tick) : Prop :=
  ∀ k t, ticks[k]? = some t → t.inputs.bumpedAt r < start + k * sweepInterval + 10 * minute

/-- The run after its first tick. -/
theorem AtCronSpacing.tail {t : Tick} (h : AtCronSpacing r start (t :: ticks)) :
    AtCronSpacing r (start + sweepInterval) ticks := by
  intro k t' ht'
  obtain ⟨hnow, hlater, hends⟩ := h (k + 1) t' ht'
  have hsum : (k + 1) * sweepInterval = k * sweepInterval + sweepInterval := Nat.succ_mul ..
  have hnext : (k + 1 + 1) * sweepInterval = (k + 1) * sweepInterval + sweepInterval :=
    Nat.succ_mul ..
  refine ⟨?_, hlater, ?_⟩ <;> omega

/-- The run after its first tick is prompt. -/
theorem Prompt.tail {t : Tick} (h : Prompt r start (t :: ticks)) :
    Prompt r (start + sweepInterval) ticks := by
  intro k t' ht'
  have hprompt := h (k + 1) t' ht'
  have hsum : (k + 1) * sweepInterval = k * sweepInterval + sweepInterval := Nat.succ_mul ..
  omega

/-- The later ticks of a run come at least one interval after its start. -/
theorem AtCronSpacing.le_now {t t' : Tick} (h : AtCronSpacing r start (t :: ticks))
    (ht' : t' ∈ ticks) : start + sweepInterval ≤ t'.inputs.now := by
  obtain ⟨k, hk⟩ := List.mem_iff_getElem?.mp ht'
  have hnow := (h.tail k t' hk).1
  omega

/-- What is stale stays stale. -/
theorem stale_of_le {updatedAt now later : ℕ} (h : stale updatedAt now = true)
    (hle : now ≤ later) : stale updatedAt later = true := by
  simp only [stale, decide_eq_true_eq] at h ⊢
  omega

/-- At the spacing of the cron, what a prompt sweep has written is stale at every later tick. -/
theorem stale_bumped {t t' : Tick} (hcron : AtCronSpacing r start (t :: ticks))
    (hprompt : Prompt r start (t :: ticks)) (ht' : t' ∈ ticks) :
    stale (t.inputs.bumpedAt r) t'.inputs.now = true := by
  have hends := hprompt 0 t rfl
  have hnow := hcron.le_now ht'
  simp only [sweepInterval, minute] at hends hnow
  apply decide_eq_true
  simp only [staleThresholdMinutes, minute]
  omega

/-- Prompt sweeps enqueue a job at every tick at which the request would be due at `updatedAt`,
when the ticks do not tell its present `updated_at` from `updatedAt`. -/
theorem length_redispatches_of_same {present : ℕ} (hcron : AtCronSpacing r start ticks)
    (hprompt : Prompt r start ticks)
    (hsame : ∀ t ∈ ticks, t.Due r present ↔ t.Due r updatedAt) :
    (redispatches r present ticks).length =
      (ticks.filter fun t => decide (t.Due r updatedAt)).length := by
  induction ticks generalizing start present with
  | nil => rfl
  | cons t ts ih =>
    have hfirst := hsame t (List.mem_cons_self ..)
    have hrest : ∀ t' ∈ ts, t'.Due r present ↔ t'.Due r updatedAt :=
      fun t' ht' => hsame t' (List.mem_cons_of_mem t ht')
    rw [redispatches, List.length_append, length_jobs, updatedAt_sweep]
    by_cases hdue : t.Due r updatedAt
    · rw [if_pos (hfirst.mpr hdue), if_pos (hfirst.mpr hdue),
        List.filter_cons_of_pos (by simpa using hdue), List.length_cons,
        ih hcron.tail hprompt.tail, Nat.add_comm]
      intro t' ht'
      unfold Tick.bumped
      split
      · exact hrest t' ht'
      · -- both times are stale at every later tick
        have hlater := hcron.le_now ht'
        have hstale : stale updatedAt t'.inputs.now = true := by
          refine stale_of_le hdue.1 ?_
          have hbefore := (hcron 0 t rfl).2
          omega
        exact ⟨fun h => ⟨hstale, h.2⟩, fun h => ⟨stale_bumped hcron hprompt ht', h.2⟩⟩
    · rw [if_neg (mt hfirst.mp hdue), if_neg (mt hfirst.mp hdue),
        List.filter_cons_of_neg (by simpa using hdue), ih hcron.tail hprompt.tail hrest, Nat.zero_add]

/-- **The write protects no tick.** At the spacing of the cron, prompt sweeps enqueue a job for
the request at every tick at which it would be due if no sweep had written it. -/
theorem length_redispatches_of_prompt (updatedAt : ℕ) (hcron : AtCronSpacing r start ticks)
    (hprompt : Prompt r start ticks) :
    (redispatches r updatedAt ticks).length =
      (ticks.filter fun t => decide (t.Due r updatedAt)).length :=
  length_redispatches_of_same hcron hprompt fun _ _ => Iff.rfl

end Spacing

/-- A request with one course that is being printed. -/
def printing : Db :=
  { emptyTenant ⟨[], [], [], [], []⟩ with
    requests := ⟨[⟨1, 1, 1, 3, .processing, false, "BALOTARIO", none, none, none, none, none, 1⟩],
      by decide⟩
    courses := ⟨[⟨2, 1, 5, .processing, none, none, none, none, none, none, none⟩], by decide⟩ }

/-- A tick at which nothing fails. -/
def tickAt (now : ℕ) : Tick where
  db := printing
  otherUpdatedAt := fun _ => 0
  inputs :=
    { tenantId := 7
      company := none
      now := now
      scan := .sequential
      queryFails := false
      lookupFails := fun _ => false
      addFails := fun _ => false
      bumpFails := fun _ => false
      bumpedAt := fun _ => now }

/-- A request that takes long is dispatched at two ticks, one after the other. -/
theorem not_dispatchesOnce : ¬DispatchesOnce := by
  intro h
  have hcron : AtCronSpacing 1 sweepInterval [tickAt sweepInterval, tickAt (2 * sweepInterval)] := by
    intro k t ht
    match k with
    | 0 =>
      cases ht
      decide
    | 1 =>
      cases ht
      decide
    | k + 2 => cases ht
  have hprocessing : ∀ t ∈ [tickAt sweepInterval, tickAt (2 * sweepInterval)],
      t.StillProcessing 1 := by
    intro t ht
    have hdb : t.db = printing := by
      simp only [List.mem_cons, List.not_mem_nil, or_false] at ht
      rcases ht with rfl | rfl <;> rfl
    unfold Tick.StillProcessing
    rw [hdb]
    decide
  have hbad := h 1 0 sweepInterval _ hcron hprocessing
  revert hbad
  decide

end Odiseo.Materials
