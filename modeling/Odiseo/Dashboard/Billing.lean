import Mathlib.Algebra.BigOperators.Group.Finset.Basic
import Odiseo.Dashboard.ConsumptionMetrics

/-!
# Billing by the month

Each tick computes the pages of the month that it runs in. What is completed after the
last tick of a month and before the end of the month is never counted: the next tick
computes the next month. Exactly the courses that a tick of their own month sees are billed,
each of them once.
-/

namespace Odiseo.Dashboard

open Calendar Database

/-- One tick of the cron, with what it finds for the tenants. -/
structure Tick where
  companies : List TenantId
  now : ℕ
  /-- When the queries on the schema of the billed tenant see its courses. -/
  seenAt : ℕ
  collect : TenantId → Collection

/-- A course row as it is at an instant: nothing is written before the course completes. -/
def CourseRow.asOf (c : CourseRow) (instant : ℕ) : CourseRow :=
  if c.completedAt.any (· ≤ instant) then c else ⟨none, none, none⟩

/-- What a tick finds: the courses of the billed tenant are those completed by then. -/
def Tick.collection (t : Tick) (tenantId : TenantId) (courses : List CourseRow) (k : TenantId) :
    Collection :=
  if k = tenantId then
    { t.collect k with
      schema := { (t.collect k).schema with courses := courses.map (·.asOf t.seenAt) } }
  else t.collect k

/-- The metrics after the ticks of a run. -/
def metricsAfter (tenantId : TenantId) (courses : List CourseRow) (ticks : List Tick) :
    Table MetricKey ConsumptionMetric :=
  ticks.foldl
    (fun table t => collectForAllTenants t.companies t.now (t.collection tenantId courses) table)
    .empty

/-- The pages that are billed to a tenant, over all months. -/
def billedPages (table : Table MetricKey ConsumptionMetric) (tenantId : TenantId) : ℕ :=
  ((table.filter fun m => m.tenantId = tenantId && m.metricType = .pdfPagesGenerated).map
    (·.value)).sum

/-- The pages of a course. -/
def CourseRow.pages (c : CourseRow) : ℕ := c.pageCount.getD 0

/-- The pages of all completed courses. -/
def completedPages (courses : List CourseRow) : ℕ :=
  ((courses.filter fun c => c.completedAt.isSome).map CourseRow.pages).sum

/-- The ticks of a run are an hour apart: each runs between its hour and the next one. -/
def AtHours (first : ℕ) (ticks : List Tick) : Prop :=
  ∀ k t, ticks[k]? = some t →
    (first + k) * hour ≤ t.now ∧ t.now ≤ t.seenAt ∧ t.seenAt < (first + k + 1) * hour

/-- A tick stores the pages of a tenant: the tenant is active and nothing fails. -/
def Tick.stores (t : Tick) (tenantId : TenantId) : Bool :=
  decide (tenantId ∈ t.companies) && !(t.collect tenantId).queryFails &&
    !(t.collect tenantId).upsertFails .pdfPagesGenerated

/-- A tick sees the course completed, in the month of its completion. -/
def Tick.counts (t : Tick) (c : CourseRow) : Bool :=
  c.completedAt.any fun completedAt => completedAt ≤ t.seenAt && monthOf completedAt = monthOf t.now

/-- After the last tick of any run at which nothing fails, every course that was completed before
it has been billed. -/
def BillsEveryCourse : Prop :=
  ∀ tenantId courses first ticks, AtHours first ticks → (∀ t ∈ ticks, t.stores tenantId = true) →
    (∀ c ∈ courses, ∀ completedAt, c.completedAt = some completedAt →
      ∃ last ∈ ticks.getLast?, completedAt < last.now) →
    billedPages (metricsAfter tenantId courses ticks) tenantId = completedPages courses

/-- The pages stored for a tenant and a month. -/
def stored (table : Table MetricKey ConsumptionMetric) (tenantId : TenantId) (k : ℕ) : Option ℕ :=
  (table.find ⟨tenantId, .pdfPagesGenerated, monthInYear k + 1, yearOf k⟩).map (·.value)

section Store

variable {table : Table MetricKey ConsumptionMetric} {tenantId : TenantId}

/-- What an upsert stores. -/
theorem stored_upsertMetric (owner : TenantId) (metric : MetricType) (value j k : ℕ) :
    stored (upsertMetric table owner metric value (monthInYear j + 1) (yearOf j)) tenantId k =
      if owner = tenantId ∧ metric = .pdfPagesGenerated ∧ j = k then some value
      else stored table tenantId k := by
  unfold stored upsertMetric
  rw [Table.find_upsert]
  by_cases hsame : owner = tenantId ∧ metric = .pdfPagesGenerated ∧ j = k
  · obtain ⟨rfl, rfl, rfl⟩ := hsame
    refine (congrArg _ (if_pos rfl)).trans ?_
    rw [if_pos ⟨rfl, rfl, rfl⟩]
    cases table.find _ <;> rfl
  · rw [if_neg hsame, if_neg]
    intro hkey
    apply hsame
    obtain ⟨howner, hmetric, hmonth, hyear⟩ := MetricKey.mk.inj hkey
    have hnumber : monthInYear k + 1 = monthInYear j + 1 := hmonth
    exact ⟨howner.symm, hmetric.symm, eq_of_year_month hyear.symm (by omega)⟩

/-- What a collection stores for one tenant. -/
theorem stored_collectForTenant (owner : TenantId) (c : Collection) (j k : ℕ) :
    stored (collectForTenant owner (yearOf j) (monthInYear j + 1) c table) tenantId k =
      if owner = tenantId ∧ j = k ∧ c.queryFails = false ∧
          c.upsertFails .pdfPagesGenerated = false
      then some (pagesWithin (monthStart j) (monthStart (j + 1)) c.schema.courses)
      else stored table tenantId k := by
  have hother : ∀ (table : Table MetricKey ConsumptionMetric) (metric : MetricType) (value : ℕ),
      metric ≠ .pdfPagesGenerated →
      stored (if c.upsertFails metric then table
        else upsertMetric table owner metric value (monthInYear j + 1) (yearOf j)) tenantId k =
        stored table tenantId k := by
    intro table metric value hmetric
    split
    · rfl
    · rw [stored_upsertMetric, if_neg]
      exact fun h => hmetric h.2.1
  unfold collectForTenant
  cases hquery : c.queryFails with
  | true => simp
  | false =>
    simp only [Bool.false_eq_true, if_false, List.foldl_cons, List.foldl_nil]
    rw [hother _ _ _ (by decide)]
    cases hupsert : c.upsertFails .pdfPagesGenerated with
    | true =>
      simp only [if_true]
      rw [hother _ _ _ (by decide), hother _ _ _ (by decide), if_neg (by simp)]
    | false =>
      simp only [Bool.false_eq_true, if_false]
      rw [stored_upsertMetric, hother _ _ _ (by decide), hother _ _ _ (by decide)]
      have hstart : utc (yearOf j) (monthInYear j + 1 - 1) = monthStart j := utc_eq j 0
      have hend : utc (yearOf j) (monthInYear j + 1) = monthStart (j + 1) := utc_eq j 1
      simp only [TenantSchema.metrics, hstart, hend, true_and, and_true]

/-- What a tick stores. -/
theorem stored_collectForAllTenants (companies : List TenantId) (now : ℕ)
    (collect : TenantId → Collection) (k : ℕ) :
    stored (collectForAllTenants companies now collect table) tenantId k =
      if tenantId ∈ companies ∧ monthOf now = k ∧ (collect tenantId).queryFails = false ∧
          (collect tenantId).upsertFails .pdfPagesGenerated = false
      then some (pagesWithin (monthStart k) (monthStart (k + 1)) (collect tenantId).schema.courses)
      else stored table tenantId k := by
  unfold collectForAllTenants getUTCFullYear getUTCMonth
  induction companies generalizing table with
  | nil => simp
  | cons owner companies ih =>
    rw [List.foldl_cons, ih, stored_collectForTenant]
    by_cases hstores : monthOf now = k ∧ (collect tenantId).queryFails = false ∧
        (collect tenantId).upsertFails .pdfPagesGenerated = false
    · obtain ⟨rfl, hquery, hupsert⟩ := hstores
      by_cases howner : owner = tenantId
      · subst howner
        simp [hquery, hupsert]
      · have howner' : tenantId ≠ owner := fun h => howner h.symm
        simp [hquery, hupsert, howner, howner']
    · rw [if_neg (fun h => hstores h.2), if_neg, if_neg (fun h => hstores h.2)]
      rintro ⟨rfl, h⟩
      exact hstores h

/-- The rows of a table that the cron has filled name months. -/
def NamesMonths (table : Table MetricKey ConsumptionMetric) : Prop :=
  ∀ m ∈ table.rows, ∃ k, m.billingMonth = monthInYear k + 1 ∧ m.billingYear = yearOf k

/-- An upsert for a month leaves rows that name months. -/
theorem namesMonths_upsertMetric (h : NamesMonths table) (owner : TenantId) (metric : MetricType)
    (value j : ℕ) :
    NamesMonths (upsertMetric table owner metric value (monthInYear j + 1) (yearOf j)) := by
  unfold upsertMetric Table.upsert
  intro m hm
  split at hm
  · obtain ⟨old, hold, rfl⟩ := List.mem_map.mp hm
    obtain ⟨k, hk⟩ := h old hold
    refine ⟨k, ?_⟩
    split <;> exact hk
  · rcases Table.mem_insert hm with hold | rfl
    · exact h m hold
    · exact ⟨j, rfl, rfl⟩

/-- A tick leaves rows that name months. -/
theorem namesMonths_collectForAllTenants (h : NamesMonths table) (companies : List TenantId)
    (now : ℕ) (collect : TenantId → Collection) :
    NamesMonths (collectForAllTenants companies now collect table) := by
  unfold collectForAllTenants
  induction companies generalizing table with
  | nil => exact h
  | cons owner companies ih =>
    rw [List.foldl_cons]
    apply ih
    unfold collectForTenant
    split
    · exact h
    · have hfold : ∀ (metrics : List MetricType) (value : MetricType → ℕ)
          (table : Table MetricKey ConsumptionMetric), NamesMonths table →
          NamesMonths (metrics.foldl (fun table metric =>
            if (collect owner).upsertFails metric then table
            else upsertMetric table owner metric (value metric) (getUTCMonth now + 1)
              (getUTCFullYear now)) table) := by
        intro metrics value
        induction metrics with
        | nil => exact fun _ h => h
        | cons metric metrics ih =>
          intro table h
          rw [List.foldl_cons]
          apply ih
          split
          · exact h
          · exact namesMonths_upsertMetric h owner metric _ _
      exact hfold _ _ _ h

end Store

section Runs

variable {tenantId : TenantId} {courses : List CourseRow} {ticks : List Tick}

/-- The course is seen completed, in the month of its completion, by a tick that stores the
pages of the tenant. -/
def Billed (tenantId : TenantId) (ticks : List Tick) (c : CourseRow) : Bool :=
  ticks.any fun t => t.stores tenantId && t.counts c

/-- The month of the completion of a course. -/
def CourseRow.month (c : CourseRow) : ℕ := monthOf (c.completedAt.getD 0)

/-- An instant of a window. -/
theorem within_iff (start stop instant : ℕ) :
    within start stop instant = true ↔ start ≤ instant ∧ instant < stop := by
  simp [within]

/-- The window of a month holds the instants of the month. -/
theorem within_month (instant k : ℕ) :
    within (monthStart k) (monthStart (k + 1)) instant = decide (monthOf instant = k) := by
  rw [Bool.eq_iff_iff, decide_eq_true_iff, within_iff]
  exact monthOf_eq_iff.symm

/-- What is completed by then, in the window of the tick, is what the tick counts. -/
theorem any_within_asOf (t : Tick) (c : CourseRow) :
    (c.asOf t.seenAt).completedAt.any
      (within (monthStart (monthOf t.now)) (monthStart (monthOf t.now + 1))) = t.counts c := by
  unfold CourseRow.asOf Tick.counts
  cases hcompleted : c.completedAt with
  | none =>
    rw [Option.any_none, Option.any_none, if_neg Bool.false_ne_true, Option.any_none]
  | some completedAt =>
    cases hseen : decide (completedAt ≤ t.seenAt) with
    | true =>
      rw [Option.any_some, Option.any_some, if_pos hseen, hcompleted, Option.any_some,
        within_month, hseen, Bool.true_and]
    | false =>
      rw [Option.any_some, Option.any_some, if_neg (by rw [hseen]; exact Bool.false_ne_true),
        hseen, Bool.false_and, Option.any_none]

/-- The pages of a course that a tick counts. -/
theorem pages_asOf {t : Tick} {c : CourseRow} (h : t.counts c = true) :
    (c.asOf t.seenAt).pageCount.getD 0 = c.pages := by
  have hseen : c.completedAt.any (· ≤ t.seenAt) = true := by
    obtain ⟨completedAt, hcompleted, hboth⟩ := (Option.any_eq_true ..).mp h
    rw [Bool.and_eq_true] at hboth
    exact (Option.any_eq_true ..).mpr ⟨completedAt, hcompleted, hboth.1⟩
  rw [CourseRow.asOf, if_pos hseen]
  rfl

/-- The pages of the courses that a tick counts. -/
theorem pagesWithin_asOf (t : Tick) (courses : List CourseRow) :
    pagesWithin (monthStart (monthOf t.now)) (monthStart (monthOf t.now + 1))
        (courses.map (·.asOf t.seenAt)) =
      ((courses.filter t.counts).map CourseRow.pages).sum := by
  unfold pagesWithin
  induction courses with
  | nil => simp only [List.map_nil, List.filter_nil, List.sum_nil]
  | cons c courses ih =>
    have hsame := any_within_asOf t c
    simp only [List.map_cons, List.filter_cons, hsame]
    cases hcounts : t.counts c with
    | true =>
      simp only [if_true, List.map_cons, List.sum_cons]
      rw [ih, pages_asOf hcounts]
    | false =>
      simp only [Bool.false_eq_true, if_false]
      exact ih

/-- Whether a tick stores the pages of the tenant, as the collection decides it. -/
theorem stores_iff (t : Tick) (tenantId : TenantId) (courses : List CourseRow) :
    t.stores tenantId = true ↔
      tenantId ∈ t.companies ∧ (t.collection tenantId courses tenantId).queryFails = false ∧
        (t.collection tenantId courses tenantId).upsertFails .pdfPagesGenerated = false := by
  simp [Tick.stores, Tick.collection, and_assoc]

/-- What one tick of a run stores for a month. -/
theorem stored_tick (t : Tick) (table : Table MetricKey ConsumptionMetric) (tenantId : TenantId)
    (courses : List CourseRow) (k : ℕ) :
    stored (collectForAllTenants t.companies t.now (t.collection tenantId courses) table)
        tenantId k =
      if t.stores tenantId = true ∧ monthOf t.now = k
      then some ((courses.filter t.counts).map CourseRow.pages).sum
      else stored table tenantId k := by
  have hschema : (t.collection tenantId courses tenantId).schema.courses =
      courses.map (·.asOf t.seenAt) := by
    simp [Tick.collection]
  rw [stored_collectForAllTenants, hschema]
  by_cases hmonth : monthOf t.now = k
  · subst hmonth
    rw [pagesWithin_asOf]
    by_cases hstores : t.stores tenantId = true
    · obtain ⟨hmem, hquery, hupsert⟩ := (stores_iff t tenantId courses).mp hstores
      rw [if_pos ⟨hmem, rfl, hquery, hupsert⟩, if_pos ⟨hstores, rfl⟩]
    · rw [if_neg, if_neg (fun h => hstores h.1)]
      rintro ⟨hmem, _, hquery, hupsert⟩
      exact hstores ((stores_iff t tenantId courses).mpr ⟨hmem, hquery, hupsert⟩)
  · rw [if_neg (fun h => hmonth h.2.1), if_neg (fun h => hmonth h.2)]

/-- What a tick counts. -/
theorem counts_iff {t : Tick} {c : CourseRow} : t.counts c = true ↔
    ∃ completedAt, c.completedAt = some completedAt ∧ completedAt ≤ t.seenAt ∧
      monthOf completedAt = monthOf t.now := by
  simp only [Tick.counts, Option.any_eq_true, Bool.and_eq_true, decide_eq_true_iff]

/-- A tick counts the courses of its month. -/
theorem month_of_counts {t : Tick} {c : CourseRow} (h : t.counts c = true) :
    c.month = monthOf t.now := by
  obtain ⟨completedAt, hcompleted, _, hmonth⟩ := counts_iff.mp h
  rw [CourseRow.month, hcompleted, Option.getD_some, hmonth]

/-- A later tick of the same month counts what an earlier one counts. -/
theorem counts_of_le {t u : Tick} {c : CourseRow} (h : t.counts c = true)
    (hle : t.seenAt ≤ u.seenAt) (hmonth : c.month = monthOf u.now) : u.counts c = true := by
  have hsame := (month_of_counts h).symm.trans hmonth
  obtain ⟨completedAt, hcompleted, hseen, hcourse⟩ := counts_iff.mp h
  exact counts_iff.mpr ⟨completedAt, hcompleted, hseen.trans hle, hcourse.trans hsame⟩

/-- A course is billed by one of the ticks. -/
theorem billed_iff {c : CourseRow} : Billed tenantId ticks c = true ↔
    ∃ t ∈ ticks, t.stores tenantId = true ∧ t.counts c = true := by
  simp [Billed]

/-- The courses are seen in the order of the ticks. -/
def InOrder (ticks : List Tick) : Prop := ticks.Pairwise fun a b => a.seenAt ≤ b.seenAt

/-- What a run has stored for a month: the pages of the courses of this month that are billed. -/
theorem stored_metricsAfter (tenantId : TenantId) (courses : List CourseRow)
    (horder : InOrder ticks) (k : ℕ) :
    stored (metricsAfter tenantId courses ticks) tenantId k =
      if ∃ t ∈ ticks, t.stores tenantId = true ∧ monthOf t.now = k
      then some ((courses.filter fun c =>
        Billed tenantId ticks c && decide (c.month = k)).map CourseRow.pages).sum
      else none := by
  induction ticks using List.reverseRecOn with
  | nil =>
    rw [if_neg (by simp)]
    simp only [metricsAfter, List.foldl_nil, stored, Table.empty, Table.find, List.find?_nil,
      Option.map_none]
  | append_singleton ticks t ih =>
    obtain ⟨hbefore, _, hlast⟩ := List.pairwise_append.mp horder
    have hafter : metricsAfter tenantId courses (ticks ++ [t]) =
        collectForAllTenants t.companies t.now (t.collection tenantId courses)
          (metricsAfter tenantId courses ticks) := by
      rw [metricsAfter, List.foldl_append]
      rfl
    rw [hafter, stored_tick, ih hbefore]
    by_cases hthis : t.stores tenantId = true ∧ monthOf t.now = k
    · -- the value of this month is computed anew
      obtain ⟨hstores, rfl⟩ := hthis
      rw [if_pos ⟨hstores, rfl⟩, if_pos ⟨t, by simp, hstores, rfl⟩]
      congr 3
      apply List.filter_congr
      intro c _
      rw [Bool.eq_iff_iff, Bool.and_eq_true, decide_eq_true_iff, billed_iff]
      constructor
      · intro hcounts
        exact ⟨⟨t, by simp, hstores, hcounts⟩, month_of_counts hcounts⟩
      · rintro ⟨⟨u, hu, _, hcounts⟩, hmonth⟩
        rcases List.mem_append.mp hu with hu | hu
        · exact counts_of_le hcounts (hlast u hu t (List.mem_singleton_self t)) hmonth
        · rw [← List.mem_singleton.mp hu]
          exact hcounts
    · have hexists : (∃ u ∈ ticks ++ [t], u.stores tenantId = true ∧ monthOf u.now = k) ↔
          ∃ u ∈ ticks, u.stores tenantId = true ∧ monthOf u.now = k := by
        constructor
        · rintro ⟨u, hu, hstores⟩
          rcases List.mem_append.mp hu with hu | hu
          · exact ⟨u, hu, hstores⟩
          · rw [List.mem_singleton.mp hu] at hstores
            exact absurd hstores hthis
        · rintro ⟨u, hu, hstores⟩
          exact ⟨u, List.mem_append_left _ hu, hstores⟩
      have hbilled : (courses.filter fun c =>
            Billed tenantId (ticks ++ [t]) c && decide (c.month = k)) =
          courses.filter fun c => Billed tenantId ticks c && decide (c.month = k) := by
        apply List.filter_congr
        intro c _
        rw [Bool.eq_iff_iff, Bool.and_eq_true, Bool.and_eq_true, decide_eq_true_iff, billed_iff,
          billed_iff]
        constructor
        · rintro ⟨⟨u, hu, hstores, hcounts⟩, hmonth⟩
          rcases List.mem_append.mp hu with hu | hu
          · exact ⟨⟨u, hu, hstores, hcounts⟩, hmonth⟩
          · rw [List.mem_singleton.mp hu] at hstores hcounts
            exact absurd ⟨hstores, (month_of_counts hcounts).symm.trans hmonth⟩ hthis
        · rintro ⟨⟨u, hu, hstores⟩, hmonth⟩
          exact ⟨⟨u, List.mem_append_left _ hu, hstores⟩, hmonth⟩
      rw [if_neg hthis, hbilled]
      simp only [hexists]

/-- The rows of a run name months. -/
theorem namesMonths_metricsAfter (tenantId : TenantId) (courses : List CourseRow)
    (ticks : List Tick) : NamesMonths (metricsAfter tenantId courses ticks) := by
  have hfold : ∀ table, NamesMonths table →
      NamesMonths (ticks.foldl (fun table t =>
        collectForAllTenants t.companies t.now (t.collection tenantId courses) table) table) := by
    induction ticks with
    | nil => exact fun _ h => h
    | cons t ticks ih => exact fun table h => ih _ (namesMonths_collectForAllTenants h _ _ _)
  exact hfold _ fun m hm => nomatch hm

/-- Summing by months, for a list of different months. -/
theorem sum_by_month (p : CourseRow → Bool) {months : List ℕ} (hnodup : months.Nodup)
    (courses : List CourseRow) :
    (months.map fun k =>
        ((courses.filter fun c => p c && decide (c.month = k)).map CourseRow.pages).sum).sum =
      ((courses.filter fun c => p c && decide (c.month ∈ months)).map CourseRow.pages).sum := by
  induction months with
  | nil => simp
  | cons k months ih =>
    obtain ⟨hk, hnodup⟩ := List.nodup_cons.mp hnodup
    rw [List.map_cons, List.sum_cons, ih hnodup]
    clear ih hnodup
    induction courses with
    | nil => rfl
    | cons c courses ih =>
      cases hp : p c with
      | false => simpa [List.filter_cons, hp] using ih
      | true =>
        by_cases hfirst : c.month = k
        · have hlater : c.month ∉ months := hfirst ▸ hk
          simp [hp, hfirst, hk] at ih ⊢
          omega
        · by_cases hlater : c.month ∈ months
          · simp [hp, hfirst, hlater] at ih ⊢
            omega
          · simpa [List.filter_cons, hp, hfirst, hlater] using ih

/-- The month that a row names. -/
def ConsumptionMetric.month (m : ConsumptionMetric) : ℕ :=
  (m.billingYear - 1970) * 12 + (m.billingMonth - 1)

/-- The rows of a tenant for its pages. -/
def pagesRow (tenantId : TenantId) (m : ConsumptionMetric) : Bool :=
  m.tenantId = tenantId && m.metricType = .pdfPagesGenerated

/-- A row of the pages of a tenant holds what is stored for its month. -/
theorem key_of_pagesRow {table : Table MetricKey ConsumptionMetric} (h : NamesMonths table)
    {m : ConsumptionMetric} (hm : m ∈ table.filter (pagesRow tenantId)) :
    key m = ⟨tenantId, .pdfPagesGenerated, monthInYear m.month + 1, yearOf m.month⟩ ∧
      stored table tenantId m.month = some m.value := by
  obtain ⟨hmem, hrow⟩ := List.mem_filter.mp hm
  rw [pagesRow, Bool.and_eq_true, decide_eq_true_iff, decide_eq_true_iff] at hrow
  obtain ⟨k, hmonth, hyear⟩ := h m hmem
  have hk : m.month = k := by
    rw [ConsumptionMetric.month, hmonth, hyear]
    unfold yearOf monthInYear
    omega
  have hkey : key m = ⟨tenantId, .pdfPagesGenerated, monthInYear m.month + 1, yearOf m.month⟩ := by
    rw [hk, ← hmonth, ← hyear, ← hrow.1, ← hrow.2]
    rfl
  refine ⟨hkey, ?_⟩
  rw [stored, ← hkey, Table.find_of_mem hmem]
  rfl

/-- A month for which pages are stored has a row. -/
theorem row_of_stored {table : Table MetricKey ConsumptionMetric} {k value : ℕ}
    (h : stored table tenantId k = some value) :
    ∃ m ∈ table.filter (pagesRow tenantId), m.month = k := by
  obtain ⟨m, hfind, _⟩ := Option.map_eq_some_iff.mp h
  have hkey := Table.key_of_find hfind
  obtain ⟨htenant, hmetric, hmonth, hyear⟩ := MetricKey.mk.inj hkey
  refine ⟨m, List.mem_filter.mpr ⟨Table.mem_of_find hfind, ?_⟩, ?_⟩
  · simp [pagesRow, htenant, hmetric]
  · rw [ConsumptionMetric.month, hmonth, hyear]
    unfold yearOf monthInYear
    omega

/-- **What is billed** over all months: the pages of the courses that a tick of their month has
seen, each of them once. -/
theorem billedPages_metricsAfter (tenantId : TenantId) (courses : List CourseRow)
    (horder : InOrder ticks) :
    billedPages (metricsAfter tenantId courses ticks) tenantId =
      ((courses.filter (Billed tenantId ticks)).map CourseRow.pages).sum := by
  have hnames := namesMonths_metricsAfter tenantId courses ticks
  have hrows : ∀ m ∈ (metricsAfter tenantId courses ticks).filter (pagesRow tenantId),
      m.value = ((courses.filter fun c =>
        Billed tenantId ticks c && decide (c.month = m.month)).map CourseRow.pages).sum := by
    intro m hm
    obtain ⟨_, hstored⟩ := key_of_pagesRow hnames hm
    rw [stored_metricsAfter tenantId courses horder] at hstored
    split at hstored
    · exact (Option.some.inj hstored).symm
    · cases hstored
  have hnodup : (((metricsAfter tenantId courses ticks).filter (pagesRow tenantId)).map
      ConsumptionMetric.month).Nodup := by
    apply List.Nodup.map_on
    · intro a ha b hb hmonth
      have hkeys := (key_of_pagesRow hnames ha).1
      rw [hmonth, ← (key_of_pagesRow hnames hb).1] at hkeys
      exact Table.eq_of_key_eq (List.mem_filter.mp ha).1 (List.mem_filter.mp hb).1 hkeys
    · exact (List.Nodup.of_map key (metricsAfter tenantId courses ticks).nodup).filter _
  have hsum : billedPages (metricsAfter tenantId courses ticks) tenantId =
      ((((metricsAfter tenantId courses ticks).filter (pagesRow tenantId)).map
        ConsumptionMetric.month).map fun k => ((courses.filter fun c =>
          Billed tenantId ticks c && decide (c.month = k)).map CourseRow.pages).sum).sum := by
    rw [List.map_map]
    exact congrArg List.sum (List.map_congr_left hrows)
  rw [hsum, sum_by_month (Billed tenantId ticks) hnodup]
  congr 2
  apply List.filter_congr
  intro c _
  cases hbilled : Billed tenantId ticks c with
  | false => rfl
  | true =>
    obtain ⟨t, ht, hstores, hcounts⟩ := billed_iff.mp hbilled
    have hstored := stored_metricsAfter tenantId courses horder c.month
    rw [if_pos ⟨t, ht, hstores, (month_of_counts hcounts).symm⟩] at hstored
    obtain ⟨m, hm, hmonth⟩ := row_of_stored hstored
    rw [Bool.true_and]
    exact decide_eq_true (List.mem_map.mpr ⟨m, hm, hmonth⟩)

/-- A selection has at most the sum of the whole. -/
theorem sum_filter_le (p : CourseRow → Bool) (courses : List CourseRow) :
    ((courses.filter p).map CourseRow.pages).sum ≤ (courses.map CourseRow.pages).sum := by
  induction courses with
  | nil => exact Nat.le_refl _
  | cons c courses ih =>
    rw [List.map_cons, List.sum_cons]
    cases hp : p c with
    | true =>
      rw [List.filter_cons_of_pos hp, List.map_cons, List.sum_cons]
      omega
    | false =>
      rw [List.filter_cons_of_neg (by rw [hp]; exact Bool.false_ne_true)]
      omega

/-- A selection has the sum of the whole exactly when what it leaves out counts nothing. -/
theorem sum_filter_eq_iff (p : CourseRow → Bool) (courses : List CourseRow) :
    ((courses.filter p).map CourseRow.pages).sum = (courses.map CourseRow.pages).sum ↔
      ∀ c ∈ courses, c.pages ≠ 0 → p c = true := by
  induction courses with
  | nil => simp
  | cons c courses ih =>
    have hrest := sum_filter_le p courses
    rw [List.forall_mem_cons, List.map_cons, List.sum_cons]
    cases hp : p c with
    | true =>
      rw [List.filter_cons_of_pos hp, List.map_cons, List.sum_cons]
      constructor
      · intro hsum
        exact ⟨fun _ => rfl, ih.mp (by omega)⟩
      · rintro ⟨_, hall⟩
        have hsum := ih.mpr hall
        omega
    | false =>
      rw [List.filter_cons_of_neg (by rw [hp]; exact Bool.false_ne_true)]
      constructor
      · intro hsum
        refine ⟨fun hpages => absurd ?_ hpages, ih.mp ?_⟩
        · omega
        · omega
      · rintro ⟨hfirst, hall⟩
        have hsum := ih.mpr hall
        have hpages : c.pages = 0 := by
          by_contra hpages
          exact Bool.false_ne_true (hfirst hpages)
        omega

/-- Ticks that are an hour apart see the courses in their order. -/
theorem inOrder_of_atHours {first : ℕ} (h : AtHours first ticks) : InOrder ticks := by
  rw [InOrder, List.pairwise_iff_getElem]
  intro i j hi hj hij
  obtain ⟨_, _, hbefore⟩ := h i ticks[i] (List.getElem?_eq_getElem hi)
  obtain ⟨hafter, hsees, _⟩ := h j ticks[j] (List.getElem?_eq_getElem hj)
  have hhours : (first + i + 1) * hour ≤ (first + j) * hour := by
    apply Nat.mul_le_mul_right
    omega
  omega

/-- **Exactly the courses that are seen in their month are billed**: what is stored for a tenant
over all months is the sum of its completed courses if and only if every completed course with
pages is seen by a tick of the month of its completion at which nothing fails for the tenant.
A course that completes between the last tick of a month and the end of the month is not. -/
theorem billedPages_eq_iff_seen (tenantId : TenantId) (courses : List CourseRow) {first : ℕ}
    (h : AtHours first ticks) :
    billedPages (metricsAfter tenantId courses ticks) tenantId = completedPages courses ↔
      ∀ c ∈ courses, ∀ completedAt, c.completedAt = some completedAt → c.pages ≠ 0 →
        ∃ t ∈ ticks, t.stores tenantId = true ∧ completedAt ≤ t.seenAt ∧
          monthOf completedAt = monthOf t.now := by
  have hcompleted : courses.filter (Billed tenantId ticks) =
      (courses.filter fun c => c.completedAt.isSome).filter (Billed tenantId ticks) := by
    rw [List.filter_filter]
    apply List.filter_congr
    intro c _
    cases hbilled : Billed tenantId ticks c with
    | false => rfl
    | true =>
      obtain ⟨t, _, _, hcounts⟩ := billed_iff.mp hbilled
      obtain ⟨completedAt, hcompleted, _⟩ := counts_iff.mp hcounts
      rw [hcompleted]
      rfl
  rw [billedPages_metricsAfter tenantId courses (inOrder_of_atHours h), hcompleted,
    completedPages, sum_filter_eq_iff]
  constructor
  · intro hall c hc completedAt hcompleted hpages
    have hmem : c ∈ courses.filter fun c => c.completedAt.isSome :=
      List.mem_filter.mpr ⟨hc, by rw [hcompleted]; rfl⟩
    obtain ⟨t, ht, hstores, hcounts⟩ := billed_iff.mp (hall c hmem hpages)
    obtain ⟨_, hsame, hseen⟩ := counts_iff.mp hcounts
    rw [hcompleted] at hsame
    rw [Option.some.inj hsame]
    exact ⟨t, ht, hstores, hseen⟩
  · intro hall c hc hpages
    obtain ⟨hmem, hsome⟩ := List.mem_filter.mp hc
    obtain ⟨completedAt, hcompleted⟩ := Option.isSome_iff_exists.mp hsome
    obtain ⟨t, ht, hstores, hseen⟩ := hall c hmem completedAt hcompleted hpages
    exact billed_iff.mpr ⟨t, ht, hstores, counts_iff.mpr ⟨completedAt, hcompleted, hseen⟩⟩

end Runs

/-- A tenant whose queries and upserts succeed. -/
def untroubled : TenantId → Collection := fun _ => ⟨⟨[], [], [], []⟩, false, fun _ => false⟩

/-- A tick that stores the pages of tenant 0. -/
def untroubledTick (now : ℕ) : Tick := ⟨[0], now, now, untroubled⟩

/-- The last tick of January 1970 and the first one of February. -/
def endOfJanuary : List Tick := [untroubledTick (743 * hour), untroubledTick (744 * hour)]

/-- A course of ten pages. -/
def tenPages (completedAt : ℕ) : CourseRow := ⟨some completedAt, some 10, some 0⟩

/-- The two ticks are an hour apart. -/
theorem atHours_endOfJanuary : AtHours 743 endOfJanuary := by
  intro k t ht
  match k, ht with
  | 0, ht =>
    rw [← Option.some.inj ht]
    exact ⟨by decide, by decide, by decide⟩
  | 1, ht =>
    rw [← Option.some.inj ht]
    exact ⟨by decide, by decide, by decide⟩

/-- What is completed at the last tick of January is billed. -/
theorem billedPages_eq_iff_seen_tenPages :
    AtHours 743 endOfJanuary ∧
      billedPages (metricsAfter 0 [tenPages (743 * hour)] endOfJanuary) 0 =
        completedPages [tenPages (743 * hour)] := by
  refine ⟨atHours_endOfJanuary,
    (billedPages_eq_iff_seen 0 [tenPages (743 * hour)] atHours_endOfJanuary).mpr ?_⟩
  intro c hc completedAt hcompleted _
  rw [List.mem_singleton.mp hc] at hcompleted
  rw [← Option.some.inj hcompleted]
  exact ⟨untroubledTick (743 * hour), List.mem_cons_self, by decide, Nat.le_refl _, rfl⟩

/-- A course that completes half an hour before the end of January is seen by the first tick of
February, which computes February: its ten pages are not billed at all. -/
theorem not_billsEveryCourse : ¬BillsEveryCourse := by
  intro h
  have hbilled := h 0 [tenPages (743 * hour + hour / 2)] 743 endOfJanuary atHours_endOfJanuary
    (by decide) (by decide)
  exact absurd hbilled (by decide +kernel)

end Odiseo.Dashboard
