import Mathlib.Data.List.Induction
import Odiseo.Dashboard.Service
import Odiseo.Database.Sums

/-!
# The total over all tenants

The metrics for all tenants are the sums of the metrics of the single tenants, in whatever
order the rows come back. For a flow metric the rows fall apart by their tenants; for a
snapshot metric the map holds one bucket for each tenant, which is the latest of its rows
and does not depend on the rows of the others.
-/

namespace Odiseo.Dashboard

open Database

/-- One row is of a later month than another. -/
def ConsumptionMetric.Newer (m n : ConsumptionMetric) : Prop :=
  n.billingYear < m.billingYear ∨ m.billingYear = n.billingYear ∧ n.billingMonth < m.billingMonth

/-- The rows of a metric of a tenant in the buckets. -/
def rowsIn (table : Table MetricKey ConsumptionMetric) (buckets : List Bucket)
    (metricType : MetricType) (tenantId : TenantId) : List ConsumptionMetric :=
  table.filter fun m =>
    m.tenantId = tenantId && m.metricType = metricType && m.inBuckets buckets

/-- What a tenant has used in the buckets. -/
def flow (table : Table MetricKey ConsumptionMetric) (buckets : List Bucket)
    (metricType : MetricType) (tenantId : TenantId) : ℕ :=
  ((rowsIn table buckets metricType tenantId).map (·.value)).sum

/-- A value is the one of the latest bucket of a tenant, or 0 when the tenant has none. -/
def IsSnapshot (table : Table MetricKey ConsumptionMetric) (buckets : List Bucket)
    (metricType : MetricType) (tenantId : TenantId) (value : ℕ) : Prop :=
  rowsIn table buckets metricType tenantId = [] ∧ value = 0 ∨
    ∃ m ∈ rowsIn table buckets metricType tenantId, value = m.value ∧
      ∀ n ∈ rowsIn table buckets metricType tenantId, ¬ n.Newer m

/-- An entry of the map is the latest of the rows of its tenant. -/
def IsLatest (rows : List ConsumptionMetric) (metricType : MetricType) (tenantId : TenantId) :
    Option LatestBucket → Prop
  | none => ∀ r ∈ rows, r.metricType = metricType → r.tenantId ≠ tenantId
  | some e => ∃ r ∈ rows, r.metricType = metricType ∧ r.tenantId = tenantId ∧
      e = ⟨tenantId, r.billingYear, r.billingMonth, r.value⟩ ∧
        ∀ r' ∈ rows, r'.metricType = metricType → r'.tenantId = tenantId → ¬ r'.Newer r

/-! ### The latest buckets -/

/-- No row is newer than itself. -/
theorem ConsumptionMetric.not_newer_self (m : ConsumptionMetric) : ¬ m.Newer m := by
  unfold ConsumptionMetric.Newer
  omega

/-- A row is newer than the entry of a row when it is newer than this row. -/
theorem isNewer_some {row r : ConsumptionMetric} {tenantId : TenantId} :
    row.isNewer (some ⟨tenantId, r.billingYear, r.billingMonth, r.value⟩) = true ↔
      row.Newer r := by
  simp [ConsumptionMetric.isNewer, ConsumptionMetric.Newer]

/-- Looking a tenant up after its entry, or that of another tenant, is set. -/
theorem find_setLatest (latest : Table TenantId LatestBucket) (row : ConsumptionMetric)
    (tenantId : TenantId) :
    (setLatest latest row).find tenantId =
      if tenantId = row.tenantId then
        some ⟨row.tenantId, row.billingYear, row.billingMonth, row.value⟩
      else latest.find tenantId := by
  unfold setLatest
  rw [Table.find_upsert]
  have hkey : key (⟨row.tenantId, row.billingYear, row.billingMonth, row.value⟩ : LatestBucket) =
    row.tenantId := rfl
  rw [hkey]
  split
  · rename_i htenant
    cases hfind : latest.find tenantId with
    | none => rfl
    | some e =>
      have he : e.tenantId = tenantId := Table.key_of_find hfind
      simp [he, htenant]
  · rfl

/-- A row of another metric or of another tenant changes nothing for the tenant. -/
theorem IsLatest.concat_other {rows : List ConsumptionMetric} {metricType : MetricType}
    {tenantId : TenantId} {entry : Option LatestBucket}
    (h : IsLatest rows metricType tenantId entry) {row : ConsumptionMetric}
    (hrow : ¬ (row.metricType = metricType ∧ row.tenantId = tenantId)) :
    IsLatest (rows ++ [row]) metricType tenantId entry := by
  cases entry with
  | none =>
    intro r hr hmetric htenant
    rcases List.mem_append.mp hr with hr | hr
    · exact h r hr hmetric htenant
    · rw [List.mem_singleton.mp hr] at hmetric htenant
      exact hrow ⟨hmetric, htenant⟩
  | some e =>
    obtain ⟨r, hr, hmetric, htenant, he, hmax⟩ := h
    refine ⟨r, List.mem_append_left _ hr, hmetric, htenant, he, ?_⟩
    intro r' hr' hmetric' htenant'
    rcases List.mem_append.mp hr' with hr' | hr'
    · exact hmax r' hr' hmetric' htenant'
    · rw [List.mem_singleton.mp hr'] at hmetric' htenant'
      exact absurd ⟨hmetric', htenant'⟩ hrow

/-- A row that no row before is newer than is the latest of its tenant. -/
theorem isLatest_concat_newest {rows : List ConsumptionMetric} {row : ConsumptionMetric}
    (hmax : ∀ r ∈ rows, r.metricType = row.metricType → r.tenantId = row.tenantId →
      ¬ r.Newer row) :
    IsLatest (rows ++ [row]) row.metricType row.tenantId
      (some ⟨row.tenantId, row.billingYear, row.billingMonth, row.value⟩) := by
  refine ⟨row, by simp, rfl, rfl, rfl, ?_⟩
  intro r hr hmetric htenant
  rcases List.mem_append.mp hr with hr | hr
  · exact hmax r hr hmetric htenant
  · rw [List.mem_singleton.mp hr]
    exact row.not_newer_self

/-- **Step.** One more row keeps the entries of the map the latest ones. -/
theorem IsLatest.concat {rows : List ConsumptionMetric} {metricType : MetricType}
    {tenantId : TenantId} {latest : Table TenantId LatestBucket}
    (h : IsLatest rows metricType tenantId (latest.find tenantId)) (row : ConsumptionMetric) :
    IsLatest (rows ++ [row]) metricType tenantId
      ((if row.metricType ≠ metricType then latest
        else if row.isNewer (latest.find row.tenantId) then setLatest latest row
        else latest).find tenantId) := by
  by_cases hmetric : row.metricType = metricType
  · rw [if_neg (by simpa using hmetric)]
    by_cases htenant : row.tenantId = tenantId
    · subst htenant hmetric
      cases hfind : latest.find row.tenantId with
      | none =>
        rw [hfind] at h
        have hnewer : row.isNewer none = true := rfl
        rw [if_pos hnewer, find_setLatest, if_pos rfl]
        exact isLatest_concat_newest fun r hr hmetric htenant =>
          absurd htenant (h r hr hmetric)
      | some e =>
        rw [hfind] at h
        obtain ⟨r, hr, hmetric, htenant, rfl, hmax⟩ := h
        by_cases hnewer : row.Newer r
        · rw [if_pos (isNewer_some.mpr hnewer), find_setLatest, if_pos rfl]
          refine isLatest_concat_newest fun r' hr' hmetric' htenant' => ?_
          have hle := hmax r' hr' hmetric' htenant'
          unfold ConsumptionMetric.Newer at hle hnewer ⊢
          omega
        · rw [if_neg (fun hpos => hnewer (isNewer_some.mp hpos)), hfind]
          refine ⟨r, List.mem_append_left _ hr, hmetric, htenant, rfl, ?_⟩
          intro r' hr' hmetric' htenant'
          rcases List.mem_append.mp hr' with hr' | hr'
          · exact hmax r' hr' hmetric' htenant'
          · rw [List.mem_singleton.mp hr']
            exact hnewer
    · have hsame : ((if row.isNewer (latest.find row.tenantId) then setLatest latest row
          else latest).find tenantId) = latest.find tenantId := by
        split
        · rw [find_setLatest, if_neg fun heq => htenant heq.symm]
        · rfl
      rw [hsame]
      exact h.concat_other fun hrow => htenant hrow.2
  · rw [if_pos (by simpa using hmetric)]
    exact h.concat_other fun hrow => hmetric hrow.1

/-- **Run.** After all rows each entry of the map is the latest row of its tenant. -/
theorem isLatest_find (rows : List ConsumptionMetric) (metricType : MetricType)
    (tenantId : TenantId) :
    IsLatest rows metricType tenantId ((latestPerTenant rows metricType).find tenantId) := by
  induction rows using List.reverseRecOn with
  | nil =>
    intro r hr
    cases hr
  | append_singleton rows row ih =>
    have hstep : latestPerTenant (rows ++ [row]) metricType =
        if row.metricType ≠ metricType then latestPerTenant rows metricType
        else if row.isNewer ((latestPerTenant rows metricType).find row.tenantId) then
          setLatest (latestPerTenant rows metricType) row
        else latestPerTenant rows metricType := by
      simp [latestPerTenant, List.foldl_append]
    rw [hstep]
    exact ih.concat row

/-! ### The totals -/

section Totals

variable {table : Table MetricKey ConsumptionMetric} {buckets : List Bucket}
  {metricType : MetricType}

/-- A row of a metric of a tenant in the buckets. -/
theorem mem_rowsIn {tenantId : TenantId} {m : ConsumptionMetric} :
    m ∈ rowsIn table buckets metricType tenantId ↔
      m ∈ table.rows ∧ m.tenantId = tenantId ∧ m.metricType = metricType ∧
        m.inBuckets buckets = true := by
  simp [rowsIn, Table.filter, and_assoc]

/-- A tenant has one latest bucket. -/
theorem IsSnapshot.unique {tenantId : TenantId} {v w : ℕ}
    (hv : IsSnapshot table buckets metricType tenantId v)
    (hw : IsSnapshot table buckets metricType tenantId w) : v = w := by
  rcases hv with ⟨hnone, rfl⟩ | ⟨m, hm, rfl, hmax⟩
  · rcases hw with ⟨_, rfl⟩ | ⟨n, hn, _⟩
    · rfl
    · rw [hnone] at hn
      cases hn
  · rcases hw with ⟨hnone, _⟩ | ⟨n, hn, rfl, hmax'⟩
    · rw [hnone] at hm
      cases hm
    · obtain ⟨hmrow, hmtenant, hmmetric, _⟩ := mem_rowsIn.mp hm
      obtain ⟨hnrow, hntenant, hnmetric, _⟩ := mem_rowsIn.mp hn
      have hmn := hmax n hn
      have hnm := hmax' m hm
      unfold ConsumptionMetric.Newer at hmn hnm
      have hyear : m.billingYear = n.billingYear := by omega
      have hmonth : m.billingMonth = n.billingMonth := by omega
      have hkey : key m = key n := by
        change (⟨_, _, _, _⟩ : MetricKey) = ⟨_, _, _, _⟩
        rw [hmtenant, hntenant, hmmetric, hnmetric, hyear, hmonth]
      rw [Table.eq_of_key_eq hmrow hnrow hkey]

/-- The latest of rows that come from the table is the latest bucket of the tenant. -/
theorem IsLatest.isSnapshot {rows : List ConsumptionMetric} {tenantId : TenantId}
    {o : Option LatestBucket} (h : IsLatest rows metricType tenantId o)
    (hrows : ∀ m, m.tenantId = tenantId →
      (m ∈ rows ↔ m ∈ table.rows ∧ m.inBuckets buckets = true)) :
    IsSnapshot table buckets metricType tenantId ((o.map (·.value)).getD 0) := by
  have hmem : ∀ m, m ∈ rowsIn table buckets metricType tenantId ↔
      m ∈ rows ∧ m.metricType = metricType ∧ m.tenantId = tenantId := by
    intro m
    rw [mem_rowsIn]
    constructor
    · rintro ⟨hm, htenant, hmetric, hin⟩
      exact ⟨(hrows m htenant).mpr ⟨hm, hin⟩, hmetric, htenant⟩
    · rintro ⟨hm, hmetric, htenant⟩
      obtain ⟨hrow, hin⟩ := (hrows m htenant).mp hm
      exact ⟨hrow, htenant, hmetric, hin⟩
  cases o with
  | none =>
    left
    refine ⟨List.eq_nil_iff_forall_not_mem.mpr ?_, rfl⟩
    intro m hm
    obtain ⟨hrow, hmetric, htenant⟩ := (hmem m).mp hm
    exact h m hrow hmetric htenant
  | some e =>
    right
    obtain ⟨r, hr, hmetric, htenant, rfl, hmax⟩ := h
    refine ⟨r, (hmem r).mpr ⟨hr, hmetric, htenant⟩, rfl, ?_⟩
    intro n hn
    obtain ⟨hrow, hmetric', htenant'⟩ := (hmem n).mp hn
    exact hmax n hrow hmetric' htenant'

/-- The total of a flow metric. -/
theorem sumAcrossBuckets_eq (rows : List ConsumptionMetric) (metricType : MetricType) :
    sumAcrossBuckets rows metricType =
      ((rows.filter fun r => r.metricType = metricType).map (·.value)).sum := by
  unfold sumAcrossBuckets
  rw [List.sum_eq_foldl, List.foldl_map]

/-- The total of a snapshot metric is the sum over any tenants that the rows belong to. -/
theorem latestBucketPerTenantSum_eq (rows : List ConsumptionMetric) (metricType : MetricType)
    {tenants : List TenantId} (hnodup : tenants.Nodup) (hall : ∀ r ∈ rows, r.tenantId ∈ tenants) :
    latestBucketPerTenantSum rows metricType =
      (tenants.map fun t =>
        (((latestPerTenant rows metricType).find t).map (·.value)).getD 0).sum := by
  have hsum : latestBucketPerTenantSum rows metricType =
      ((latestPerTenant rows metricType).rows.map (·.value)).sum := by
    unfold latestBucketPerTenantSum
    rw [List.sum_eq_foldl, List.foldl_map]
  rw [hsum]
  refine Table.sum_rows _ _ hnodup ?_
  intro e he
  have hlatest := isLatest_find rows metricType (key e)
  rw [Table.find_of_mem he] at hlatest
  obtain ⟨r, hr, _, htenant, _⟩ := hlatest
  rw [← htenant]
  exact hall r hr

variable {select : Scope → (ConsumptionMetric → Bool) → List ConsumptionMetric}

/-- What the query returns, in some order. -/
theorem mem_fetchMetricRows (hselect : ∀ scope p, (select scope p).Perm (table.filter p))
    (scope : Scope) (m : ConsumptionMetric) :
    m ∈ fetchMetricRows (select scope) scope buckets ↔
      m ∈ table.rows ∧ scope.covers m = true ∧ m.inBuckets buckets = true := by
  unfold fetchMetricRows
  rw [(hselect scope _).mem_iff]
  simp [Table.filter]

/-- The flow metric of one tenant. -/
theorem sumAcrossBuckets_tenant (hselect : ∀ scope p, (select scope p).Perm (table.filter p))
    (tenantId : TenantId) :
    sumAcrossBuckets (fetchMetricRows (select (.tenant tenantId)) (.tenant tenantId) buckets)
      metricType = flow table buckets metricType tenantId := by
  have hperm := ((hselect (.tenant tenantId) fun m =>
    (Scope.tenant tenantId).covers m && m.inBuckets buckets).filter
      fun r => r.metricType = metricType).map (·.value)
  unfold fetchMetricRows
  rw [sumAcrossBuckets_eq, hperm.sum_eq]
  unfold flow rowsIn Table.filter
  rw [List.filter_filter]
  congr 2
  apply List.filter_congr
  intro m _
  simp only [Scope.covers]
  cases decide (m.tenantId = tenantId) <;> cases decide (m.metricType = metricType) <;> simp

/-- The flow metric of all tenants. -/
theorem sumAcrossBuckets_all (hselect : ∀ scope p, (select scope p).Perm (table.filter p))
    {tenants : List TenantId} (hnodup : tenants.Nodup)
    (hall : ∀ m ∈ table.rows, m.tenantId ∈ tenants) :
    sumAcrossBuckets (fetchMetricRows (select .all) .all buckets) metricType =
      (tenants.map (flow table buckets metricType)).sum := by
  have hperm := ((hselect .all fun m =>
    Scope.all.covers m && m.inBuckets buckets).filter
      fun r => r.metricType = metricType).map (·.value)
  unfold fetchMetricRows
  rw [sumAcrossBuckets_eq, hperm.sum_eq,
    sum_map_by_key (·.tenantId) (·.value) hnodup fun r hr => hall r (by
      simp only [Table.filter, List.mem_filter] at hr
      exact hr.1.1)]
  congr 1
  apply List.map_congr_left
  intro t _
  unfold flow rowsIn Table.filter
  rw [List.filter_filter, List.filter_filter]
  congr 2

/-- The snapshot metric of one tenant. -/
theorem latestBucketPerTenantSum_tenant
    (hselect : ∀ scope p, (select scope p).Perm (table.filter p)) (tenantId : TenantId) :
    IsSnapshot table buckets metricType tenantId (latestBucketPerTenantSum
      (fetchMetricRows (select (.tenant tenantId)) (.tenant tenantId) buckets) metricType) := by
  have hall : ∀ r ∈ fetchMetricRows (select (.tenant tenantId)) (.tenant tenantId) buckets,
      r.tenantId ∈ [tenantId] := by
    intro r hr
    have hcovers := ((mem_fetchMetricRows hselect _ r).mp hr).2.1
    simpa [Scope.covers] using hcovers
  rw [latestBucketPerTenantSum_eq _ _ (List.nodup_singleton tenantId) hall]
  simp only [List.map_cons, List.map_nil, List.sum_cons, List.sum_nil, Nat.add_zero]
  refine (isLatest_find _ metricType tenantId).isSnapshot ?_
  intro m htenant
  rw [mem_fetchMetricRows hselect]
  simp [Scope.covers, htenant]

/-- The snapshot metric of all tenants. -/
theorem latestBucketPerTenantSum_all
    (hselect : ∀ scope p, (select scope p).Perm (table.filter p)) {tenants : List TenantId}
    (hnodup : tenants.Nodup) (hall : ∀ m ∈ table.rows, m.tenantId ∈ tenants) :
    latestBucketPerTenantSum (fetchMetricRows (select .all) .all buckets) metricType =
      (tenants.map fun t => latestBucketPerTenantSum
        (fetchMetricRows (select (.tenant t)) (.tenant t) buckets) metricType).sum := by
  rw [latestBucketPerTenantSum_eq _ _ hnodup fun r hr =>
    hall r ((mem_fetchMetricRows hselect _ r).mp hr).1]
  congr 1
  apply List.map_congr_left
  intro t _
  refine IsSnapshot.unique ?_ (latestBucketPerTenantSum_tenant hselect t)
  refine (isLatest_find _ metricType t).isSnapshot ?_
  intro m _
  rw [mem_fetchMetricRows hselect]
  simp [Scope.covers]

end Totals

/-- **The total of all tenants is the sum over the tenants**, for every table, every range of
dates and every order in which the rows of each request come back; the flow metrics of a
tenant add up over the buckets of the range, and its snapshot metrics are those of its latest
bucket in the range. -/
theorem getMetrics_all {table : Table MetricKey ConsumptionMetric}
    {select : Scope → (ConsumptionMetric → Bool) → List ConsumptionMetric}
    (hselect : ∀ scope p, (select scope p).Perm (table.filter p)) (dateOf : String → Date)
    (now : ℤ) {startDate endDate : Option String} {range : DateRange}
    (hrange : parseDateRange dateOf startDate endDate = .ok range) {tenants : List TenantId}
    (hnodup : tenants.Nodup) (hall : ∀ m ∈ table.rows, m.tenantId ∈ tenants) :
    ∃ (total : Metrics) (metrics : TenantId → Metrics),
      getMetrics dateOf now (select .all) .all startDate endDate = .ok total ∧
      (∀ t, getMetrics dateOf now (select (.tenant t)) (.tenant t) startDate endDate =
        .ok (metrics t)) ∧
      (∀ metricType,
        total.value metricType = (tenants.map fun t => (metrics t).value metricType).sum) ∧
      ∀ t,
        (metrics t).questionsUsed =
          flow table (resolveMonthBuckets now range) .questionsUsed t ∧
        (metrics t).pdfPagesGenerated =
          flow table (resolveMonthBuckets now range) .pdfPagesGenerated t ∧
        IsSnapshot table (resolveMonthBuckets now range) .activeUsers t
          (metrics t).activeUsers ∧
        IsSnapshot table (resolveMonthBuckets now range) .storageMb t (metrics t).storageMb := by
  refine ⟨metricsOf (fetchMetricRows (select .all) .all (resolveMonthBuckets now range)),
    fun t => metricsOf (fetchMetricRows (select (.tenant t)) (.tenant t)
      (resolveMonthBuckets now range)), ?_, ?_, ?_, ?_⟩
  · unfold getMetrics
    rw [hrange]
    rfl
  · intro t
    unfold getMetrics
    rw [hrange]
    rfl
  · intro metricType
    cases metricType with
    | activeUsers => exact latestBucketPerTenantSum_all hselect hnodup hall
    | questionsUsed =>
      simp only [Metrics.value, metricsOf, sumAcrossBuckets_tenant hselect]
      exact sumAcrossBuckets_all hselect hnodup hall
    | pdfPagesGenerated =>
      simp only [Metrics.value, metricsOf, sumAcrossBuckets_tenant hselect]
      exact sumAcrossBuckets_all hselect hnodup hall
    | storageMb => exact latestBucketPerTenantSum_all hselect hnodup hall
  · intro t
    exact ⟨sumAcrossBuckets_tenant hselect t, sumAcrossBuckets_tenant hselect t,
      latestBucketPerTenantSum_tenant hselect t, latestBucketPerTenantSum_tenant hselect t⟩

/-- Metrics of two tenants: the first one has a bucket more than the second one. -/
def twoTenants : Table MetricKey ConsumptionMetric :=
  [⟨1, .activeUsers, 500, 1, 2026⟩, ⟨1, .activeUsers, 5, 2, 2026⟩, ⟨2, .activeUsers, 3, 1, 2026⟩,
    ⟨1, .questionsUsed, 10, 1, 2026⟩, ⟨2, .questionsUsed, 20, 1, 2026⟩].foldl Table.insert .empty

/-- `new Date` of the two texts of a request. -/
def dateOfFebruary (text : String) : Date :=
  if text = "2026-01-01" then some 1767225600000
  else if text = "2026-02-28" then some 1772236800000
  else none

/-- The total of two tenants whose rows come back in the reverse order. -/
theorem getMetrics_twoTenants :
    ∃ (total : Metrics) (metrics : TenantId → Metrics),
      getMetrics dateOfFebruary 0 (fun p => (twoTenants.filter p).reverse) .all "2026-01-01"
        "2026-02-28" = .ok total ∧
      total.activeUsers = ([1, 2].map fun t => (metrics t).activeUsers).sum ∧
      IsSnapshot twoTenants (resolveMonthBuckets 0 (dateRange (some 1767225600000)
        (some 1772236800000))) .activeUsers 1 (metrics 1).activeUsers := by
  obtain ⟨total, metrics, hall, _, hsum, htenant⟩ := getMetrics_all
    (fun _ p => List.reverse_perm (twoTenants.filter p)) dateOfFebruary 0
    (rfl : parseDateRange dateOfFebruary "2026-01-01" "2026-02-28" =
      .ok (dateRange (some 1767225600000) (some 1772236800000)))
    (by decide : [1, 2].Nodup) (by decide)
  exact ⟨total, metrics, hall, hsum .activeUsers, (htenant 1).2.2.1⟩

end Odiseo.Dashboard
