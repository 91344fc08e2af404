import Odiseo.Calendar.Gregorian
import Odiseo.Dashboard.ConsumptionMetrics

/-!
# The dashboard

`DashboardService`: a range of dates is resolved to the months that it touches, the rows of
these months are read from `consumption_metrics`, for one tenant or for all, and each metric
is totalled.
-/

namespace Odiseo.Dashboard

open Calendar.Gregorian Database

/-- A `Date` by its time value; `none`: an invalid date. -/
abbrev Date := Option ℤ

/-- The greatest time value of a `Date`. -/
def maxTime : ℤ := 8640000000000000

/-- `new Date(ms)`. -/
def newDate (ms : ℤ) : Date := if -maxTime ≤ ms ∧ ms ≤ maxTime then some ms else none

/-- A pair (year, month) of the rows, with months from 1 to 12. -/
structure Bucket where
  year : ℤ
  month : ℤ
  deriving DecidableEq, Repr

/-- The dates of a request. -/
structure DateRange where
  start : Option ℤ
  /-- One day after the end date, which may be too late for a `Date`. -/
  endExclusive : Option Date
  deriving DecidableEq, Repr

/-- The range from a start date to an end date. -/
def dateRange (startDate endDate : Option ℤ) : DateRange where
  start := startDate
  endExclusive := endDate.map fun t => newDate (t + 24 * 60 * 60 * 1000)

/-- The loop of `resolveMonthBuckets`, with the iterations that are left; `month` is 0-based. -/
def bucketLoop : ℕ → (year month endYear endMonth : ℤ) → List Bucket
  | 0, _, _, _, _ => []
  | iterations + 1, year, month, endYear, endMonth =>
    if year < endYear ∨ year = endYear ∧ month ≤ endMonth then
      ⟨year, month + 1⟩ ::
        if month + 1 > 11 then bucketLoop iterations (year + 1) 0 endYear endMonth
        else bucketLoop iterations year (month + 1) endYear endMonth
    else []

/-- `resolveMonthBuckets` at an instant. Comparisons with an invalid date are false. -/
def resolveMonthBuckets (now : ℤ) (range : DateRange) : List Bucket :=
  let endBoundary : Date :=
    match range.endExclusive with
    | some endExclusive => endExclusive.bind fun t => newDate (t - 1)
    | none => some (range.start.getD now)
  let startBoundary : Date :=
    match range.start with
    | some start => some start
    | none => endBoundary
  let buckets :=
    match startBoundary, endBoundary with
    | some start, some stop =>
      bucketLoop 1200 (getUTCFullYear start) (getUTCMonth start) (getUTCFullYear stop)
        (getUTCMonth stop)
    | _, _ => []
  if buckets.isEmpty then [⟨getUTCFullYear now, getUTCMonth now + 1⟩] else buckets

/-- `parse`: an absent or empty text is no date. -/
def parseDate (dateOf : String → Date) (label : String) (value : Option String) :
    Except String (Option ℤ) :=
  match value with
  | none => .ok none
  | some text =>
    if text = "" then .ok none
    else
      match dateOf text with
      | some t => .ok (some t)
      | none => .error (label ++ " is not a valid date: " ++ text)

/-- `parseDateRange`, where `dateOf` is `new Date` of a text. -/
def parseDateRange (dateOf : String → Date) (startDate endDate : Option String) :
    Except String DateRange := do
  let stop ← parseDate dateOf "end_date" endDate
  let start ← parseDate dateOf "start_date" startDate
  return dateRange start stop

/-- The parameter `tenant_id`. -/
inductive Scope
  /-- The empty text. -/
  | missing
  | all
  | tenant (tenantId : TenantId)
  deriving DecidableEq, Repr

/-- A row belongs to the scope of a request. -/
def Scope.covers (scope : Scope) (m : ConsumptionMetric) : Bool :=
  match scope with
  | .tenant tenantId => m.tenantId = tenantId
  | _ => true

/-- A row belongs to one of the buckets. -/
def ConsumptionMetric.inBuckets (m : ConsumptionMetric) (buckets : List Bucket) : Bool :=
  buckets.any fun b =>
    decide ((m.billingYear : ℤ) = b.year) && decide ((m.billingMonth : ℤ) = b.month)

/-- `fetchMetricRows`: the query has no order. -/
def fetchMetricRows (select : (ConsumptionMetric → Bool) → List ConsumptionMetric) (scope : Scope)
    (buckets : List Bucket) : List ConsumptionMetric :=
  select fun m => scope.covers m && m.inBuckets buckets

/-- `sumAcrossBuckets`. -/
def sumAcrossBuckets (rows : List ConsumptionMetric) (metricType : MetricType) : ℕ :=
  (rows.filter fun r => r.metricType = metricType).foldl (fun sum r => sum + r.value) 0

/-- An entry of `latestPerTenant`. -/
structure LatestBucket where
  tenantId : TenantId
  year : ℕ
  month : ℕ
  value : ℕ
  deriving DecidableEq, Repr

instance : Keyed TenantId LatestBucket := ⟨fun e => e.tenantId⟩

/-- `isNewer`. -/
def ConsumptionMetric.isNewer (row : ConsumptionMetric) (existing : Option LatestBucket) : Bool :=
  match existing with
  | none => true
  | some e => decide (e.year < row.billingYear) ||
      decide (row.billingYear = e.year) && decide (e.month < row.billingMonth)

/-- `latestPerTenant.set` with the bucket of a row. -/
def setLatest (latest : Table TenantId LatestBucket) (row : ConsumptionMetric) :
    Table TenantId LatestBucket :=
  latest.upsert ⟨row.tenantId, row.billingYear, row.billingMonth, row.value⟩ fun e =>
    { e with year := row.billingYear, month := row.billingMonth, value := row.value }

/-- `latestPerTenant` after the rows. -/
def latestPerTenant (rows : List ConsumptionMetric) (metricType : MetricType) :
    Table TenantId LatestBucket :=
  rows.foldl
    (fun latest row =>
      if row.metricType ≠ metricType then latest
      else if row.isNewer (latest.find row.tenantId) then setLatest latest row
      else latest)
    .empty

/-- `latestBucketPerTenantSum`. -/
def latestBucketPerTenantSum (rows : List ConsumptionMetric) (metricType : MetricType) : ℕ :=
  (latestPerTenant rows metricType).rows.foldl (fun total bucket => total + bucket.value) 0

/-- The answer of `getMetrics`. -/
structure Metrics where
  activeUsers : ℕ
  questionsUsed : ℕ
  storageMb : ℕ
  pdfPagesGenerated : ℕ
  deriving DecidableEq, Repr

/-- One metric of the answer. -/
def Metrics.value (m : Metrics) : MetricType → ℕ
  | .activeUsers => m.activeUsers
  | .questionsUsed => m.questionsUsed
  | .storageMb => m.storageMb
  | .pdfPagesGenerated => m.pdfPagesGenerated

/-- The totals of rows. -/
def metricsOf (rows : List ConsumptionMetric) : Metrics where
  activeUsers := latestBucketPerTenantSum rows .activeUsers
  questionsUsed := sumAcrossBuckets rows .questionsUsed
  storageMb := latestBucketPerTenantSum rows .storageMb
  pdfPagesGenerated := sumAcrossBuckets rows .pdfPagesGenerated

/-- `getMetrics` at an instant. -/
def getMetrics (dateOf : String → Date) (now : ℤ)
    (select : (ConsumptionMetric → Bool) → List ConsumptionMetric) (scope : Scope)
    (startDate endDate : Option String) : Except String Metrics :=
  match scope with
  | .missing => .error "tenant_id is required"
  | scope => do
    let range ← parseDateRange dateOf startDate endDate
    return metricsOf (fetchMetricRows select scope (resolveMonthBuckets now range))

end Odiseo.Dashboard
