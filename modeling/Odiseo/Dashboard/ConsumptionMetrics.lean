import Mathlib.Algebra.BigOperators.Group.List.Basic
import Mathlib.Algebra.GroupWithZero.Nat
import Odiseo.Calendar.Months
import Odiseo.Database.Table

/-!
# The consumption metrics

`ConsumptionMetricsCron`: every hour the metrics of the current month are computed for each
active tenant and stored under the tenant, the metric and the month, where they replace the
values of the tick before.
-/

namespace Odiseo.Dashboard

open Calendar Database

/-- `uuid` of a company. -/
abbrev TenantId := ℕ

/-- The metrics. -/
inductive MetricType
  | activeUsers
  | questionsUsed
  | pdfPagesGenerated
  | storageMb
  deriving DecidableEq, Repr

/-- The unique index of `consumption_metrics`. -/
structure MetricKey where
  tenantId : TenantId
  metricType : MetricType
  billingMonth : ℕ
  billingYear : ℕ
  deriving DecidableEq, Repr

/-- `ConsumptionMetric`. -/
structure ConsumptionMetric where
  tenantId : TenantId
  metricType : MetricType
  value : ℕ
  billingMonth : ℕ
  billingYear : ℕ
  deriving DecidableEq, Repr

instance : Keyed MetricKey ConsumptionMetric :=
  ⟨fun m => ⟨m.tenantId, m.metricType, m.billingMonth, m.billingYear⟩⟩

/-- `material_request_courses`, as the collection reads it. -/
structure CourseRow where
  completedAt : Option ℕ
  pageCount : Option ℕ
  fileSizeBytes : Option ℕ
  deriving DecidableEq, Repr

/-- A tenant schema, as the collection reads it. -/
structure TenantSchema where
  /-- `is_active` of the users. -/
  users : List Bool
  /-- `used_at` of the question ledger. -/
  usedAt : List ℕ
  courses : List CourseRow
  /-- `pg_total_relation_size` of the relations. -/
  relationSizes : List ℕ

/-- `BYTES_PER_MB`. -/
def bytesPerMb : ℕ := 1024 * 1024

/-- `Math.round` of a quotient. -/
def roundDiv (a b : ℕ) : ℕ := (2 * a + b) / (2 * b)

/-- An instant lies in a window that is open at its end. -/
def within (start stop : ℕ) (t : ℕ) : Bool := start ≤ t && t < stop

/-- `SUM(page_count)` of the courses that were completed in a window. -/
def pagesWithin (start stop : ℕ) (courses : List CourseRow) : ℕ :=
  ((courses.filter fun c => c.completedAt.any (within start stop)).map fun c =>
    c.pageCount.getD 0).sum

/-- The metrics of a tenant schema for a month. -/
def TenantSchema.metrics (s : TenantSchema) (monthStart monthEndExclusive : ℕ) :
    MetricType → ℕ
  | .activeUsers => (s.users.filter fun isActive => isActive).length
  | .questionsUsed => (s.usedAt.filter (within monthStart monthEndExclusive)).length
  | .pdfPagesGenerated => pagesWithin monthStart monthEndExclusive s.courses
  | .storageMb =>
    roundDiv (s.relationSizes.sum + (s.courses.map fun c => c.fileSizeBytes.getD 0).sum) bytesPerMb

/-- `upsertMetric`. -/
def upsertMetric (table : Table MetricKey ConsumptionMetric) (tenantId : TenantId)
    (metricType : MetricType) (value billingMonth billingYear : ℕ) :
    Table MetricKey ConsumptionMetric :=
  table.upsert ⟨tenantId, metricType, value, billingMonth, billingYear⟩ fun m =>
    { m with value := value }

/-- What happens for one tenant at a tick. -/
structure Collection where
  schema : TenantSchema
  /-- The queries on the schema fail. -/
  queryFails : Bool
  /-- The upsert of a metric fails. -/
  upsertFails : MetricType → Bool

/-- `collectForTenant`. -/
def collectForTenant (tenantId : TenantId) (billingYear billingMonth : ℕ) (c : Collection)
    (table : Table MetricKey ConsumptionMetric) : Table MetricKey ConsumptionMetric :=
  if c.queryFails then table
  else
    [MetricType.activeUsers, .questionsUsed, .pdfPagesGenerated, .storageMb].foldl
      (fun table metric =>
        if c.upsertFails metric then table
        else
          upsertMetric table tenantId metric
            (c.schema.metrics (utc billingYear (billingMonth - 1)) (utc billingYear billingMonth)
              metric) billingMonth billingYear)
      table

/-- `collectForAllTenants` at an instant. -/
def collectForAllTenants (companies : List TenantId) (now : ℕ) (collect : TenantId → Collection)
    (table : Table MetricKey ConsumptionMetric) : Table MetricKey ConsumptionMetric :=
  companies.foldl
    (fun table tenantId =>
      collectForTenant tenantId (getUTCFullYear now) (getUTCMonth now + 1) (collect tenantId) table)
    table

end Odiseo.Dashboard
