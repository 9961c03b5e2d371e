import StructuredExtractor.Library.Tally
import StructuredExtractor.Service.Database
import Mathlib.Data.Rat.Defs
import Mathlib.Tactic.Ring

/-! # The cost report

Two queries group the extractions, four group the usage ledger, and the service puts
their rows together. Prices, costs and averages are exact. The database may return the
rows of a query in any order.
-/
namespace StructuredExtractor
open Keyed

structure ModelTokenPrice where
  inputTokenPriceUsd : ℚ
  outputTokenPriceUsd : ℚ

def zeroModelTokenPrice : ModelTokenPrice := ⟨0,0⟩

/-- `COST_MODEL_TOKEN_PRICES_USD` -/
abbrev PriceTable := List (String × ModelTokenPrice)

def PriceTable.priceForModel (prices : PriceTable) (model : String) : Except Exc ModelTokenPrice :=
  match prices.lookup model with
  | some price => .ok price
  | none => .error .valueError

structure DocTypeCost where
  count : ℕ
  avgExtractionMs : ℚ
  totalInputTokens : ℕ
  totalOutputTokens : ℕ
  estimatedCostUsd : ℚ
  avgCostPerDocumentUsd : ℚ
  deriving DecidableEq

@[ext] structure UsageCost where
  totalInputTokens : ℕ
  totalOutputTokens : ℕ
  estimatedCostUsd : ℚ
  deriving DecidableEq

namespace UsageCost

instance : Zero UsageCost := ⟨⟨0,0,0⟩⟩

/-- How the loop over the rows adds to what a key has. -/
instance : Add UsageCost := ⟨fun a b => ⟨a.totalInputTokens + b.totalInputTokens,
  a.totalOutputTokens + b.totalOutputTokens,a.estimatedCostUsd + b.estimatedCostUsd⟩⟩

@[simp] theorem zero_input : (0 : UsageCost).totalInputTokens = 0 := rfl
@[simp] theorem zero_output : (0 : UsageCost).totalOutputTokens = 0 := rfl
@[simp] theorem zero_cost : (0 : UsageCost).estimatedCostUsd = 0 := rfl
@[simp] theorem add_input (a b : UsageCost) :
    (a + b).totalInputTokens = a.totalInputTokens + b.totalInputTokens := rfl
@[simp] theorem add_output (a b : UsageCost) :
    (a + b).totalOutputTokens = a.totalOutputTokens + b.totalOutputTokens := rfl
@[simp] theorem add_cost (a b : UsageCost) :
    (a + b).estimatedCostUsd = a.estimatedCostUsd + b.estimatedCostUsd := rfl

instance : AddCommMonoid UsageCost where
  add_assoc a b c := by ext <;> simp [add_assoc]
  zero_add a := by ext <;> simp
  add_zero a := by ext <;> simp
  add_comm a b := by ext <;> simp [add_comm]
  nsmul := nsmulRec

theorem sum_eq {α : Type} (f : α → UsageCost) (xs : List α) : (xs.map f).sum =
    ⟨(xs.map fun x => (f x).totalInputTokens).sum,(xs.map fun x => (f x).totalOutputTokens).sum,
      (xs.map fun x => (f x).estimatedCostUsd).sum⟩ := by
  induction xs with
  | nil => rfl
  | cons x xs ih =>
    rw [List.map_cons,List.sum_cons,ih]
    ext <;> simp

end UsageCost

def DocTypeCost.usage (cost : DocTypeCost) : UsageCost :=
  ⟨cost.totalInputTokens,cost.totalOutputTokens,cost.estimatedCostUsd⟩

/-- A row of the queries on the extractions. -/
structure StatsRow where
  key : String
  count : Option ℕ
  avgDurationMs : Option ℚ
  deriving DecidableEq

/-- A row of the queries on the ledger. -/
structure UsageRow where
  groupKey : String
  model : String
  totalInputTokens : Option ℕ
  totalOutputTokens : Option ℕ
  deriving DecidableEq

structure CostReportResponse where
  byDocType : List (String × DocTypeCost)
  byStrategy : List (String × DocTypeCost)
  byModel : List (String × UsageCost)
  byPurpose : List (String × UsageCost)
  totalInputTokens : ℕ
  totalOutputTokens : ℕ
  totalEstimatedCostUsd : ℚ
  totalExtractions : ℕ

structure CostBreakdown where
  breakdown : List (String × DocTypeCost)
  inputTokens : ℕ
  outputTokens : ℕ
  estimatedCost : ℚ
  extractions : ℕ

namespace CostReportService
variable (prices : PriceTable)

/-- The cost of tokens of a model; a model without a price costs nothing. -/
def tokensCost (model : String) (inputTokens outputTokens : ℕ) : UsageCost :=
  let price := match prices.priceForModel model with
    | .ok price => price
    | .error _ => zeroModelTokenPrice
  ⟨inputTokens,outputTokens,inputTokens * price.inputTokenPriceUsd + outputTokens * price.outputTokenPriceUsd⟩

def rowCost (row : UsageRow) : UsageCost :=
  tokensCost prices row.model (row.totalInputTokens.getD 0) (row.totalOutputTokens.getD 0)

/-- `_build_usage_costs` -/
def buildUsageCosts (rows : List UsageRow) : List (String × UsageCost) :=
  tally (rows.map fun row => (row.groupKey,rowCost prices row))

/-- `_empty_cost_row` -/
def emptyCostRow (row : StatsRow) : DocTypeCost where
  count := row.count.getD 0
  avgExtractionMs := row.avgDurationMs.getD 0
  totalInputTokens := 0
  totalOutputTokens := 0
  estimatedCostUsd := 0
  avgCostPerDocumentUsd := 0

/-- The row of a key with usage, by what the key has from the extractions. The average is
exact; the code divides in the decimal context, which rounds it to 28 digits. -/
def costRow (current : Option DocTypeCost) (usage : UsageCost) : DocTypeCost :=
  let count := match current with
    | some current => current.count
    | none => 0
  { count
    avgExtractionMs := match current with
      | some current => current.avgExtractionMs
      | none => 0
    totalInputTokens := usage.totalInputTokens
    totalOutputTokens := usage.totalOutputTokens
    estimatedCostUsd := usage.estimatedCostUsd
    avgCostPerDocumentUsd := if 0 < count then usage.estimatedCostUsd / count else 0 }

/-- The rows of the extractions under their keys. -/
def statsBreakdown (statsRows : List StatsRow) : List (String × DocTypeCost) :=
  merge (fun _ row => emptyCostRow row) [] (statsRows.map fun row => (row.key,row))

/-- `_build_cost_breakdown` -/
def buildCostBreakdown (statsRows : List StatsRow) (usageRows : List UsageRow) : CostBreakdown :=
  let breakdown := statsBreakdown statsRows
  let usageTotals := buildUsageCosts prices usageRows
  { breakdown := merge costRow breakdown usageTotals
    inputTokens := (usageTotals.map fun p => p.2.totalInputTokens).sum
    outputTokens := (usageTotals.map fun p => p.2.totalOutputTokens).sum
    estimatedCost := (usageTotals.map fun p => p.2.estimatedCostUsd).sum
    extractions := (breakdown.map fun p => p.2.count).sum }

/-- What the six queries return. -/
structure Rows where
  docType : List StatsRow
  strategy : List StatsRow
  docTypeUsage : List UsageRow
  strategyUsage : List UsageRow
  modelUsage : List UsageRow
  purposeUsage : List UsageRow

def generate (rows : Rows) : CostReportResponse :=
  let docTypeCosts := buildCostBreakdown prices rows.docType rows.docTypeUsage
  let strategyCosts := buildCostBreakdown prices rows.strategy rows.strategyUsage
  { byDocType := docTypeCosts.breakdown
    byStrategy := strategyCosts.breakdown
    byModel := buildUsageCosts prices rows.modelUsage
    byPurpose := buildUsageCosts prices rows.purposeUsage
    totalInputTokens := docTypeCosts.inputTokens
    totalOutputTokens := docTypeCosts.outputTokens
    totalEstimatedCostUsd := docTypeCosts.estimatedCost
    totalExtractions := docTypeCosts.extractions }

end CostReportService

section Queries

/-- `from_date` and `to_date` -/
structure Window where
  fromDate : Option Time
  toDate : Option Time
  deriving DecidableEq

/-- The `where` clauses on a `created_at`. -/
def Window.contains (w : Window) (createdAt : Time) : Prop :=
  (∀ t ∈ w.fromDate, t ≤ createdAt) ∧ ∀ t ∈ w.toDate, createdAt ≤ t

instance (w : Window) (createdAt : Time) : Decidable (w.contains createdAt) := inferInstanceAs (Decidable (_ ∧ _))

def LLMUsagePurpose.value : LLMUsagePurpose → String
  | .classifier => "classifier"
  | .extraction => "extraction"

namespace Database
variable (db : Database) (w : Window)

/-- The ledger joined with the extractions. -/
def usageJoin : List (LLMUsage × Extraction) :=
  db.llmUsages.flatMap fun u => (db.extractions.filter fun x => u.extractionId = some x.id).map fun x => (u,x)

/-- `_usage_report_stmt` -/
def usageReport (groupColumn : LLMUsage × Extraction → String) : List UsageRow :=
  (groupRows (fun p => (groupColumn p,p.1.model)) (db.usageJoin.filter fun p => w.contains p.1.createdAt)).map
    fun g => ⟨g.1.1,g.1.2,some (g.2.map fun p => p.1.inputTokens).sum,some (g.2.map fun p => p.1.outputTokens).sum⟩

/-- The count and the average of a group. -/
def statsRow (key : String) (xs : List Extraction) : StatsRow :=
  ⟨key,some xs.length,some ((xs.map fun x => (x.extractionDurationMs : ℚ)).sum / xs.length)⟩

/-- The two queries on the extractions, by their column. -/
def statsReport (column : Extraction → String) : List StatsRow :=
  (groupRows column (db.extractions.filter fun x => w.contains x.createdAt)).map fun g => statsRow g.1 g.2

def costReportData : List StatsRow := db.statsReport w Extraction.docType
def strategyCostReportData : List StatsRow := db.statsReport w Extraction.strategy
def docTypeUsageReportData : List UsageRow := db.usageReport w fun p => p.2.docType
def strategyUsageReportData : List UsageRow := db.usageReport w fun p => p.2.strategy
def modelUsageReportData : List UsageRow := db.usageReport w fun p => p.1.model
def purposeUsageReportData : List UsageRow := db.usageReport w fun p => p.1.purpose.value

/-- The database returns the rows of the queries, each in some order. -/
structure Returns (rows : CostReportService.Rows) : Prop where
  docType : rows.docType.Perm (db.costReportData w)
  strategy : rows.strategy.Perm (db.strategyCostReportData w)
  docTypeUsage : rows.docTypeUsage.Perm (db.docTypeUsageReportData w)
  strategyUsage : rows.strategyUsage.Perm (db.strategyUsageReportData w)
  modelUsage : rows.modelUsage.Perm (db.modelUsageReportData w)
  purposeUsage : rows.purposeUsage.Perm (db.purposeUsageReportData w)

end Database

end Queries

end StructuredExtractor
