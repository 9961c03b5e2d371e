import StructuredExtractor.Service.CostTotals
import StructuredExtractor.Extraction.OnePage
import StructuredExtractor.Service.Interleaving

/-! # The window of the cost report

The extractions are counted by their own `created_at`, and the ledger is charged by its
rows' `created_at`. A window that lies between the two counts one without the other.
-/
namespace StructuredExtractor
open Keyed CostReportService

variable {prices : PriceTable} {db : Database} {w : Window}

/-- The ledger rows of the extractions that are counted. -/
def Database.countedUsage (db : Database) (w : Window) : List (LLMUsage × Extraction) :=
  db.usageJoin.filter fun p => w.contains p.2.createdAt

/-- What is under a key of a column. -/
def rowsUnder (column : Extraction → String) (key : String) (ps : List (LLMUsage × Extraction)) :
    List (LLMUsage × Extraction) :=
  ps.filter fun p => column p.2 = key

def usageUnder (prices : PriceTable) (column : Extraction → String) (key : String)
    (ps : List (LLMUsage × Extraction)) : UsageCost :=
  ((rowsUnder column key ps).map fun p => usageCost prices p.1).sum

/-- The window takes a ledger row exactly when it takes the row's extraction. -/
def Database.Unsplit (db : Database) (w : Window) : Prop :=
  ∀ p ∈ db.usageJoin, w.contains p.1.createdAt ↔ w.contains p.2.createdAt

/-- The usage under a key is the usage of the extractions that are counted under it. -/
def ChargesCounted (db : Database) (w : Window) (column : Extraction → String) : Prop :=
  ∀ key, rowsUnder column key (db.joinedIn w) = rowsUnder column key (db.countedUsage w)

theorem chargesCounted_iff (column : Extraction → String) : ChargesCounted db w column ↔ db.Unsplit w := by
  constructor
  · intro h p hp
    have hmem : p ∈ rowsUnder column (column p.2) (db.joinedIn w) ↔
        p ∈ rowsUnder column (column p.2) (db.countedUsage w) := by rw [h]
    simpa [rowsUnder,Database.joinedIn,Database.countedUsage,hp] using hmem
  · intro h key
    have hsame : db.joinedIn w = db.countedUsage w :=
      List.filter_congr fun p hp => decide_eq_decide.mpr (h p hp)
    rw [hsame]

section Breakdown
variable {column : Extraction → String} {statsRows : List StatsRow} {usageRows : List UsageRow}

/-- What the report says under a key: the extractions in the window, the ledger rows in the
window, and their quotient. -/
structure Charged (prices : PriceTable) (db : Database) (w : Window) (column : Extraction → String)
    (key : String) (cost : DocTypeCost) : Prop where
  count : cost.count = ((db.countedIn w).filter fun x => column x = key).length
  usage : cost.usage = usageUnder prices column key (db.joinedIn w)
  average : cost.avgCostPerDocumentUsd = if 0 < cost.count then cost.estimatedCostUsd / cost.count else 0

theorem lookup_statsRows (h : statsRows.Perm (db.statsReport w column)) (key : String) :
    (statsBreakdown statsRows).lookup key = if key ∈ (db.countedIn w).map column then
      some (emptyCostRow (Database.statsRow key ((db.countedIn w).filter fun x => column x = key))) else none := by
  have hn : ((statsRows.map fun row => (row.key,row)).map Prod.fst).Nodup := by
    rw [List.map_map]
    exact nodup_statsRows h
  have hrows := lookup_perm hn (h.map fun row => (row.key,row)) key
  rw [Database.statsReport,List.map_map] at hrows
  rw [lookup_statsBreakdown (nodup_statsRows h),hrows]
  refine (congrArg _ (lookup_groupRows column Database.statsRow (db.countedIn w) key)).trans ?_
  split <;> rfl

theorem lookup_usageRows {col : LLMUsage × Extraction → String} (h : usageRows.Perm (db.usageReport w col))
    (key : String) : (buildUsageCosts prices usageRows).lookup key = if key ∈ (db.joinedIn w).map col then
      some (((db.joinedIn w).filter fun p => col p = key).map fun p => usageCost prices p.1).sum else none :=
  (lookup_perm (nodup_buildUsageCosts prices usageRows) (buildUsageCosts_perm h) key).trans
    (lookup_groupRows col (fun _ ps => (ps.map fun p => usageCost prices p.1).sum) (db.joinedIn w) key)

/-- What the report says under each of its keys; what is under no key is nowhere. -/
theorem breakdown_charged (prices : PriceTable) (hstats : statsRows.Perm (db.statsReport w column))
    (husage : usageRows.Perm (db.usageReport w fun p => column p.2)) (key : String) :
    (∀ cost, (buildCostBreakdown prices statsRows usageRows).breakdown.lookup key = some cost →
      Charged prices db w column key cost) ∧
    ((buildCostBreakdown prices statsRows usageRows).breakdown.lookup key = none →
      ((db.countedIn w).filter fun x => column x = key) = [] ∧ rowsUnder column key (db.joinedIn w) = []) := by
  rw [lookup_breakdown,lookup_statsRows hstats,lookup_usageRows husage]
  have hnoRows : key ∉ (db.joinedIn w).map (fun p => column p.2) → rowsUnder column key (db.joinedIn w) = [] :=
    fun h => List.filter_eq_nil_iff.mpr fun p hp hkey => h (List.mem_map.mpr ⟨p,hp,of_decide_eq_true hkey⟩)
  have hnoCount : key ∉ (db.countedIn w).map column → ((db.countedIn w).filter fun x => column x = key) = [] :=
    fun h => List.filter_eq_nil_iff.mpr fun x hx hkey => h (List.mem_map.mpr ⟨x,hx,of_decide_eq_true hkey⟩)
  by_cases hused : key ∈ (db.joinedIn w).map fun p => column p.2
  · rw [if_pos hused]
    refine ⟨?_,fun h => by cases h⟩
    rintro cost ⟨⟩
    by_cases hcounted : key ∈ (db.countedIn w).map column
    · rw [if_pos hcounted]
      exact ⟨rfl,rfl,rfl⟩
    · rw [if_neg hcounted]
      exact ⟨by rw [hnoCount hcounted]; rfl,rfl,rfl⟩
  · rw [if_neg hused]
    by_cases hcounted : key ∈ (db.countedIn w).map column
    · rw [if_pos hcounted]
      refine ⟨?_,fun h => by cases h⟩
      rintro cost ⟨⟩
      refine ⟨rfl,?_,?_⟩
      · rw [usageUnder,hnoRows hused]
        rfl
      · simp [emptyCostRow]
    · rw [if_neg hcounted]
      exact ⟨fun cost h => by (cases h),fun _ => ⟨hnoCount hcounted,hnoRows hused⟩⟩

/-- The costs of the extractions that are counted under a key. -/
structure ChargedCounted (prices : PriceTable) (db : Database) (w : Window) (column : Extraction → String)
    (key : String) (cost : DocTypeCost) : Prop where
  usage : cost.usage = usageUnder prices column key (db.countedUsage w)
  zero : cost.count = 0 → cost.usage = 0
  average : cost.count ≠ 0 → cost.avgCostPerDocumentUsd =
    (usageUnder prices column key (db.countedUsage w)).estimatedCostUsd / cost.count

/-- Usage that is counted belongs to an extraction that is counted. -/
theorem rowsUnder_countedUsage {key : String} (h : ((db.countedIn w).filter fun x => column x = key) = []) :
    rowsUnder column key (db.countedUsage w) = [] := by
  refine List.filter_eq_nil_iff.mpr fun p hp hkey => ?_
  obtain ⟨hjoin,hwindow⟩ := List.mem_filter.mp hp
  obtain ⟨u,-,hpair⟩ := List.mem_flatMap.mp hjoin
  obtain ⟨x,hx,rfl⟩ := List.mem_map.mp hpair
  have hcounted : x ∈ db.countedIn w := List.mem_filter.mpr ⟨(List.mem_filter.mp hx).1,hwindow⟩
  exact List.filter_eq_nil_iff.mp h x hcounted hkey

theorem Charged.counted {key : String} {cost : DocTypeCost} (h : Charged prices db w column key cost)
    (hunsplit : db.Unsplit w) : ChargedCounted prices db w column key cost := by
  have husage : cost.usage = usageUnder prices column key (db.countedUsage w) := by
    rw [h.usage,usageUnder,(chargesCounted_iff column).mpr hunsplit key]
    rfl
  refine ⟨husage,fun hzero => ?_,fun hpos => ?_⟩
  · have hnone := List.length_eq_zero_iff.mp (h.count.symm.trans hzero)
    rw [husage,usageUnder,rowsUnder_countedUsage hnone]
    rfl
  · rw [h.average,if_pos (Nat.pos_of_ne_zero hpos),← husage]
    rfl

/-- A grouping of the report: its keys are those of the extractions and of the ledger rows
in the window. -/
structure Reports (prices : PriceTable) (db : Database) (w : Window) (column : Extraction → String)
    (breakdown : List (String × DocTypeCost)) : Prop where
  charged : ∀ key cost, (key,cost) ∈ breakdown → Charged prices db w column key cost
  complete : ∀ key, key ∉ breakdown.map Prod.fst →
    ((db.countedIn w).filter fun x => column x = key) = [] ∧ rowsUnder column key (db.joinedIn w) = []

theorem breakdown_reports (hstats : statsRows.Perm (db.statsReport w column))
    (husage : usageRows.Perm (db.usageReport w fun p => column p.2)) :
    Reports prices db w column (buildCostBreakdown prices statsRows usageRows).breakdown where
  charged key cost hmem := (breakdown_charged prices hstats husage key).1 cost
    ((mem_iff_lookup (nodup_breakdown _ _) (key,cost)).mp hmem)
  complete key hnone := (breakdown_charged prices hstats husage key).2 (lookup_eq_none hnone)

end Breakdown

section Report
variable {rows : Rows}

/-- **Where a window splits.** With usage after its extraction, the two are split where the
window starts or ends between them. -/
theorem split_iff {u : LLMUsage} {x : Extraction} (hlater : x.createdAt ≤ u.createdAt) :
    ¬ (w.contains u.createdAt ↔ w.contains x.createdAt) ↔
      (∃ t ∈ w.fromDate, x.createdAt < t ∧ w.contains u.createdAt) ∨
      ∃ t ∈ w.toDate, t < u.createdAt ∧ w.contains x.createdAt := by
  unfold Window.contains
  cases w.fromDate <;> cases w.toDate <;> simp <;> grind

/-- **The window of the report.** The counts are those of the extractions in the window and
the usage is that of the ledger rows in the window. The usage under the keys is that of
the extractions counted there exactly when the window splits no ledger row from its
extraction; then no count means no cost, and the average is over what is counted. -/
theorem costReport_window (prices : PriceTable) (w : Window) (h : db.Returns w rows) :
    Reports prices db w Extraction.docType (generate prices rows).byDocType ∧
    Reports prices db w Extraction.strategy (generate prices rows).byStrategy ∧
    (ChargesCounted db w Extraction.docType ↔ db.Unsplit w) ∧
    (ChargesCounted db w Extraction.strategy ↔ db.Unsplit w) ∧
    (db.Unsplit w → (∀ key cost, (key,cost) ∈ (generate prices rows).byDocType →
      ChargedCounted prices db w Extraction.docType key cost) ∧
      ∀ key cost, (key,cost) ∈ (generate prices rows).byStrategy →
        ChargedCounted prices db w Extraction.strategy key cost) := by
  have hdocType : Reports prices db w Extraction.docType (generate prices rows).byDocType :=
    breakdown_reports h.docType h.docTypeUsage
  have hstrategy : Reports prices db w Extraction.strategy (generate prices rows).byStrategy :=
    breakdown_reports h.strategy h.strategyUsage
  exact ⟨hdocType,hstrategy,chargesCounted_iff _,chargesCounted_iff _,fun hunsplit =>
    ⟨fun key cost hmem => (hdocType.charged key cost hmem).counted hunsplit,
      fun key cost hmem => (hstrategy.charged key cost hmem).counted hunsplit⟩⟩

end Report

section Sample

def samplePrices : PriceTable := [("openai/gpt-4.1-mini",⟨1,2⟩)]

theorem reportedDb_window : reportedDb.Unsplit ⟨some 5,none⟩ ∧
    Reports samplePrices reportedDb ⟨some 5,none⟩ Extraction.docType
      (generate samplePrices (reportedRows reportedDb ⟨some 5,none⟩)).byDocType ∧
    ∀ key cost, (key,cost) ∈ (generate samplePrices (reportedRows reportedDb ⟨some 5,none⟩)).byDocType →
      ChargedCounted samplePrices reportedDb ⟨some 5,none⟩ Extraction.docType key cost := by
  have hunsplit : reportedDb.Unsplit ⟨some 5,none⟩ := by unfold Database.Unsplit; decide
  have hwindow := costReport_window samplePrices ⟨some 5,none⟩ (reportedRows_returned reportedDb ⟨some 5,none⟩)
  exact ⟨hunsplit,hwindow.1,(hwindow.2.2.2.2 hunsplit).1⟩

/-- A clock that is read a microsecond later each time. -/
def tickingEnv : Env :=
  { sampleEnv (.ok "job") (toolCallReplies "contract" plainContract) with now := fun n => (n : ℤ) }

def tickingRun : Except Exc Answer × Local × World :=
  runAlone (sampleConfig true) 0 (.request (sampleExisting false)) tickingEnv storedWorld

/-- The window starts between the extraction and its usage: one contract is paid and none
is counted. -/
theorem tickingRun_split : ∃ p : ServicePool,
    Pool.Reachable (Machine.handler (sampleConfig true).processor) (Starts (sampleConfig true)) storedWorld p ∧
    p.shared.db = tickingRun.2.2.db ∧
    (∀ q ∈ p.shared.db.usageJoin, q.2.createdAt ≤ q.1.createdAt) ∧
    ¬ ChargesCounted p.shared.db ⟨some 1,none⟩ Extraction.docType ∧
    ((generate samplePrices (reportedRows p.shared.db ⟨some 1,none⟩)).byDocType.map
      fun c => (c.1,c.2.count,c.2.estimatedCostUsd,c.2.avgCostPerDocumentUsd)) = [("contract",0,744,0)] := by
  have hjoin : tickingRun.2.2.db.usageJoin.map (fun q => (q.2.createdAt,q.1.createdAt)) = [(0,1)] := by decide
  have htimes : ∀ q ∈ tickingRun.2.2.db.usageJoin, (q.2.createdAt,q.1.createdAt) = (0,1) := fun q hq =>
    List.mem_singleton.mp (hjoin ▸ List.mem_map.mpr ⟨q,hq,rfl⟩)
  have hsplit : ¬ tickingRun.2.2.db.Unsplit ⟨some 1,none⟩ := by
    intro h
    obtain ⟨q,hq,hq'⟩ := List.mem_map.mp (hjoin ▸ List.mem_singleton_self ((0 : Time),(1 : Time)))
    have hwindow := h q hq
    rw [(Prod.mk.inj hq').1,(Prod.mk.inj hq').2] at hwindow
    exact absurd hwindow (by decide)
  refine ⟨_,.through .refl (@Starts.request _ _ (sampleExisting false) tickingEnv rfl),rfl,?_,?_,?_⟩
  · intro q hq
    obtain ⟨h0,h1⟩ := Prod.mk.inj (htimes q hq)
    exact h0.trans_le (h1 ▸ Int.zero_le_ofNat 1)
  · exact fun h => hsplit ((chargesCounted_iff _).mp h)
  · decide +kernel

end Sample

end StructuredExtractor
