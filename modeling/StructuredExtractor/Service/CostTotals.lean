import StructuredExtractor.Service.CostReport

/-! # The sums of the cost report

Every grouping of the report is a partition of the same ledger rows, and the two groupings
of extractions are partitions of the same extractions.
-/
namespace StructuredExtractor
open Keyed CostReportService

variable {prices : PriceTable} {db : Database} {w : Window}

/-- The cost of a row of the ledger. -/
def usageCost (prices : PriceTable) (u : LLMUsage) : UsageCost :=
  tokensCost prices u.model u.inputTokens u.outputTokens

/-- The cost of the ledger rows in the window. -/
def ledgerCost (prices : PriceTable) (db : Database) (w : Window) : UsageCost :=
  ((db.llmUsages.filter fun u => w.contains u.createdAt).map (usageCost prices)).sum

/-- The ids of the extractions are different, and each ledger row points to one of them. -/
structure Database.Referenced (db : Database) : Prop where
  keys : (db.extractions.map Extraction.id).Nodup
  points : ∀ u ∈ db.llmUsages, ∃ x ∈ db.extractions, u.extractionId = some x.id

/-- The ledger rows in the window, each with its extraction. -/
def Database.joinedIn (db : Database) (w : Window) : List (LLMUsage × Extraction) :=
  db.usageJoin.filter fun p => w.contains p.1.createdAt

section Usage

/-- Tokens of one model cost the same together. -/
theorem tokensCost_sum {α : Type} (model : String) (f g : α → ℕ) (xs : List α) :
    tokensCost prices model (xs.map f).sum (xs.map g).sum =
      (xs.map fun x => tokensCost prices model (f x) (g x)).sum := by
  induction xs with
  | nil => ext <;> simp [tokensCost]
  | cons x xs ih =>
    rw [List.map_cons,List.sum_cons,List.map_cons,List.sum_cons,List.map_cons,List.sum_cons,← ih]
    ext
    · rfl
    · rfl
    · simp only [tokensCost,UsageCost.add_cost,Nat.cast_add]
      ring

/-- The rows of a query on the ledger, tallied, are the costs of the ledger rows under
each key. -/
theorem buildUsageCosts_perm {col : LLMUsage × Extraction → String} {rows : List UsageRow}
    (h : rows.Perm (db.usageReport w col)) : (buildUsageCosts prices rows).Perm
      ((groupRows col (db.joinedIn w)).map fun g => (g.1,(g.2.map fun p => usageCost prices p.1).sum)) := by
  refine (tally_perm (h.map _)).trans ?_
  have hrows : (db.usageReport w col).map (fun row => (row.groupKey,rowCost prices row)) =
      (groupRows (fun p => (col p,p.1.model)) (db.joinedIn w)).map
        fun g => (g.1.1,(g.2.map fun p => usageCost prices p.1).sum) := by
    rw [Database.usageReport,List.map_map]
    refine List.map_congr_left fun g hg => ?_
    obtain ⟨k,-,rfl⟩ := List.mem_map.mp hg
    refine congrArg (Prod.mk k.1) ?_
    have hcost : ∀ p ∈ (db.joinedIn w).filter (fun p => (col p,p.1.model) = k),
        tokensCost prices k.2 p.1.inputTokens p.1.outputTokens = usageCost prices p.1 := fun p hp => by
      rw [← (of_decide_eq_true (List.mem_filter.mp hp).2 : (col p,p.1.model) = k)]
      rfl
    exact (tokensCost_sum k.2 _ _ _).trans (congrArg List.sum (List.map_congr_left hcost))
  rw [hrows]
  exact tally_groupRows col (fun p => p.1.model) _ _

theorem nodup_buildUsageCosts (prices : PriceTable) (rows : List UsageRow) :
    ((buildUsageCosts prices rows).map Prod.fst).Nodup :=
  nodup_tally _

/-- In a database whose references are kept, the join takes each ledger row once. -/
theorem usageJoin_fst (h : db.Referenced) : db.usageJoin.map Prod.fst = db.llmUsages := by
  unfold Database.usageJoin
  have hpoints := h.points
  generalize db.llmUsages = us at hpoints ⊢
  induction us with
  | nil => rfl
  | cons u us ih =>
    obtain ⟨x,hx,hu⟩ := hpoints u List.mem_cons_self
    have hone : (db.extractions.filter fun y => u.extractionId = some y.id) = [x] := by
      rw [← filter_key_eq h.keys hx]
      refine List.filter_congr fun y _ => decide_eq_decide.mpr ?_
      rw [hu,Option.some.injEq,eq_comm]
    rw [List.flatMap_cons,List.map_append,ih fun v hv => hpoints v (List.mem_cons_of_mem u hv),hone]
    rfl

theorem joinedIn_cost (h : db.Referenced) :
    ((db.joinedIn w).map fun p => usageCost prices p.1).sum = ledgerCost prices db w := by
  have hfst : (db.joinedIn w).map Prod.fst = db.llmUsages.filter fun u => w.contains u.createdAt := by
    rw [← usageJoin_fst h,List.filter_map]
    rfl
  rw [ledgerCost,← hfst,List.map_map]
  rfl

/-- Whatever the column is, the costs under its keys make up the cost of the ledger. -/
theorem buildUsageCosts_sum (hdb : db.Referenced) {col : LLMUsage × Extraction → String} {rows : List UsageRow}
    (h : rows.Perm (db.usageReport w col)) :
    ((buildUsageCosts prices rows).map Prod.snd).sum = ledgerCost prices db w := by
  rw [((buildUsageCosts_perm h).map Prod.snd).sum_eq,List.map_map,← joinedIn_cost hdb]
  exact sum_groupRows col (fun p => usageCost prices p.1) (db.joinedIn w)

end Usage

section Breakdown
variable {column : Extraction → String} {col : LLMUsage × Extraction → String}
variable {statsRows statsRows' : List StatsRow} {usageRows usageRows' : List UsageRow}

/-- The extractions that are counted. -/
def Database.countedIn (db : Database) (w : Window) : List Extraction :=
  db.extractions.filter fun x => w.contains x.createdAt

/-- The keys of a query on the extractions are different. -/
theorem nodup_statsRows (h : statsRows.Perm (db.statsReport w column)) : (statsRows.map StatsRow.key).Nodup := by
  refine (h.map _).nodup_iff.mpr ?_
  rw [Database.statsReport,List.map_map]
  exact nodup_groupRows column _

theorem nodup_statsBreakdown (statsRows : List StatsRow) : ((statsBreakdown statsRows).map Prod.fst).Nodup :=
  nodup_merge List.nodup_nil

theorem lookup_statsBreakdown (h : (statsRows.map StatsRow.key).Nodup) (key : String) :
    (statsBreakdown statsRows).lookup key =
      ((statsRows.map fun row => (row.key,row)).lookup key).map emptyCostRow := by
  have hn : ((statsRows.map fun row => (row.key,row)).map Prod.fst).Nodup := by rwa [List.map_map]
  rw [statsBreakdown,lookup_merge hn]
  cases (statsRows.map fun row => (row.key,row)).lookup key <;> rfl

/-- What the extractions give to a key has no usage yet. -/
theorem usage_statsBreakdown (h : (statsRows.map StatsRow.key).Nodup) {key : String} {v : DocTypeCost}
    (hv : (statsBreakdown statsRows).lookup key = some v) : v.usage = 0 := by
  rw [lookup_statsBreakdown h] at hv
  obtain ⟨row,-,rfl⟩ := Option.map_eq_some_iff.mp hv
  rfl

theorem statsBreakdown_count (h : statsRows.Perm (db.statsReport w column)) :
    ((statsBreakdown statsRows).map fun p => p.2.count).sum = (db.countedIn w).length := by
  have hn : ((statsRows.map fun row => (row.key,row)).map Prod.fst).Nodup := by
    rw [List.map_map]
    exact nodup_statsRows h
  have hsum := sum_merge (f := fun _ row => emptyCostRow row) (d := []) List.nodup_nil hn DocTypeCost.count
    (fun row => (emptyCostRow row).count) (fun _ => rfl) fun _ _ _ hv => by cases hv
  rw [statsBreakdown,hsum,List.map_nil,List.sum_nil,Nat.zero_add,List.map_map]
  calc (statsRows.map fun row => (emptyCostRow row).count).sum
      = ((db.statsReport w column).map fun row => (emptyCostRow row).count).sum := (h.map _).sum_eq
    _ = ((groupRows column (db.countedIn w)).map fun g => (g.2.map fun _ => 1).sum).sum := by
      rw [Database.statsReport,List.map_map]
      refine congrArg List.sum (List.map_congr_left fun g _ => ?_)
      simp [emptyCostRow,Database.statsRow]
    _ = ((db.countedIn w).map fun _ => 1).sum := sum_groupRows column (fun _ => 1) _
    _ = (db.countedIn w).length := by simp

theorem nodup_breakdown (statsRows : List StatsRow) (usageRows : List UsageRow) :
    (((buildCostBreakdown prices statsRows usageRows).breakdown).map Prod.fst).Nodup :=
  nodup_merge (nodup_statsBreakdown statsRows)

/-- The row of a key, by its usage and its extractions. -/
theorem lookup_breakdown (statsRows : List StatsRow) (usageRows : List UsageRow) (key : String) :
    (buildCostBreakdown prices statsRows usageRows).breakdown.lookup key =
      match (buildUsageCosts prices usageRows).lookup key with
      | some usage => some (costRow ((statsBreakdown statsRows).lookup key) usage)
      | none => (statsBreakdown statsRows).lookup key := by
  refine (lookup_merge (f := costRow) (d := statsBreakdown statsRows)
    (nodup_buildUsageCosts prices usageRows) key).trans ?_
  cases (buildUsageCosts prices usageRows).lookup key <;> rfl

/-- The usage of a breakdown is that of its ledger rows, and its counts are those of its
extractions. -/
theorem breakdown_usage (h : (statsRows.map StatsRow.key).Nodup) (usageRows : List UsageRow) :
    ((buildCostBreakdown prices statsRows usageRows).breakdown.map fun p => p.2.usage).sum =
      ((buildUsageCosts prices usageRows).map Prod.snd).sum := by
  have hsum := sum_merge (f := costRow) (nodup_statsBreakdown statsRows) (nodup_buildUsageCosts prices
    usageRows) DocTypeCost.usage id (fun _ => rfl) fun p _ v hv => by
      rw [usage_statsBreakdown h hv,zero_add]
      rfl
  have hnone : (statsBreakdown statsRows).map (fun p => p.2.usage) = (statsBreakdown statsRows).map fun _ => 0 := by
    refine List.map_congr_left fun p hp => ?_
    exact usage_statsBreakdown h ((mem_iff_lookup (nodup_statsBreakdown statsRows) p).mp hp)
  refine hsum.trans ?_
  rw [hnone,List.map_const',List.sum_replicate,nsmul_zero,zero_add]
  rfl

theorem breakdown_count (statsRows : List StatsRow) (usageRows : List UsageRow) :
    ((buildCostBreakdown prices statsRows usageRows).breakdown.map fun p => p.2.count).sum =
      ((statsBreakdown statsRows).map fun p => p.2.count).sum := by
  have hsum := sum_merge (f := costRow) (nodup_statsBreakdown statsRows) (nodup_buildUsageCosts prices
    usageRows) DocTypeCost.count (fun _ => 0) (fun _ => rfl) fun p _ v hv => rfl
  refine hsum.trans ?_
  rw [List.map_const',List.sum_replicate,nsmul_zero,add_zero]

theorem breakdown_perm (h : (statsRows.map StatsRow.key).Nodup) (hstats : statsRows.Perm statsRows')
    (husage : usageRows.Perm usageRows') : (buildCostBreakdown prices statsRows usageRows).breakdown.Perm
      (buildCostBreakdown prices statsRows' usageRows').breakdown := by
  have h' : (statsRows'.map StatsRow.key).Nodup := (hstats.map _).nodup_iff.mp h
  have hn : ((statsRows.map fun row => (row.key,row)).map Prod.fst).Nodup := by rwa [List.map_map]
  refine perm_of_lookup (nodup_breakdown _ _) (nodup_breakdown _ _) fun key => ?_
  have hkey : (buildUsageCosts prices usageRows).lookup key = (buildUsageCosts prices usageRows').lookup key :=
    lookup_perm (nodup_buildUsageCosts prices usageRows) (tally_perm (husage.map _)) key
  have hrow : (statsBreakdown statsRows).lookup key = (statsBreakdown statsRows').lookup key := by
    rw [lookup_statsBreakdown h,lookup_statsBreakdown h',lookup_perm hn (hstats.map _) key]
  rw [lookup_breakdown,lookup_breakdown,hkey,hrow]

end Breakdown

section Report
variable {rows rows' : Rows}

/-- The totals of the report. -/
def CostReportResponse.total (r : CostReportResponse) : UsageCost :=
  ⟨r.totalInputTokens,r.totalOutputTokens,r.totalEstimatedCostUsd⟩

/-- Under every grouping, the input tokens, the output tokens and the costs add up to the
totals and to those of the ledger rows in the window; the counts add up too. -/
structure Agrees (prices : PriceTable) (db : Database) (w : Window) (r : CostReportResponse) : Prop where
  docType : (r.byDocType.map fun p => p.2.usage).sum = ledgerCost prices db w
  strategy : (r.byStrategy.map fun p => p.2.usage).sum = ledgerCost prices db w
  model : (r.byModel.map Prod.snd).sum = ledgerCost prices db w
  purpose : (r.byPurpose.map Prod.snd).sum = ledgerCost prices db w
  total : r.total = ledgerCost prices db w
  docTypeCount : (r.byDocType.map fun p => p.2.count).sum = r.totalExtractions
  strategyCount : (r.byStrategy.map fun p => p.2.count).sum = r.totalExtractions

/-- The same report, but for the order of the keys. -/
structure SameReport (r r' : CostReportResponse) : Prop where
  docType : r.byDocType.Perm r'.byDocType
  strategy : r.byStrategy.Perm r'.byStrategy
  model : r.byModel.Perm r'.byModel
  purpose : r.byPurpose.Perm r'.byPurpose
  total : r.total = r'.total
  extractions : r.totalExtractions = r'.totalExtractions

theorem generate_total (prices : PriceTable) (rows : Rows) :
    (generate prices rows).total = ((buildUsageCosts prices rows.docTypeUsage).map Prod.snd).sum :=
  (UsageCost.sum_eq Prod.snd _).symm

theorem generate_agrees (hdb : db.Referenced) (h : db.Returns w rows) :
    Agrees prices db w (generate prices rows) := by
  have hextractions : (generate prices rows).totalExtractions = (db.countedIn w).length :=
    statsBreakdown_count h.docType
  refine ⟨?_,?_,buildUsageCosts_sum hdb h.modelUsage,buildUsageCosts_sum hdb h.purposeUsage,?_,?_,?_⟩
  · exact (breakdown_usage (nodup_statsRows h.docType) _).trans (buildUsageCosts_sum hdb h.docTypeUsage)
  · exact (breakdown_usage (nodup_statsRows h.strategy) _).trans (buildUsageCosts_sum hdb h.strategyUsage)
  · rw [generate_total]
    exact buildUsageCosts_sum hdb h.docTypeUsage
  · rw [hextractions]
    exact (breakdown_count _ _).trans (statsBreakdown_count h.docType)
  · rw [hextractions]
    exact (breakdown_count _ _).trans (statsBreakdown_count h.strategy)

theorem generate_same (h : db.Returns w rows) (h' : db.Returns w rows') :
    SameReport (generate prices rows) (generate prices rows') where
  docType := breakdown_perm (nodup_statsRows h.docType) (h.docType.trans h'.docType.symm)
    (h.docTypeUsage.trans h'.docTypeUsage.symm)
  strategy := breakdown_perm (nodup_statsRows h.strategy) (h.strategy.trans h'.strategy.symm)
    (h.strategyUsage.trans h'.strategyUsage.symm)
  model := tally_perm ((h.modelUsage.trans h'.modelUsage.symm).map _)
  purpose := tally_perm ((h.purposeUsage.trans h'.purposeUsage.symm).map _)
  total := by
    rw [generate_total,generate_total]
    exact ((tally_perm ((h.docTypeUsage.trans h'.docTypeUsage.symm).map _)).map _).sum_eq
  extractions := (statsBreakdown_count h.docType).trans (statsBreakdown_count h'.docType).symm

end Report

section Sample

def reportedContract : Extraction where
  id := .old 1
  documentId := .old 0
  docType := "contract"
  status := .completed
  extractedData := none
  confidenceMap := none
  warnings := none
  rawToolOutput := none
  strategy := "full"
  sourcePages := none
  modelUsed := "gpt"
  inputTokens := 900
  outputTokens := 80
  extractionDurationMs := 1200
  createdAt := 10

/-- Two extractions, the second with its usage before 5. The model of the classifier has no
price. -/
def reportedDb : Database := { Database.empty with
  extractions := [reportedContract,{ reportedContract with id := .old 2,docType := "invoice",createdAt := 3 }]
  llmUsages := [⟨.old 3,.old 0,some (.old 1),.classifier,"mini",300,2,11⟩,
    ⟨.old 4,.old 0,some (.old 1),.extraction,"gpt",900,80,12⟩,
    ⟨.old 5,.old 0,some (.old 2),.extraction,"gpt",700,60,4⟩] }

def reportedRows (db : Database) (w : Window) : Rows where
  docType := db.costReportData w
  strategy := db.strategyCostReportData w
  docTypeUsage := db.docTypeUsageReportData w
  strategyUsage := db.strategyUsageReportData w
  modelUsage := db.modelUsageReportData w
  purposeUsage := db.purposeUsageReportData w

theorem reportedRows_returned (db : Database) (w : Window) : db.Returns w (reportedRows db w) :=
  ⟨.refl _,.refl _,.refl _,.refl _,.refl _,.refl _⟩

end Sample

end StructuredExtractor
