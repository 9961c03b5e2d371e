import StructuredExtractor.Extraction.Billing
import StructuredExtractor.Service.CostTotals
import StructuredExtractor.Service.Keys
import StructuredExtractor.Service.Ledger

/-! # From the provider's bill to the cost report

Over all runs that ended, the ledger has grown by what the provider billed them, less what
was lost: the responses that `call_tool` rejected, and all responses of a run whose
processing raised something that is not recorded. The cost report adds up the ledger.
-/
namespace StructuredExtractor
open Service DocumentProcessor

def Extraction.tokens (x : Extraction) : Tokens := (x.inputTokens,x.outputTokens)
def LLMUsage.tokens (u : LLMUsage) : Tokens := (u.inputTokens,u.outputTokens)

/-- The responses that came in while a run processed the input. -/
def responsesOf (c : Config) (model : ModelEnv) (input : ProcessingInput) : List Response :=
  ((c.processor.processPages input).run ModelEnv.handler model.tick).2.received.drop model.received.length

/-- The tokens of these responses that are in no usage row. -/
def lostOf (c : Config) (model : ModelEnv) (input : ProcessingInput) : Tokens :=
  match spent (outcomeOf c model input) with
  | some (docType,_) => lost docType (classifications input) (responsesOf c model input)
  | none => billed (responsesOf c model input)

/-- What the provider billed for a run, and how much of it was lost. -/
def billedTo (c : Config) (t : ServiceThread) : Tokens :=
  (t.loc.processed.map fun q => billed (responsesOf c t.label.env.model q.1)).sum
def lostBy (c : Config) (t : ServiceThread) : Tokens :=
  (t.loc.processed.map fun q => lostOf c t.label.env.model q.1).sum

def Action.tokens (a : Action) : Tokens := (a.usages.map LLMUsage.tokens).sum

section Run
variable {c : Config} {i : ℕ}

theorem usageRows_tokens (documentId extractionId : Uuid) (events : List LLMUsageEvent) (n : ℕ) (now : Stream' Time) :
    (usageRows i documentId extractionId n now events).map LLMUsage.tokens = events.map LLMUsageEvent.tokens := by
  induction events generalizing n now with
  | nil => rfl
  | cons event events ih =>
    rw [usageRows,List.map_cons,ih]
    rfl

/-- What is recorded of an outcome has its usage. -/
theorem recorded_spent (o : Except Exc DocumentProcessingResult) :
    (recorded c o).map (fun rec => (rec.events.map LLMUsageEvent.tokens).sum) = (spent o).map Prod.snd := by
  match o with
  | .ok r => simp [recorded,recordedSuccess,spent,extractionUsage,LLMUsageEvent.tokens,StrategyExtractionResult.tokens]
  | .error (.documentProcessing resolved e) =>
    simp [recorded,recordedFailure,spent,extractionUsage,LLMUsageEvent.tokens,ExtractionError.tokens]
  | .error (.extraction _) | .error (.classification _) | .error (.unsupportedDocumentType _) | .error (.pdfParse _)
  | .error (.documentNotFound _) | .error (.invalidUpload _) | .error (.llmClient _) | .error .pydanticValidation
  | .error (.decimalSignal _) | .error .keyError | .error .valueError | .error .typeError | .error .attributeError
  | .error .indexError | .error .recursionError | .error .pendingRollback | .error .missingGreenlet
  | .error .invalidRequest | .error (.other _) => rfl

theorem silent_tokens {as : List Action} (h : ∀ a ∈ as, a.Silent) : (as.map Action.tokens).sum = 0 := by
  refine List.sum_eq_zero fun n hn => ?_
  obtain ⟨a,ha,rfl⟩ := List.mem_map.mp hn
  rw [Action.tokens,(h a ha).2]
  rfl

/-- What a run that ended wrote to the ledger, and what it lost, is what it was billed. -/
theorem Did.billed {model : ModelEnv} {t : Trail} {as : List Action} (h : Did c i model t as) :
    (as.map Action.tokens).sum + (t.processed.map fun q => lostOf c model q.1).sum =
      (t.processed.map fun q => StructuredExtractor.billed (responsesOf c model q.1)).sum := by
  cases h with
  | nothing hprocessed hsilent =>
    rw [hprocessed,silent_tokens hsilent]
    rfl
  | @processed known before otherwise as input hprocessed hstarted hbefore hother hrec =>
    rw [hprocessed,List.map_append,List.sum_append,silent_tokens hbefore,zero_add]
    simp only [List.map_cons,List.map_nil,List.sum_cons,List.sum_nil,add_zero]
    have hspent := recorded_spent (c := c) (outcomeOf c model input)
    unfold Recording at hrec
    cases hr : recorded c (outcomeOf c model input) with
    | none =>
      rw [hr] at hrec hspent
      obtain rfl : as = otherwise := hrec
      rw [silent_tokens hother,zero_add,lostOf]
      cases hs : spent (outcomeOf c model input) with
      | none => rfl
      | some s => rw [hs] at hspent; cases hspent
    | some rec =>
      rw [hr] at hrec hspent
      obtain ⟨-,n,now,ms,rfl⟩ := hrec
      cases hs : spent (outcomeOf c model input) with
      | none => rw [hs] at hspent; cases hspent
      | some s =>
        obtain ⟨docType,tokens⟩ := s
        rw [hs] at hspent
        obtain ⟨rs,hreceived,hcharged⟩ := processPages_charged c.processor input model.tick
        have hresponses : responsesOf c model input = rs := by
          rw [responsesOf,hreceived]
          exact List.drop_left
        have hevents : (rec.events.map LLMUsageEvent.tokens).sum = tokens := Option.some.inj hspent
        have hwritten : ([Action.commit (rec.changes i n now ms known)].map Action.tokens).sum = tokens := by
          rw [List.map_singleton,List.sum_singleton,Action.tokens,changes_usages,usageRows_tokens,hevents]
        rw [hwritten,lostOf,hs,hresponses,hcharged docType tokens hs]
        exact charged_add_lost docType (classifications input) rs

end Run

section Pools
variable {c : Config} {w₀ : World} {p : ServicePool}

/-- What the runs wrote, run by run. -/
theorem tokens_by_run (h : Numbered p) : (p.shared.log.map fun q => q.2.tokens).sum =
    ((List.range p.threads.length).map fun i => ((p.shared.trace i).map Action.tokens).sum).sum := by
  have hkeys : ∀ q ∈ p.shared.log, q.1 ∈ List.range p.threads.length := fun q hq => List.mem_range.mpr (h q hq)
  have htrace : ∀ i, (p.shared.trace i).map Action.tokens =
      (p.shared.log.filter fun q => q.1 = i).map fun q => q.2.tokens := by
    intro i
    rw [World.trace]
    induction p.shared.log with
    | nil => rfl
    | cons q log ih => by_cases hq : q.1 = i <;> simp [hq,ih]
  simp only [htrace]
  exact (Keyed.sum_keys List.nodup_range Prod.fst (fun q : ℕ × Action => q.2.tokens) hkeys).symm

/-- The ledger holds what it held before and what the runs wrote. -/
def LedgerLogged (w₀ : World) (p : ServicePool) : Prop :=
  p.shared.db.llmUsages = w₀.db.llmUsages ++ p.shared.log.flatMap fun q => q.2.usages

theorem LedgerLogged.act {threads threads' : List ServiceThread} {w : World} (h : LedgerLogged w₀ ⟨threads,w⟩) (i : ℕ)
    (a : Action) : LedgerLogged w₀ ⟨threads',w.act i a⟩ := by
  have hrows : w.db.llmUsages = w₀.db.llmUsages ++ w.log.flatMap fun q => q.2.usages := h
  show (w.act i a).db.llmUsages = w₀.db.llmUsages ++ (w.act i a).log.flatMap fun q => q.2.usages
  rw [llmUsages_act,log_act,List.flatMap_append,List.flatMap_singleton,hrows,List.append_assoc]

/-- **The ledger and the bill.** When all runs have ended, the ledger holds what it held
before and what the provider billed, but for what was lost. -/
theorem ledger_billed (hlog : w₀.log = []) (hp : Pool.Reachable (Machine.handler c.processor) (Starts c) w₀ p)
    (hended : ∀ t ∈ p.threads, ∃ r, t.prog = .done r) :
    (p.shared.db.llmUsages.map LLMUsage.tokens).sum + (p.threads.map (lostBy c)).sum =
      (w₀.db.llmUsages.map LLMUsage.tokens).sum + (p.threads.map (billedTo c)).sum := by
  have hinit : LedgerLogged w₀ ⟨[],w₀⟩ := by
    show w₀.db.llmUsages = _ ++ List.flatMap _ w₀.log
    rw [hlog]
    exact (List.append_nil _).symm
  obtain ⟨hnumbered,hlogged,hends⟩ := pool_induction (I := LedgerLogged w₀) (G := fun _ _ => True) (fun h => h) hlog
    hinit (fun h _ _ _ => h) (fun _ h _ _ _ _ => h.act _ _) (fun _ h ht => ⟨trivial,by cases ht <;> exact h⟩) hp
  have hwritten : (p.shared.db.llmUsages.map LLMUsage.tokens).sum = (w₀.db.llmUsages.map LLMUsage.tokens).sum +
      (p.threads.zipIdx.map fun q => ((p.shared.trace q.2).map Action.tokens).sum).sum := by
    have hindices : List.range p.threads.length = p.threads.zipIdx.map Prod.snd := by
      rw [List.zipIdx_map_snd,List.range_eq_range']
    rw [hlogged,List.map_append,List.sum_append,List.map_flatMap,List.flatMap_def,List.sum_flatten,List.map_map]
    refine congrArg (_ + ·) ((tokens_by_run hnumbered).trans ?_)
    rw [hindices,List.map_map]
    rfl
  have hruns : ∀ q ∈ p.threads.zipIdx, ((p.shared.trace q.2).map Action.tokens).sum + lostBy c q.1 = billedTo c q.1 := by
    rintro ⟨t,i⟩ hq
    have ht := List.mem_zipIdx_iff_getElem?.mp hq
    obtain ⟨r,hdone⟩ := hended t (List.mem_of_getElem? ht)
    obtain ⟨w,htrace,-,hend⟩ := hends i t r ht hdone
    exact (hend.did (interleaved_fits c i t.label) htrace).billed
  have hthreads : ∀ f : ServiceThread → Tokens, p.threads.map f = p.threads.zipIdx.map fun q => f q.1 := fun f => by
    conv_lhs => rw [← List.zipIdx_map_fst 0 p.threads,List.map_map]
    rfl
  rw [hwritten,hthreads,hthreads,add_assoc,← List.sum_map_add,List.map_congr_left hruns]

section Report
open CostReportService

/-- Everything. -/
def wholeLedger : Window := ⟨none,none⟩

theorem ledgerCost_tokens (prices : PriceTable) (db : Database) :
    ((ledgerCost prices db wholeLedger).totalInputTokens,(ledgerCost prices db wholeLedger).totalOutputTokens) =
      (db.llmUsages.map LLMUsage.tokens).sum := by
  have hall : (db.llmUsages.filter fun u => wholeLedger.contains u.createdAt) = db.llmUsages :=
    List.filter_eq_self.mpr fun u _ => by simp [wholeLedger,Window.contains]
  rw [ledgerCost,hall]
  induction db.llmUsages with
  | nil => rfl
  | cons u us ih =>
    rw [List.map_cons,List.sum_cons,List.map_cons,List.sum_cons,← ih]
    rfl

/-- The tokens of the rows that the migration adds are those of the old extractions. -/
theorem backfill_tokens (newId : ℕ → Uuid) (db : Database) :
    ((db.backfill newId).llmUsages.map LLMUsage.tokens) = db.extractions.map Extraction.tokens := by
  show (db.extractions.zipIdx.map (Database.backfilled newId)).map LLMUsage.tokens = _
  rw [List.map_map]
  conv_rhs => rw [← List.zipIdx_map_fst 0 db.extractions,List.map_map]
  rfl

theorem Ledger.referenced {db : Database} (h : Ledger db) (hkeys : (db.extractions.map Extraction.id).Nodup) :
    db.Referenced := ⟨hkeys,fun u hu => (h.usage u hu).imp fun _ hx => ⟨hx.1,hx.2.1⟩⟩

/-- **The report and the bill.** From a migrated database on, when all runs have ended
without failures of the database, the totals of the report over the whole ledger are the
tokens of the old extractions and what the provider billed, but for what was lost. -/
theorem report_billed {old : Database} {newId : ℕ → Uuid} {files : StoragePath → Option Bytes} {queue : List Job}
    (hw₀ : (old.backfill newId).Before)
    (hp : Pool.Reachable (Machine.handler c.processor) (Starts c) ⟨old.backfill newId,files,queue,[]⟩ p)
    (hended : ∀ t ∈ p.threads, ∃ r, t.prog = .done r) (prices : PriceTable) {rows : Rows}
    (hrows : p.shared.db.Returns wholeLedger rows) :
    ((generate prices rows).totalInputTokens,(generate prices rows).totalOutputTokens) +
        (p.threads.map (lostBy c)).sum =
      (old.extractions.map Extraction.tokens).sum + (p.threads.map (billedTo c)).sum := by
  have hinit : Kept (old.backfill newId) ⟨old.backfill newId,files,queue,[]⟩ :=
    ⟨backfill_ledger newId hw₀.extractionKeys,(List.append_nil _).symm,fun p hp => by cases hp⟩
  obtain ⟨-,hkept,-⟩ := pool_induction (I := fun p => Kept (old.backfill newId) p.shared)
    (G := fun _ _ => True) (fun h => h) rfl hinit (fun h _ _ _ => h)
    (fun _ h _ _ _ hmay => h.act hw₀.extractions hmay) (fun _ h ht => ⟨trivial,h.start ht⟩) hp
  have hkeys := (keysKept_reachable rfl (hp.mono Starts.arrives)).extractionKeys hw₀
  have htotal : (generate prices rows).total = _ := (generate_agrees (hkept.ledger.referenced hkeys) hrows).total
  have htokens : ((generate prices rows).totalInputTokens,(generate prices rows).totalOutputTokens) =
      (p.shared.db.llmUsages.map LLMUsage.tokens).sum := by
    rw [← ledgerCost_tokens prices,← htotal]
    rfl
  rw [htokens,ledger_billed rfl hp hended,← backfill_tokens newId old]

end Report

end Pools

section Sample
open CostReportService

/-- The provider refuses. -/
def refusingEnv : Env := sampleEnv (.ok "job") (Stream'.const (.ok ToolCallExtractor.refusedResponse))

/-- An upload to the migrated database. -/
def refusedRun : Except Exc Answer × Local × World :=
  runAlone (sampleConfig true) 0 (.request (sampleUpload "contract" false)) refusingEnv
    ⟨oldDatabase.backfill .old,fun _ => none,[],[]⟩

def refusedThread : ServiceThread :=
  ⟨⟨.request (sampleUpload "contract" false),refusingEnv⟩,.done refusedRun.1,refusedRun.2.1⟩

/-- The refusal was billed and is in no row: the report has the old extraction only. -/
theorem refusedRun_report : billedTo (sampleConfig true) refusedThread = (812,9) ∧
    lostBy (sampleConfig true) refusedThread = (812,9) ∧
    ((generate [] (reportedRows refusedRun.2.2.db wholeLedger)).totalInputTokens,
        (generate [] (reportedRows refusedRun.2.2.db wholeLedger)).totalOutputTokens) +
      ([refusedThread].map (lostBy (sampleConfig true))).sum =
      (oldDatabase.extractions.map Extraction.tokens).sum + ([refusedThread].map (billedTo (sampleConfig true))).sum := by
  refine ⟨by decide,by decide,@report_billed (sampleConfig true) ⟨[refusedThread],refusedRun.2.2⟩ oldDatabase .old
    (fun _ => none) [] ?_
    (Pool.Reachable.through .refl (@Starts.request _ _ (sampleUpload "contract" false) refusingEnv rfl)) (fun t ht => ?_) [] (reportedRows refusedRun.2.2.db wholeLedger) (reportedRows_returned _ _)⟩
  · exact ⟨(fun id row hrow => by cases hrow),(by simp [oldDatabase,oldExtraction,Database.backfill]),
      (by simp [oldDatabase,oldExtraction,Database.backfill,Database.backfilled]),(by decide),(by decide)⟩
  · obtain rfl := List.mem_singleton.mp ht
    exact ⟨_,rfl⟩

end Sample

end StructuredExtractor
