import StructuredExtractor.Extraction.Processor
import StructuredExtractor.Extraction.SchemaCalls

/-! # What processing asks and raises

Nothing below the processor raises an exception that is wrapped for recording, and
the extraction asks for completions only. So the exceptions that are wrapped carry
what the processor resolved itself.
-/
namespace StructuredExtractor

/-- An exception that was not wrapped for recording. -/
def Exc.Inner : Exc → Prop
  | .documentProcessing _ _ => False
  | _ => True

/-- An exception that is no extraction error, wrapped or not. -/
def Exc.Bare : Exc → Prop
  | .extraction _ => False
  | .documentProcessing _ _ => False
  | _ => True

theorem Raises.inner {α : Type} {r : Except Exc α} (h : Raises Exc.Bare r) : Raises Exc.Inner r := by
  intro e he
  have hbare := h e he
  cases e with
  | documentProcessing resolved original => exact hbare
  | _ => trivial

section Pure

theorem getSchema_raises (docType : String) : Raises Exc.Bare (SchemaRegistry.getSchema docType) := by
  unfold SchemaRegistry.getSchema
  split
  · exact raises_ok _
  · exact raises_error trivial

namespace Validation

theorem normalizeMoney_raises (d : Decimal) : Raises Exc.Bare (normalizeMoney d) :=
  raises_mapError fun _ => trivial

theorem addMoney_raises (a b : Decimal) : Raises Exc.Bare (addMoney a b) :=
  raises_mapError fun _ => trivial

theorem subMoney_raises (a b : Decimal) : Raises Exc.Bare (subMoney a b) :=
  raises_mapError fun _ => trivial

theorem totalWarnings_raises (r : Record) (message : String) :
    Raises Exc.Bare (totalWarnings r message) := by
  unfold totalWarnings
  split
  · refine (addMoney_raises _ _).bind fun _ => (normalizeMoney_raises _).bind fun _ =>
      (normalizeMoney_raises _).bind fun _ => ?_
    split <;> exact raises_ok _
  · exact raises_ok _

theorem deductionAmount_raises (v : Value) : Raises Exc.Bare (deductionAmount v) := by
  unfold deductionAmount
  split
  · split
    · exact raises_ok _
    · exact raises_error trivial
  · exact raises_error trivial

theorem payslipWarnings_raises (r : Record) : Raises Exc.Bare (payslipWarnings r) := by
  unfold payslipWarnings
  split
  · refine (raises_foldlM (fun _ _ => (deductionAmount_raises _).bind fun _ => addMoney_raises _ _) _).bind
      fun _ => (subMoney_raises _ _).bind fun _ => (normalizeMoney_raises _).bind fun _ =>
        (normalizeMoney_raises _).bind fun _ => ?_
    split <;> exact raises_ok _
  · exact raises_ok _

theorem qualityWarnings_raises (s : Schema) (r : Record) : Raises Exc.Bare (qualityWarnings s r) := by
  unfold qualityWarnings
  cases s.cls with
  | invoice => exact totalWarnings_raises r _
  | payslip => exact payslipWarnings_raises r
  | receipt => exact totalWarnings_raises r _
  | contract => exact raises_ok _

theorem hasMember_raises (raw : Json) (name : String) : Raises Exc.Bare (raw.hasMember name) := by
  cases raw <;> first | exact raises_ok _ | exact raises_error trivial

theorem getItem_raises (raw : Json) (name : String) : Raises Exc.Bare (raw.getItem name) := by
  unfold Json.getItem
  split
  · split
    · exact raises_ok _
    · exact raises_error trivial
  · exact raises_error trivial

theorem missingWarnings_raises (raw : Json) (reported : List String) (fs : List FieldInfo) :
    Raises Exc.Bare (missingWarnings raw reported fs) := by
  induction fs with
  | nil => exact raises_ok _
  | cons f fs ih =>
    refine (hasMember_raises raw f.name).bind fun _ => ih.bind fun _ => ?_
    split <;> exact raises_ok _

variable (P : Pydantic) (u : Unicode) (s : Schema)

theorem validatedFieldValue_raises (f : FieldInfo) (v : Json) :
    Raises Exc.Bare (validatedFieldValue P u s f v) := by
  unfold validatedFieldValue
  split
  · split
    · exact raises_ok _
    · exact raises_error trivial
  · exact raises_mapError fun _ => trivial

theorem recoverFields_raises (raw : Json) (invalid : List String) (fs : List FieldInfo) :
    Raises Exc.Bare (recoverFields P u s raw invalid fs) := by
  induction fs with
  | nil => exact raises_ok _
  | cons f fs ih =>
    refine (hasMember_raises raw f.name).bind fun _ => ?_
    split
    · exact ih.bind fun _ => raises_ok _
    · exact (getItem_raises raw f.name).bind fun _ => (validatedFieldValue_raises P u s f _).bind fun _ =>
        ih.bind fun _ => raises_ok _

theorem validateExtraction_raises (docType : String) (raw : Json) :
    Raises Exc.Bare (validateExtraction P u docType raw) := by
  refine (getSchema_raises docType).bind fun s => ?_
  split
  · refine Raises.bind ?_ fun _ => (recoverFields_raises P u s raw _ _).bind fun _ =>
      (qualityWarnings_raises s _).bind fun _ => raises_ok _
    exact (missingWarnings_raises raw _ _).bind fun _ => raises_ok _
  · exact (qualityWarnings_raises s _).bind fun _ => raises_ok _

end Validation

theorem scoreConfidenceMap_raises (u : Unicode) (docType : String) (data : Option Dict) :
    Raises Exc.Bare (Confidence.scoreConfidenceMap u docType data) :=
  (getSchema_raises docType).bind fun _ => raises_ok _

theorem mergeResults_raises (perPage : List (Dict × ℕ)) (docType : String) :
    Raises Exc.Bare (Merge.mergeResults perPage docType) :=
  (getSchema_raises docType).bind fun _ => raises_ok _

theorem getTool_raises (L : Libraries) (docType : String) :
    Raises Exc.Bare (SchemaRegistry.getTool L docType) :=
  (getSchema_raises docType).bind fun _ => raises_ok _

theorem firstMessage_raises (r : Response) : Raises Exc.Bare r.firstMessage := by
  unfold Response.firstMessage
  split
  · exact raises_error trivial
  · exact raises_error trivial
  · exact raises_error trivial
  · split
    · exact raises_ok _
    · exact raises_error trivial

theorem resultOfResponse_raises (toolName : String) (r : Response) :
    Raises Exc.Bare (LiteLLMClient.resultOfResponse toolName r) := by
  have hfirst := firstMessage_raises r
  unfold LiteLLMClient.resultOfResponse
  cases h : r.firstMessage with
  | error e =>
    refine raises_error ?_
    have he := hfirst e h
    unfold LiteLLMClient.noChoices
    split
    · split <;> trivial
    · split <;> trivial
    · exact he
  | ok m =>
    dsimp only
    split
    · exact raises_error trivial
    · split
      · exact raises_ok _
      · rename_i call _ _
        unfold LiteLLMClient.parseToolCall
        split
        · exact raises_error trivial
        · cases call.arguments with
          | object d => exact raises_ok _
          | text v => cases v <;> first | exact raises_ok _ | exact raises_error trivial

theorem textOfResponse_raises (r : Response) : Raises Exc.Bare (LiteLLMClient.textOfResponse r) := by
  unfold LiteLLMClient.textOfResponse
  split
  · exact raises_error trivial
  · split
    · exact raises_error trivial
    · exact raises_ok _

end Pure

/-- The usage events of a classifier that was asked once at most. -/
def ClassifiedOnce (events : List LLMUsageEvent) : Prop :=
  events.length ≤ 1 ∧ ∀ e ∈ events, e.purpose = .classifier

/-- What is recorded of an outcome has at most one classifier event. -/
def ClassifiedOutcome : Except Exc DocumentProcessingResult → Prop
  | .ok r => ClassifiedOnce r.classifierUsageEvents
  | .error (.documentProcessing resolved _) => ClassifiedOnce resolved.usageEvents
  | .error _ => True

/-- A question to the provider. -/
def ModelOp.IsCompletion : ModelOp → Prop
  | .acompletion _ => True
  | .monotonic => False

section Programs
variable (L : Libraries)

/-- The program asks only the provider, and raises nothing that is wrapped. -/
abbrev Prog.Plain {α : Type} (p : ModelProg α) : Prop := p.Always ModelOp.IsCompletion (Raises Exc.Inner)

theorem completion_plain {α : Type} {f : Response → ModelProg α} (request : Request)
    (hf : ∀ r, (f r).Plain) :
    (tryCatch (acompletion request) (fun _ => throw LiteLLMClient.completionFailed) >>= f).Plain :=
  (Prog.always_catch (Prog.only_perform trivial) fun _ => Prog.always_throw trivial).bind hf

theorem generateText_plain (model : String) (messages : List Message) (maxTokens : ℕ) :
    (LiteLLMClient.generateText model messages maxTokens).Plain :=
  completion_plain _ fun r => (textOfResponse_raises r).inner

theorem callTool_plain (model systemPrompt userContent : String) (tool : Tool) (toolName : String)
    (extraMessages : List Message) :
    (LiteLLMClient.callTool L model systemPrompt userContent tool toolName extraMessages).Plain :=
  Prog.Always.bind (LiteLLMClient.toolFor_raises trivial trivial trivial L model tool toolName) fun _ =>
    completion_plain _ fun r => (resultOfResponse_raises toolName r).inner

theorem attempt_plain (x : ToolCallExtractor) (tool : Tool) (toolName text : String)
    (attempts inputTokens outputTokens : ℕ) (extraMessages : List Message) :
    (ToolCallExtractor.attempt L x tool toolName text attempts inputTokens outputTokens
      extraMessages).Plain := by
  refine Prog.always_tryCatch (callTool_plain L _ _ _ _ _ _) (fun a _ => raises_ok a) fun e he => ?_
  split
  · exact Prog.always_throw trivial
  · exact Prog.always_throw (he e rfl)

theorem loop_plain (x : ToolCallExtractor) (tool : Tool) (text docType : String)
    (left attempts inputTokens outputTokens : ℕ) (extraMessages : List Message) :
    (ToolCallExtractor.loop L x tool text docType left attempts inputTokens outputTokens
      extraMessages).Plain := by
  induction left generalizing attempts inputTokens outputTokens extraMessages with
  | zero => exact Prog.always_throw trivial
  | succ left ih =>
    refine (attempt_plain L x tool _ text _ _ _ _).bind fun result => ?_
    dsimp only
    split
    · exact raises_ok _
    · exact ih _ _ _ _

theorem extract_plain (x : ToolCallExtractor) (text docType : String) :
    (ToolCallExtractor.extract L x text docType).Plain :=
  Prog.Always.bind (getTool_raises L docType).inner fun tool => loop_plain L x tool text docType _ _ _ _ _

namespace PageStrategyRunner
variable {extract : TextExtractor} (hextract : ∀ text docType, (extract text docType).Plain)
include hextract

theorem pageStep_plain (docType : String) (t : PageTotals) (page : String × ℕ) :
    (pageStep extract docType t page).Plain := by
  unfold pageStep
  split
  · exact raises_ok _
  · have hattempt : (attemptPage extract page.2 page.1 docType).Plain := by
      have hok : ∀ r : Except Exc Extracted, Raises Exc.Inner r →
          Raises Exc.Inner (r.map (Except.ok : Extracted → Except ExtractionError Extracted)) := by
        intro r hr
        cases r with
        | ok a => exact raises_ok _
        | error e => exact raises_error (hr e rfl)
      refine Prog.always_tryCatch (Prog.always_map (Prog.Always.mono (hextract _ _) (fun _ h => h) hok))
        (fun a _ => raises_ok a) fun e he => ?_
      · split
        · exact raises_ok _
        · exact Prog.always_throw (he e rfl)
    refine hattempt.bind fun r => ?_
    cases r with
    | error e => exact raises_ok _
    | ok x =>
      show Raises Exc.Inner (t.add page.2 x)
      unfold PageTotals.add
      split
      · exact raises_ok _
      · exact raises_error trivial

theorem extractFromPages_plain (u : Unicode) (pages : List String) (docType : String)
    (strategy : ExtractionStrategy) : (extractFromPages extract u pages docType strategy).Plain := by
  cases strategy with
  | full => exact (hextract _ docType).bind fun _ => raises_ok _
  | smart => exact (hextract _ docType).bind fun _ => raises_ok _
  | pageByPage =>
    refine (Prog.always_foldlM (fun t page => pageStep_plain hextract docType t page) _).bind fun t => ?_
    show Raises Exc.Inner (finish pages docType t)
    unfold finish
    split
    · exact raises_error trivial
    · exact (mergeResults_raises _ docType).inner.bind fun _ => raises_ok _

end PageStrategyRunner

namespace DocumentProcessor
variable (p : DocumentProcessor)

theorem resolveDocType_plain (input : ProcessingInput) : (resolveDocType p input).Plain := by
  unfold resolveDocType
  split
  · exact raises_ok _
  · refine Prog.Always.bind ?_ fun _ => raises_ok _
    refine Prog.Always.bind ?_ fun _ => raises_ok _
    refine Prog.always_tryCatch (generateText_plain _ _ _) (fun a _ => raises_ok a) fun e he => ?_
    split
    · exact Prog.always_throw trivial
    · exact Prog.always_throw (he e rfl)

theorem resolveStrategy_raises (strategy : Option String) (pageCount : ℕ) :
    Raises Exc.Inner (PageStrategyRunner.resolveStrategy strategy pageCount) := by
  unfold PageStrategyRunner.resolveStrategy
  split
  · unfold ExtractionStrategy.ofValue
    split_ifs <;> first | exact raises_ok _ | exact raises_error trivial
  · exact raises_ok _

theorem validateDocType_raises (docType : String) : Raises Exc.Inner (validateDocType docType) := by
  unfold validateDocType
  split
  · exact raises_ok _
  · exact raises_error trivial

theorem resolveExtractionInput_plain (input : ProcessingInput) :
    (resolveExtractionInput p input).Plain :=
  (resolveDocType_plain p input).bind fun r => Prog.Always.bind (validateDocType_raises r.1) fun _ =>
    Prog.Always.bind (resolveStrategy_raises input.strategy input.pageCount) fun _ => raises_ok _

theorem resolveDocType_classified (input : ProcessingInput) :
    (resolveDocType p input).Always (fun _ => True) fun r => ∀ x, r = .ok x → ClassifiedOnce x.2 := by
  unfold resolveDocType
  split
  · rintro x h
    obtain rfl := Except.ok.inj h
    exact ⟨Nat.zero_le 1,fun _ h => by cases h⟩
  · have hclassify : (ClassifierService.classify p.libraries p.classifier (input.pages.headD "")).Always
        (fun _ => True) fun r => ∀ x, r = .ok x → x.usage.purpose = .classifier := by
      refine Prog.always_bind (R := fun _ => True) ?_ ?_ fun _ _ _ h => by cases h
      · have hreply : ∀ request, (LiteLLMClient.generateText p.classifier.model request 25).Only
            (fun _ => True) := fun request =>
          (generateText_plain _ request 25).mono (fun _ _ => trivial) fun _ _ => trivial
        exact Prog.Only.tryCatch (hreply _) fun e => by split <;> trivial
      · rintro a - x h
        obtain rfl := Except.ok.inj h
        rfl
    refine Prog.always_bind hclassify ?_ fun _ _ _ h => by cases h
    rintro classification hpurpose x h
    obtain rfl := Except.ok.inj h
    refine ⟨Nat.le_refl 1,fun e he => ?_⟩
    obtain rfl := List.mem_singleton.mp he
    exact hpurpose _ rfl

theorem resolveExtractionInput_classified (input : ProcessingInput) :
    (resolveExtractionInput p input).Always (fun _ => True) fun r =>
      ∀ x, r = .ok x → ClassifiedOnce x.usageEvents := by
  refine Prog.always_bind (resolveDocType_classified p input) ?_ fun _ _ _ h => by cases h
  rintro ⟨docType,usageEvents⟩ hevents
  refine Prog.always_bind (R := fun _ => True) trivial (fun _ _ => ?_) fun _ _ _ h => by cases h
  refine Prog.always_bind (R := fun _ => True) trivial (fun strategy _ => ?_) fun _ _ _ h => by cases h
  rintro x h
  obtain rfl := Except.ok.inj h
  exact hevents _ rfl

/-- `run_resolved` after the extraction. -/
def resultOf (docType : String) (durationMs : ℤ) (extraction : StrategyExtractionResult) :
    Except Exc PipelineResult := do
  let validation ← Validation.validateExtraction p.libraries.pydantic p.libraries.unicode docType
    extraction.rawOutput
  let confidenceMap ← Confidence.scoreConfidenceMap p.libraries.unicode docType validation.extractedData
  return {
    docType, validation, extraction, confidenceMap
    warnings := validation.warnings ++ extraction.warnings, durationMs }

/-- The extraction that `run_resolved` runs. -/
def extraction (pages : List String) (docType : String) (strategy : ExtractionStrategy) :
    ModelProg StrategyExtractionResult :=
  PageStrategyRunner.extractFromPages (ToolCallExtractor.extract p.libraries p.extractor)
    p.libraries.unicode pages docType strategy

variable (pages : List String) (docType : String) (strategy : ExtractionStrategy) (e : ModelEnv)

/-- The clock is read before and after the extraction. -/
theorem run_runResolved : (runResolved p pages docType strategy).run ModelEnv.handler e =
    match (extraction p pages docType strategy).run ModelEnv.handler e.tick with
    | (.error x,e') => (.error x,e')
    | (.ok r,e') => (resultOf p docType (durationMs e.clock.head e'.clock.head) r,e'.tick) := by
  rw [runResolved,Prog.run_bind,ModelEnv.run_monotonic,Prog.andThen_ok,Prog.run_bind,← extraction]
  rcases (extraction p pages docType strategy).run ModelEnv.handler e.tick with ⟨x | r,e'⟩
  · rfl
  · rw [Prog.andThen_ok,Prog.run_bind,ModelEnv.run_monotonic,Prog.andThen_ok,Prog.run_bind,
      Prog.run_ofExcept]
    dsimp only [resultOf]
    cases Validation.validateExtraction p.libraries.pydantic p.libraries.unicode docType r.rawOutput with
    | error x => rfl
    | ok validation =>
      rw [Prog.andThen_ok,Prog.run_bind,Prog.run_ofExcept]
      simp only [bind,Except.bind]
      cases Confidence.scoreConfidenceMap p.libraries.unicode docType validation.extractedData <;> rfl

theorem resultOf_raises (durationMs : ℤ) (r : StrategyExtractionResult) :
    Raises Exc.Bare (resultOf p docType durationMs r) :=
  (Validation.validateExtraction_raises _ _ docType _).bind fun _ =>
    (scoreConfidenceMap_raises _ docType _).bind fun _ => raises_ok _

theorem extraction_plain : (extraction p pages docType strategy).Plain :=
  PageStrategyRunner.extractFromPages_plain (extract_plain p.libraries p.extractor) _ pages docType strategy

theorem runResolved_raises :
    Raises Exc.Inner ((runResolved p pages docType strategy).run ModelEnv.handler e).1 := by
  have hraises := (extraction_plain p pages docType strategy).run ModelEnv.handler e.tick
  rw [run_runResolved]
  revert hraises
  rcases (extraction p pages docType strategy).run ModelEnv.handler e.tick with ⟨x | r,e'⟩
  · exact fun h => raises_error (h x rfl)
  · exact fun _ => (resultOf_raises p docType _ r).inner

/-- An extraction error is wrapped for recording, together with what was resolved. -/
def wrapped (resolved : ResolvedDocumentInput) : Exc → Exc
  | .extraction e => .documentProcessing resolved e
  | e => e

/-- `process_pages` resolves its input, runs the pipeline and wraps what it raises. -/
theorem run_processPages (input : ProcessingInput) : (processPages p input).run ModelEnv.handler e =
    match (resolveExtractionInput p input).run ModelEnv.handler e with
    | (.error x,e') => (.error x,e')
    | (.ok resolved,e') =>
      match (runResolved p input.pages resolved.docType resolved.strategy).run ModelEnv.handler e' with
      | (.error x,e'') => (.error (wrapped resolved x),e'')
      | (.ok pipeline,e'') => (.ok ⟨pipeline,resolved.usageEvents⟩,e'') := by
  rw [processPages,Prog.run_bind]
  rcases (resolveExtractionInput p input).run ModelEnv.handler e with ⟨x | resolved,e'⟩
  · rfl
  · rw [Prog.andThen_ok,Prog.run_bind,Prog.run_tryCatch]
    dsimp only
    rcases (runResolved p input.pages resolved.docType resolved.strategy).run ModelEnv.handler e' with
      ⟨x | pipeline,e''⟩
    · cases x <;> rfl
    · rfl

/-- A result holds the validation of the extraction that it holds. -/
theorem processPages_validated {input : ProcessingInput} {result : DocumentProcessingResult}
    (h : ((processPages p input).run ModelEnv.handler e).1 = .ok result) :
    Validation.validateExtraction p.libraries.pydantic p.libraries.unicode result.pipeline.docType
      result.pipeline.extraction.rawOutput = .ok result.pipeline.validation := by
  rw [run_processPages] at h
  revert h
  rcases (resolveExtractionInput p input).run ModelEnv.handler e with ⟨x | resolved,e'⟩
  · intro h
    cases h
  · dsimp only
    rw [run_runResolved]
    rcases (extraction p input.pages resolved.docType resolved.strategy).run ModelEnv.handler e'.tick with
      ⟨x | extraction,e''⟩
    · intro h
      cases h
    · dsimp only
      cases hr : resultOf p resolved.docType (durationMs e'.clock.head e''.clock.head) extraction with
      | error x => intro h; cases h
      | ok pipeline =>
        intro h
        cases h
        obtain ⟨validation,hv,hr⟩ := bind_eq_ok hr
        obtain ⟨confidenceMap,-,hr⟩ := bind_eq_ok hr
        cases hr
        exact hv

/-- An exception that is wrapped carries what was resolved. -/
theorem processPages_classified (input : ProcessingInput) :
    ClassifiedOutcome ((processPages p input).run ModelEnv.handler e).1 := by
  have hevents := (resolveExtractionInput_classified p input).run ModelEnv.handler e
  have hinner := (resolveExtractionInput_plain p input).run ModelEnv.handler e
  rw [run_processPages]
  revert hevents hinner
  rcases (resolveExtractionInput p input).run ModelEnv.handler e with ⟨x | resolved,e'⟩
  · rintro - hinner
    have hx := hinner x rfl
    cases x with
    | documentProcessing resolved error => exact absurd hx id
    | _ => trivial
  · rintro hevents -
    have hraises := runResolved_raises p input.pages resolved.docType resolved.strategy e'
    revert hraises
    dsimp only
    rcases (runResolved p input.pages resolved.docType resolved.strategy).run ModelEnv.handler e' with
      ⟨x | pipeline,e''⟩
    · intro hraises
      have hx := hraises x rfl
      cases x with
      | documentProcessing resolved error => exact absurd hx id
      | extraction error => exact hevents _ rfl
      | _ => trivial
    · exact fun _ => hevents _ rfl

end DocumentProcessor

end Programs

section Clock

/-- Results without their durations. -/
def PipelineResult.timeless (r : PipelineResult) : PipelineResult := { r with durationMs := 0 }

def DocumentProcessingResult.timeless (r : DocumentProcessingResult) : DocumentProcessingResult :=
  { r with pipeline := r.pipeline.timeless }

/-- The environment with another clock. -/
def ModelEnv.withClock (e : ModelEnv) (clock : Stream' ℚ) : ModelEnv := { e with clock }

variable (clock : Stream' ℚ)

/-- A program that does not ask the clock does not depend on it. -/
theorem run_withClock {α : Type} {q : ModelProg α} {Q : Except Exc α → Prop}
    (hq : q.Always ModelOp.IsCompletion Q) (e : ModelEnv) :
    q.run ModelEnv.handler (e.withClock clock) =
      ((q.run ModelEnv.handler e).1,(q.run ModelEnv.handler e).2.withClock clock) := by
  induction q generalizing e with
  | done r => rfl
  | call op k ih =>
    cases op with
    | acompletion request => exact ih _ (hq.2 _) (e.ask request)
    | monotonic => exact absurd hq.1 id

namespace DocumentProcessor
variable (p : DocumentProcessor)

theorem resultOf_timeless (docType : String) (durationMs : ℤ) (r : StrategyExtractionResult) :
    (resultOf p docType durationMs r).map PipelineResult.timeless = resultOf p docType 0 r := by
  dsimp only [resultOf,bind,Except.bind]
  cases Validation.validateExtraction p.libraries.pydantic p.libraries.unicode docType r.rawOutput with
  | error x => rfl
  | ok validation =>
    dsimp only
    cases Confidence.scoreConfidenceMap p.libraries.unicode docType validation.extractedData <;> rfl

theorem runResolved_clock (pages : List String) (docType : String) (strategy : ExtractionStrategy)
    (e : ModelEnv) :
    ((runResolved p pages docType strategy).run ModelEnv.handler (e.withClock clock)).1.map
        PipelineResult.timeless =
      ((runResolved p pages docType strategy).run ModelEnv.handler e).1.map PipelineResult.timeless := by
  have htick : (e.withClock clock).tick = e.tick.withClock clock.tail := rfl
  rw [run_runResolved,run_runResolved,htick,run_withClock _ (extraction_plain p pages docType strategy)]
  rcases (extraction p pages docType strategy).run ModelEnv.handler e.tick with ⟨x | r,e'⟩
  · rfl
  · exact (resultOf_timeless p docType _ r).trans (resultOf_timeless p docType _ r).symm

/-- The clock makes a difference to the durations only. -/
theorem processPages_clock (input : ProcessingInput) (e : ModelEnv) :
    ((processPages p input).run ModelEnv.handler (e.withClock clock)).1.map
        DocumentProcessingResult.timeless =
      ((processPages p input).run ModelEnv.handler e).1.map DocumentProcessingResult.timeless := by
  rw [run_processPages,run_processPages,run_withClock _ (resolveExtractionInput_plain p input)]
  rcases (resolveExtractionInput p input).run ModelEnv.handler e with ⟨x | resolved,e'⟩
  · rfl
  · have hclock := runResolved_clock clock p input.pages resolved.docType resolved.strategy e'
    revert hclock
    dsimp only
    rcases (runResolved p input.pages resolved.docType resolved.strategy).run ModelEnv.handler
      (e'.withClock clock) with ⟨x | r,e₁⟩ <;>
    rcases (runResolved p input.pages resolved.docType resolved.strategy).run ModelEnv.handler e' with
      ⟨y | s,e₂⟩ <;> intro h
    · obtain rfl : x = y := Except.error.inj h
      rfl
    · cases h
    · cases h
    · have hpipeline : r.timeless = s.timeless := Except.ok.inj h
      simp only [Except.map,DocumentProcessingResult.timeless,hpipeline]

end DocumentProcessor

end Clock

end StructuredExtractor
