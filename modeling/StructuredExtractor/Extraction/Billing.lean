import StructuredExtractor.Extraction.Raised
import StructuredExtractor.Extraction.Tokens
import Mathlib.Algebra.BigOperators.Group.List.Basic
import Mathlib.Algebra.Order.Monoid.Prod

/-! # What a document costs and what is recorded of it

Tokens are pairs: those of the input and those of the output. The provider bills every
response. Over a whole run of the processor, through the classification, the page loop and
the retries, the usage events carry the tokens of the classification and of the responses
that `call_tool` hands on, and lack those of the responses that it rejects.
-/
namespace StructuredExtractor

/-- Input and output tokens. -/
abbrev Tokens := ℕ × ℕ

def Response.tokens (r : Response) : Tokens := (r.inputTokens,r.outputTokens)
def Extracted.tokens (x : Extracted) : Tokens := (x.inputTokens,x.outputTokens)
def ExtractionError.tokens (e : ExtractionError) : Tokens := (e.inputTokens,e.outputTokens)
def PageStrategyRunner.PageTotals.tokens (t : PageStrategyRunner.PageTotals) : Tokens := (t.inputTokens,t.outputTokens)
def StrategyExtractionResult.tokens (r : StrategyExtractionResult) : Tokens := (r.inputTokens,r.outputTokens)
def LLMUsageEvent.tokens (e : LLMUsageEvent) : Tokens := (e.inputTokens,e.outputTokens)

/-- What the provider bills for its responses. -/
def billed (rs : List Response) : Tokens := (rs.map Response.tokens).sum

@[simp] theorem billed_nil : billed [] = 0 := rfl
@[simp] theorem billed_append (rs rs' : List Response) : billed (rs ++ rs') = billed rs + billed rs' := by
  simp [billed]
@[simp] theorem billed_singleton (r : Response) : billed [r] = r.tokens := by simp [billed]

/-- The responses of which `call_tool` makes a result. -/
def handedOn (toolName : String) (rs : List Response) : List Response :=
  rs.filter fun r => (LiteLLMClient.resultOfResponse toolName r).isOk

@[simp] theorem handedOn_nil (toolName : String) : handedOn toolName [] = [] := rfl
@[simp] theorem handedOn_append (toolName : String) (rs rs' : List Response) :
    handedOn toolName (rs ++ rs') = handedOn toolName rs ++ handedOn toolName rs' := List.filter_append ..

/-- The others are billed too. -/
theorem billed_handedOn_add (toolName : String) (rs : List Response) : billed (handedOn toolName rs) +
    billed (rs.filter fun r => !(LiteLLMClient.resultOfResponse toolName r).isOk) = billed rs := by
  have h := (List.filter_append_perm (fun r => (LiteLLMClient.resultOfResponse toolName r).isOk) rs).map
    Response.tokens
  have hsum := h.sum_eq
  rwa [List.map_append,List.sum_append] at hsum

/-- The tokens that a result or an extraction error carries. -/
def carried {α : Type} (tokens : α → Tokens) : Except Exc α → Option Tokens
  | .ok a => some (tokens a)
  | .error (.extraction e) => some e.tokens
  | .error _ => none

/-- From the state `e` the responses `rs` came in, and what is carried is that of `base`
and of the ones handed on. -/
structure Accounts {α : Type} (toolName : String) (tokens : α → Tokens) (base : Tokens) (e : ModelEnv)
    (rs : List Response) (out : Except Exc α × ModelEnv) : Prop where
  received : out.2.received = e.received ++ rs
  carried : ∀ n ∈ carried tokens out.1, n = base + billed (handedOn toolName rs)

section Accounts
variable {α β : Type} {toolName : String} {tokens : α → Tokens} {base : Tokens} {e : ModelEnv}

/-- Nothing came in, and nothing is carried. -/
theorem Accounts.bare {x : Exc} (h : x.Bare) : Accounts toolName tokens base e [] (.error x,e) where
  received := (List.append_nil _).symm
  carried n hn := by
    cases x with
    | extraction error => exact absurd h id
    | _ => cases hn

/-- An error carries the same for results of any kind. -/
theorem Accounts.error {tokens' : β → Tokens} {e' : ModelEnv} {rs : List Response} {x : Exc}
    (h : Accounts toolName tokens base e rs ((.error x : Except Exc α),e')) :
    Accounts toolName tokens' base e rs ((.error x : Except Exc β),e') where
  received := h.received
  carried n hn := h.carried n (by cases x <;> exact hn)

/-- What comes after adds to what came before. -/
theorem Accounts.after {e₁ : ModelEnv} {rs₁ rs : List Response} {out : Except Exc α × ModelEnv}
    (hreceived : e₁.received = e.received ++ rs₁)
    (h : Accounts toolName tokens (base + billed (handedOn toolName rs₁)) e₁ rs out) :
    Accounts toolName tokens base e (rs₁ ++ rs) out where
  received := by rw [h.received,hreceived,List.append_assoc]
  carried n hn := by rw [h.carried n hn,handedOn_append,billed_append,add_assoc]

end Accounts

namespace ToolCallExtractor
open LiteLLMClient
variable {L : Libraries} {x : ToolCallExtractor}

/-- The induction over the attempts: each hands its tokens on to the totals, or ends the
loop. -/
theorem loop_accounts {tool : Tool} {text docType : String} {t : Tool × ToolChoice}
    (ht : toolFor L x.model tool ("extract_" ++ docType) = .ok t) (left attempts inputTokens outputTokens : ℕ)
    (extraMessages : List Message) (e : ModelEnv) :
    ∃ rs, Accounts ("extract_" ++ docType) Extracted.tokens (inputTokens,outputTokens) e rs
      ((loop L x tool text docType left attempts inputTokens outputTokens extraMessages).run ModelEnv.handler e) := by
  induction left generalizing attempts inputTokens outputTokens extraMessages e with
  | zero =>
    refine ⟨[],(List.append_nil _).symm,fun n hn => ?_⟩
    cases hn
    rfl
  | succ left ih =>
    rw [run_loop_succ ht]
    generalize toolRequest x.model _ _ t extraMessages = q
    cases hr : e.replies.head with
    | error c =>
      refine ⟨[],by rw [List.append_nil]; exact ModelEnv.received_ask_error hr q,fun n hn => ?_⟩
      cases hn
      rfl
    | ok r =>
      have hreceived := ModelEnv.received_ask_ok hr q
      cases hp : resultOfResponse ("extract_" ++ docType) r with
      | error c =>
        have hnone : handedOn ("extract_" ++ docType) [r] = [] := by simp [handedOn,hp,Except.isOk,Except.toBool]
        refine ⟨[r],?_⟩
        obtain ⟨message,rfl⟩ | rfl := resultOfResponse_error hp
        · refine ⟨by simpa [resultOfReply,next,hp] using hreceived,fun n hn => ?_⟩
          simp only [resultOfReply,next,hp] at hn
          cases hn
          rw [hnone]
          rfl
        · refine ⟨by simpa [resultOfReply,next,hp] using hreceived,fun n hn => ?_⟩
          simp only [resultOfReply,next,hp] at hn
          cases hn
      | ok result =>
        have hone : handedOn ("extract_" ++ docType) [r] = [r] := by simp [handedOn,hp,Except.isOk,Except.toBool]
        obtain ⟨hri,hro⟩ := resultOfResponse_tokens hp
        have hbase : ((inputTokens + result.inputTokens,outputTokens + result.outputTokens) : Tokens) =
            (inputTokens,outputTokens) + billed (handedOn ("extract_" ++ docType) [r]) := by
          rw [hone,billed_singleton,hri,hro]
          rfl
        cases ha : result.arguments with
        | some v =>
          refine ⟨[r],by simpa [resultOfReply,next,hp,ha] using hreceived,fun n hn => ?_⟩
          simp only [resultOfReply,next,hp,ha] at hn
          cases hn
          exact hbase
        | none =>
          obtain ⟨rs,hrs⟩ := ih (attempts + 1) (inputTokens + result.inputTokens)
            (outputTokens + result.outputTokens) (extraMessages ++ retryMessages) (e.ask q)
          refine ⟨[r] ++ rs,?_⟩
          simp only [resultOfReply,next,hp,ha]
          rw [hbase] at hrs
          exact hrs.after hreceived

theorem extract_accounts (text docType : String) (e : ModelEnv) :
    ∃ rs, Accounts ("extract_" ++ docType) Extracted.tokens 0 e rs
      ((extract L x text docType).run ModelEnv.handler e) := by
  unfold extract
  rw [Prog.run_bind,Prog.run_ofExcept]
  cases hg : SchemaRegistry.getTool L docType with
  | error c =>
    rw [getTool_error hg]
    exact ⟨[],.bare trivial⟩
  | ok tool =>
    rw [Prog.andThen_ok]
    cases ht : toolFor L x.model tool ("extract_" ++ docType) with
    | ok t => exact loop_accounts ht _ 0 0 0 [] e
    | error c =>
      refine ⟨[],?_⟩
      cases (x.maxRetries + 1).toNat with
      | zero => exact ⟨(List.append_nil _).symm,fun n hn => by cases hn; rfl⟩
      | succ left =>
        rw [loop,Prog.run_bind,attempt,Prog.run_tryCatch,run_callTool_error ht]
        rcases toolFor_error ht with rfl | rfl | rfl <;> exact .bare trivial

end ToolCallExtractor

namespace PageStrategyRunner
variable {extract : TextExtractor} {docType toolName : String}
variable (hextract : ∀ text e, ∃ rs, Accounts toolName Extracted.tokens 0 e rs
  ((extract text docType).run ModelEnv.handler e))
include hextract

/-- A page adds the tokens of its call, whether it is extracted or skipped. -/
theorem pageStep_accounts (t : PageTotals) (page : String × ℕ) (e : ModelEnv) :
    ∃ rs, Accounts toolName PageTotals.tokens t.tokens e rs
      ((pageStep extract docType t page).run ModelEnv.handler e) := by
  unfold pageStep
  split
  · refine ⟨[],(List.append_nil _).symm,fun n hn => ?_⟩
    cases hn
    rfl
  · obtain ⟨rs,hreceived,hcarried⟩ := hextract (formatPage page.2 page.1) e
    refine ⟨rs,?_⟩
    rw [Prog.run_bind,attemptPage,Prog.run_tryCatch,Prog.run_map]
    revert hreceived hcarried
    rcases (extract (formatPage page.2 page.1) docType).run ModelEnv.handler e with ⟨x | x,e'⟩
    · intro hreceived hcarried
      cases x with
      | extraction error =>
        have htokens := hcarried _ rfl
        rw [zero_add] at htokens
        refine ⟨hreceived,fun n hn => ?_⟩
        cases hn
        rw [← htokens]
        rfl
      | _ => exact ⟨hreceived,fun n hn => by cases hn⟩
    · intro hreceived hcarried
      have htokens := hcarried _ rfl
      rw [zero_add] at htokens
      refine ⟨hreceived,fun n hn => ?_⟩
      rw [← htokens]
      change n ∈ carried PageTotals.tokens (t.add page.2 x) at hn
      unfold PageTotals.add at hn
      split at hn <;> cases hn
      rfl

/-- The induction over the pages. -/
theorem pages_accounts (pages : List (String × ℕ)) (t : PageTotals) (e : ModelEnv) :
    ∃ rs, Accounts toolName PageTotals.tokens t.tokens e rs
      ((pages.foldlM (pageStep extract docType) t).run ModelEnv.handler e) := by
  induction pages generalizing t e with
  | nil => exact ⟨[],(List.append_nil _).symm,fun n hn => by cases hn; exact (add_zero _).symm⟩
  | cons page pages ih =>
    rw [List.foldlM_cons,Prog.run_bind]
    obtain ⟨rs,h⟩ := pageStep_accounts hextract t page e
    revert h
    rcases (pageStep extract docType t page).run ModelEnv.handler e with ⟨x | t',e'⟩
    · exact fun h => ⟨rs,h.error⟩
    · intro h
      obtain ⟨rs',h'⟩ := ih t' e'
      rw [h.carried _ rfl] at h'
      exact ⟨rs ++ rs',h'.after h.received⟩

theorem extractFromPages_accounts (u : Unicode) (pages : List String) (strategy : ExtractionStrategy) (e : ModelEnv) :
    ∃ rs, Accounts toolName StrategyExtractionResult.tokens 0 e rs
      ((extractFromPages extract u pages docType strategy).run ModelEnv.handler e) := by
  have hone : ∀ (text : String) (f : Extracted → StrategyExtractionResult), (∀ x, (f x).tokens = x.tokens) →
      ∃ rs, Accounts toolName StrategyExtractionResult.tokens 0 e rs
        ((do let x ← extract text docType; return f x : ModelProg _).run ModelEnv.handler e) := by
    intro text f hf
    obtain ⟨rs,h⟩ := hextract text e
    refine ⟨rs,?_⟩
    rw [Prog.run_bind]
    revert h
    rcases (extract text docType).run ModelEnv.handler e with ⟨x | x,e'⟩
    · exact fun h => h.error
    · exact fun h => ⟨h.received,fun n hn => by cases hn; rw [hf]; exact h.carried _ rfl⟩
  cases strategy with
  | full => exact hone _ _ fun _ => rfl
  | smart => exact hone _ _ fun _ => rfl
  | pageByPage =>
    obtain ⟨rs,h⟩ := pages_accounts hextract pages.zipIdx .init e
    refine ⟨rs,?_⟩
    rw [extractFromPages,extractPageByPage,Prog.run_bind]
    revert h
    rcases (pages.zipIdx.foldlM (pageStep extract docType) .init).run ModelEnv.handler e with ⟨x | t,e'⟩
    · exact fun h => h.error
    · intro h
      have htokens := h.carried _ rfl
      refine ⟨h.received,fun n hn => ?_⟩
      rw [show (0 : Tokens) = PageTotals.init.tokens from rfl,← htokens]
      change n ∈ carried StrategyExtractionResult.tokens (finish pages docType t) at hn
      unfold finish at hn
      split at hn
      · cases hn
        rfl
      · cases hm : Merge.mergeResults t.perPage docType with
        | error x =>
          have hbare := mergeResults_raises _ docType x hm
          rw [hm] at hn
          cases x with
          | extraction error => exact absurd hbare id
          | _ => cases hn
        | ok m =>
          rw [hm] at hn
          cases hn
          rfl

end PageStrategyRunner

namespace DocumentProcessor
variable (p : DocumentProcessor)

/-- The responses that come in while the processor runs the pipeline, and what it carries. -/
theorem runResolved_accounts (pages : List String) (docType : String) (strategy : ExtractionStrategy) (e : ModelEnv) :
    ∃ rs, Accounts ("extract_" ++ docType) (fun r : PipelineResult => r.extraction.tokens) 0 e rs
      ((runResolved p pages docType strategy).run ModelEnv.handler e) := by
  rw [run_runResolved]
  obtain ⟨rs,h⟩ : ∃ rs, Accounts ("extract_" ++ docType) StrategyExtractionResult.tokens 0 e.tick rs
      ((extraction p pages docType strategy).run ModelEnv.handler e.tick) :=
    PageStrategyRunner.extractFromPages_accounts (fun text e => ToolCallExtractor.extract_accounts text docType e)
      p.libraries.unicode pages strategy e.tick
  refine ⟨rs,?_⟩
  revert h
  rcases (extraction p pages docType strategy).run ModelEnv.handler e.tick with ⟨x | r,e'⟩
  · exact fun h => ⟨h.received,h.error.carried⟩
  · intro h
    refine ⟨h.received,fun n hn => ?_⟩
    rw [← h.carried _ rfl]
    dsimp only at hn
    cases hr : resultOf p docType (durationMs e.clock.head e'.clock.head) r with
    | error x =>
      have hbare := resultOf_raises p docType _ r x hr
      rw [hr] at hn
      cases x with
      | extraction error => exact absurd hbare id
      | _ => cases hn
    | ok pipeline =>
      rw [hr] at hn
      obtain ⟨validation,-,hr⟩ := bind_eq_ok hr
      obtain ⟨confidenceMap,-,hr⟩ := bind_eq_ok hr
      cases hr
      cases hn
      rfl

/-- What `generate_text` makes of a reply. -/
def textOfReply : Except Exc Response → Except Exc TextCompletionResult
  | .ok response => LiteLLMClient.textOfResponse response
  | .error _ => .error LiteLLMClient.completionFailed

/-- `generate_text` asks exactly once. -/
theorem run_generateText (model : String) (messages : List Message) (maxTokens : ℕ) (e : ModelEnv) :
    (LiteLLMClient.generateText model messages maxTokens).run ModelEnv.handler e =
      (textOfReply e.replies.head,e.ask ⟨model,messages,some maxTokens,[],none⟩) := by
  rw [LiteLLMClient.generateText,Prog.run_bind,Prog.run_tryCatch,ModelEnv.run_acompletion]
  cases e.replies.head with
  | error x => rfl
  | ok r =>
    show (Prog.ofExcept (LiteLLMClient.textOfResponse r)).run ModelEnv.handler _ = _
    rw [Prog.run_ofExcept]
    rfl

/-- A completion has the tokens of its response. -/
theorem textOfResponse_tokens {r : Response} {completion : TextCompletionResult}
    (h : LiteLLMClient.textOfResponse r = .ok completion) :
    completion.inputTokens = r.inputTokens ∧ completion.outputTokens = r.outputTokens := by
  unfold LiteLLMClient.textOfResponse at h
  split at h
  · cases h
  · split at h <;> cases h
    exact ⟨rfl,rfl⟩

/-- The classification costs its one response. -/
theorem classify_billed (L : Libraries) (c : ClassifierService) (text : String) (e : ModelEnv) :
    ∃ rs, ((ClassifierService.classify L c text).run ModelEnv.handler e).2.received = e.received ++ rs ∧
      ∀ x, ((ClassifierService.classify L c text).run ModelEnv.handler e).1 = .ok x →
        rs.length = 1 ∧ x.usage.tokens = billed rs := by
  rw [ClassifierService.classify,Prog.run_bind,Prog.run_tryCatch,run_generateText]
  generalize (Request.mk _ _ _ _ _) = q
  cases hr : e.replies.head with
  | error x => exact ⟨[],by rw [List.append_nil]; exact ModelEnv.received_ask_error hr q,fun x hx => by cases hx⟩
  | ok r =>
    have hreceived := ModelEnv.received_ask_ok hr q
    refine ⟨[r],?_⟩
    cases ht : LiteLLMClient.textOfResponse r with
    | error x =>
      rw [textOfReply,ht]
      cases x <;> exact ⟨hreceived,fun x hx => by cases hx⟩
    | ok completion =>
      rw [textOfReply,ht]
      refine ⟨hreceived,fun x hx => ⟨rfl,?_⟩⟩
      cases hx
      obtain ⟨hi,ho⟩ := textOfResponse_tokens ht
      rw [billed_singleton,Response.tokens,← hi,← ho]
      rfl

/-- How many responses the classification has. -/
def classifications (input : ProcessingInput) : ℕ := if input.docType.isSome then 0 else 1

/-- The document type costs the classification, if there is one. -/
theorem resolveDocType_billed (input : ProcessingInput) (e : ModelEnv) :
    ∃ rs, ((resolveDocType p input).run ModelEnv.handler e).2.received = e.received ++ rs ∧
      ∀ resolved, ((resolveDocType p input).run ModelEnv.handler e).1 = .ok resolved →
        rs.length = classifications input ∧ (resolved.2.map LLMUsageEvent.tokens).sum = billed rs := by
  unfold resolveDocType classifications
  cases input.docType with
  | some docType => exact ⟨[],(List.append_nil _).symm,fun resolved h => by cases h; exact ⟨rfl,rfl⟩⟩
  | none =>
    obtain ⟨rs,hreceived,htokens⟩ := classify_billed p.libraries p.classifier (input.pages.headD "") e
    refine ⟨rs,?_⟩
    rw [Prog.run_bind]
    revert hreceived htokens
    rcases (ClassifierService.classify _ _ _).run ModelEnv.handler e with ⟨x | x,e'⟩
    · exact fun hreceived _ => ⟨hreceived,fun _ h => by cases h⟩
    · refine fun hreceived htokens => ⟨hreceived,fun _ h => ?_⟩
      cases h
      obtain ⟨hlength,htokens⟩ := htokens x rfl
      exact ⟨hlength,by simpa using htokens⟩

theorem resolveExtractionInput_billed (input : ProcessingInput) (e : ModelEnv) :
    ∃ rs, ((resolveExtractionInput p input).run ModelEnv.handler e).2.received = e.received ++ rs ∧
      ∀ resolved, ((resolveExtractionInput p input).run ModelEnv.handler e).1 = .ok resolved →
        rs.length = classifications input ∧ (resolved.usageEvents.map LLMUsageEvent.tokens).sum = billed rs := by
  obtain ⟨rs,hreceived,htokens⟩ := resolveDocType_billed p input e
  refine ⟨rs,?_⟩
  rw [resolveExtractionInput,Prog.run_bind]
  revert hreceived htokens
  rcases (resolveDocType p input).run ModelEnv.handler e with ⟨x | ⟨docType,events⟩,e'⟩
  · exact fun hreceived _ => ⟨hreceived,fun _ h => by cases h⟩
  · intro hreceived htokens
    rw [Prog.andThen_ok,Prog.run_bind,Prog.run_ofExcept]
    cases validateDocType docType with
    | error x => exact ⟨hreceived,fun _ h => by cases h⟩
    | ok _ =>
      rw [Prog.andThen_ok,Prog.run_bind,Prog.run_ofExcept]
      cases PageStrategyRunner.resolveStrategy input.strategy input.pageCount with
      | error x => exact ⟨hreceived,fun _ h => by cases h⟩
      | ok strategy => exact ⟨hreceived,fun _ h => by cases h; exact htokens _ rfl⟩

/-- The document type and the usage of an outcome that is recorded. -/
def spent : Except Exc DocumentProcessingResult → Option (String × Tokens)
  | .ok r => some (r.pipeline.docType,
      (r.classifierUsageEvents.map LLMUsageEvent.tokens).sum + r.pipeline.extraction.tokens)
  | .error (.documentProcessing resolved e) =>
    some (resolved.docType,(resolved.usageEvents.map LLMUsageEvent.tokens).sum + e.tokens)
  | .error _ => none

/-- The tokens that are recorded of responses, `n` of them to the classifier. -/
def charged (docType : String) (n : ℕ) (rs : List Response) : Tokens :=
  billed (rs.take n) + billed (handedOn ("extract_" ++ docType) (rs.drop n))

/-- The tokens that are not: those of the responses that `call_tool` rejects. -/
def lost (docType : String) (n : ℕ) (rs : List Response) : Tokens :=
  billed ((rs.drop n).filter fun r => !(LiteLLMClient.resultOfResponse ("extract_" ++ docType) r).isOk)

theorem charged_add_lost (docType : String) (n : ℕ) (rs : List Response) :
    charged docType n rs + lost docType n rs = billed rs := by
  rw [charged,lost,add_assoc,billed_handedOn_add,← billed_append,List.take_append_drop]

theorem runResolved_docType {pages : List String} {docType : String} {strategy : ExtractionStrategy} {e : ModelEnv}
    {r : PipelineResult} (h : ((runResolved p pages docType strategy).run ModelEnv.handler e).1 = .ok r) :
    r.docType = docType := by
  rw [run_runResolved] at h
  revert h
  rcases (extraction p pages docType strategy).run ModelEnv.handler e.tick with ⟨x | extraction,e'⟩
  · intro h
    cases h
  · intro h
    obtain ⟨validation,-,h⟩ := bind_eq_ok h
    obtain ⟨confidenceMap,-,h⟩ := bind_eq_ok h
    cases h
    rfl

/-- **What processing records.** The usage of an outcome is that of its classification
and of the responses to its extraction that `call_tool` hands on. -/
theorem processPages_charged (input : ProcessingInput) (e : ModelEnv) :
    ∃ rs, ((processPages p input).run ModelEnv.handler e).2.received = e.received ++ rs ∧
      ∀ docType tokens, spent ((processPages p input).run ModelEnv.handler e).1 = some (docType,tokens) →
        tokens = charged docType (classifications input) rs := by
  obtain ⟨rs,hreceived,htokens⟩ := resolveExtractionInput_billed p input e
  rw [run_processPages]
  revert hreceived htokens
  rcases hresolve : (resolveExtractionInput p input).run ModelEnv.handler e with ⟨x | resolved,e'⟩
  · refine fun hreceived _ => ⟨rs,hreceived,fun docType tokens h => ?_⟩
    have hinner := (resolveExtractionInput_plain p input).run ModelEnv.handler e
    rw [hresolve] at hinner
    have hx := hinner x rfl
    cases x with
    | documentProcessing resolved error => exact absurd hx id
    | _ => cases h
  · intro hreceived htokens
    obtain ⟨hlength,htokens⟩ := htokens resolved rfl
    obtain ⟨rs',h⟩ := runResolved_accounts p input.pages resolved.docType resolved.strategy e'
    have hinner := runResolved_raises p input.pages resolved.docType resolved.strategy e'
    have hdocType := @runResolved_docType p input.pages resolved.docType resolved.strategy e'
    have hcharged : charged resolved.docType (classifications input) (rs ++ rs') =
        billed rs + billed (handedOn ("extract_" ++ resolved.docType) rs') := by
      rw [charged,← hlength,List.take_left,List.drop_left]
    refine ⟨rs ++ rs',?_⟩
    revert h hinner hdocType
    dsimp only
    rcases (runResolved p input.pages resolved.docType resolved.strategy).run ModelEnv.handler e' with ⟨x | r,e''⟩
    · intro h hinner _
      refine ⟨by rw [h.received,hreceived,List.append_assoc],fun docType tokens hspent => ?_⟩
      have hx := hinner x rfl
      cases x with
      | extraction error =>
        cases hspent
        rw [hcharged,htokens,h.carried _ rfl,zero_add]
      | documentProcessing resolved error => exact absurd hx id
      | _ => cases hspent
    · intro h _ hdocType
      refine ⟨by rw [h.received,hreceived,List.append_assoc],fun docType tokens hspent => ?_⟩
      have hcarried : r.extraction.tokens = 0 + billed _ := h.carried _ rfl
      cases hspent
      rw [hdocType rfl,hcharged,htokens,hcarried,zero_add]

end DocumentProcessor

end StructuredExtractor
