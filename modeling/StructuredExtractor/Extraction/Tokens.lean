import StructuredExtractor.Extraction.Provider
import StructuredExtractor.Extraction.SchemaCalls

/-! # The tokens of an extraction

The provider bills every response that it sends. The loop adds up the tokens of
the responses that `call_tool` hands on; those of a response that it rejects are
in no result and in no error.
-/
namespace StructuredExtractor

namespace ModelEnv

/-- The tokens of all responses that came in. -/
def inputBilled (e : ModelEnv) : ℕ := (e.received.map Response.inputTokens).sum
def outputBilled (e : ModelEnv) : ℕ := (e.received.map Response.outputTokens).sum

theorem billed_ask_ok {e : ModelEnv} {r : Response} (h : e.replies.head = .ok r) (q : Request) :
    (e.ask q).inputBilled = e.inputBilled + r.inputTokens ∧
      (e.ask q).outputBilled = e.outputBilled + r.outputTokens := by
  simp [inputBilled,outputBilled,received_ask_ok h]

theorem billed_ask_error {e : ModelEnv} {x : Exc} (h : e.replies.head = .error x) (q : Request) :
    (e.ask q).inputBilled = e.inputBilled ∧ (e.ask q).outputBilled = e.outputBilled := by
  simp [inputBilled,outputBilled,received_ask_error h]

end ModelEnv

namespace LiteLLMClient

/-- A response that `call_tool` turns into a client error. -/
def Rejected (toolName : String) (r : Response) : Prop :=
  ∃ message, resultOfResponse toolName r = .error (.llmClient message)

/-- A reply that brings no arguments, so that the loop goes on. -/
def NoCall (toolName : String) (reply : Except Exc Response) : Prop :=
  ∃ result, resultOfReply toolName reply = .ok result ∧ result.arguments = none

/-- Without a first message, the attribute or the item is missing, or `choices` is null. -/
theorem firstMessage_error {r : Response} {e : Exc} (h : r.firstMessage = .error e) :
    e = .attributeError ∨ e = .indexError ∨ e = .typeError := by
  rcases r with ⟨_ | _ | ⟨_ | ⟨⟨_ | m⟩,cs⟩⟩,b,us⟩ <;> simp [Response.firstMessage] at h <;> simp [← h]

/-- Missing attributes and items are client errors. -/
theorem noChoices_client (r : Response) {e : Exc} (h : e = .attributeError ∨ e = .indexError) :
    ∃ message, noChoices r e = .llmClient message := by
  rcases h with rfl | rfl <;> cases hb : r.blockReason.filter (· ≠ "") <;> simp only [noChoices,hb] <;> exact ⟨_,rfl⟩

/-- A null `choices` stays a type error. -/
theorem noChoices_eq {r : Response} {e : Exc} (h : r.firstMessage = .error e) :
    (∃ message, noChoices r e = .llmClient message) ∨ noChoices r e = .typeError := by
  rcases firstMessage_error h with rfl | rfl | rfl
  · exact .inl (noChoices_client r (.inl rfl))
  · exact .inl (noChoices_client r (.inr rfl))
  · exact .inr rfl

theorem parseToolCall_error {toolName : String} {call : ToolCall} {c : Exc}
    (h : parseToolCall toolName call = .error c) : ∃ message, c = .llmClient message := by
  unfold parseToolCall at h
  split at h
  · cases h; exact ⟨_,rfl⟩
  · split at h <;> cases h
    exact ⟨_,rfl⟩

/-- What `call_tool` hands on has the tokens of its response. -/
theorem resultOfResponse_tokens {toolName : String} {r : Response} {result : ToolCallResult}
    (h : resultOfResponse toolName r = .ok result) :
    result.inputTokens = r.inputTokens ∧ result.outputTokens = r.outputTokens := by
  unfold resultOfResponse at h
  cases hm : r.firstMessage with
  | error e => simp [hm] at h
  | ok m =>
    cases hr : refusalOf m with
    | some refusal => simp [hm,hr] at h
    | none =>
      cases hc : m.toolCalls with
      | nil => simp only [hm,hr,hc,Except.ok.injEq] at h; subst h; exact ⟨rfl,rfl⟩
      | cons call calls =>
        cases hp : parseToolCall toolName call with
        | error e => simp [hm,hr,hc,hp,Except.map] at h
        | ok v =>
          simp only [hm,hr,hc,hp,Except.map,Except.ok.injEq] at h
          subst h
          exact ⟨rfl,rfl⟩

/-- A response is rejected with a client error, or has null choices. -/
theorem resultOfResponse_error {toolName : String} {r : Response} {c : Exc}
    (h : resultOfResponse toolName r = .error c) : (∃ message, c = .llmClient message) ∨ c = .typeError := by
  unfold resultOfResponse at h
  cases hm : r.firstMessage with
  | error e =>
    simp only [hm,Except.error.injEq] at h
    subst h
    exact noChoices_eq hm
  | ok m =>
    cases hr : refusalOf m with
    | some refusal =>
      simp only [hm,hr,Except.error.injEq] at h
      exact Or.inl ⟨_,h.symm⟩
    | none =>
      cases hc : m.toolCalls with
      | nil => simp [hm,hr,hc] at h
      | cons call calls =>
        cases hp : parseToolCall toolName call with
        | error e =>
          simp only [hm,hr,hc,hp,Except.map,Except.error.injEq] at h
          subst h
          exact Or.inl (parseToolCall_error hp)
        | ok v => simp [hm,hr,hc,hp,Except.map] at h

end LiteLLMClient

namespace LiteLLMClient

/-- A tool cannot be made ready when its schema cannot be simplified. -/
theorem toolFor_error {L : Libraries} {model : String} {tool : Tool} {toolName : String} {c : Exc}
    (h : toolFor L model tool toolName = .error c) : c = .recursionError ∨ c = .typeError ∨ c = .attributeError := by
  have hraises : Raises (fun c => c = .recursionError ∨ c = .typeError ∨ c = .attributeError)
      (toolFor L model tool toolName) :=
    toolFor_raises (.inl rfl) (.inr (.inl rfl)) (.inr (.inr rfl)) L model tool toolName
  exact hraises c h

end LiteLLMClient

namespace ToolCallExtractor
open LiteLLMClient
variable {L : Libraries} {x : ToolCallExtractor}

/-- What the loop does with the result of one attempt. -/
def next (L : Libraries) (x : ToolCallExtractor) (tool : Tool) (text docType : String)
    (left attempts inputTokens outputTokens : ℕ) (extraMessages : List Message) (e : ModelEnv) :
    Except Exc ToolCallResult → Except Exc Extracted × ModelEnv
  | .error (.llmClient _) => (.error (clientFailed (attempts + 1) inputTokens outputTokens),e)
  | .error c => (.error c,e)
  | .ok result => match result.arguments with
    | some arguments =>
      (.ok ⟨arguments,inputTokens + result.inputTokens,outputTokens + result.outputTokens⟩,e)
    | none => (loop L x tool text docType left (attempts + 1) (inputTokens + result.inputTokens)
        (outputTokens + result.outputTokens) (extraMessages ++ retryMessages)).run ModelEnv.handler e

theorem run_loop_succ {tool : Tool} {text docType : String} {t : Tool × ToolChoice}
    (ht : toolFor L x.model tool ("extract_" ++ docType) = .ok t)
    (left attempts inputTokens outputTokens : ℕ) (extraMessages : List Message) (e : ModelEnv) :
    (loop L x tool text docType (left + 1) attempts inputTokens outputTokens extraMessages).run
        ModelEnv.handler e =
      next L x tool text docType left attempts inputTokens outputTokens extraMessages
        (e.ask (toolRequest x.model extractionSystemPrompt (extractionUserPrompt text) t extraMessages))
        (resultOfReply ("extract_" ++ docType) e.replies.head) := by
  rw [loop,Prog.run_bind,attempt,Prog.run_tryCatch,run_callTool ht]
  cases h : resultOfReply ("extract_" ++ docType) e.replies.head with
  | error c => cases c <;> rfl
  | ok result => cases ha : result.arguments <;> simp [next,ha]

/-- The tokens returned, or carried by the extraction error raised, are those billed. -/
def TokensKept (o : Except Exc Extracted × ModelEnv) : Prop :=
  match o.1 with
  | .ok r => r.inputTokens = o.2.inputBilled ∧ r.outputTokens = o.2.outputBilled
  | .error (.extraction r) => r.inputTokens = o.2.inputBilled ∧ r.outputTokens = o.2.outputBilled
  | .error _ => True

/-- A response that is rejected within `left` attempts, after replies without a
call, has no tokens. -/
def RejectedUnbilled (toolName : String) (left : ℕ) (replies : Stream' (Except Exc Response)) : Prop :=
  ∀ k < left, (∀ i < k, NoCall toolName (replies.get i)) →
    ∀ r, replies.get k = .ok r → Rejected toolName r → r.inputTokens = 0 ∧ r.outputTokens = 0

theorem rejectedUnbilled_succ (toolName : String) (left : ℕ) (replies : Stream' (Except Exc Response)) :
    RejectedUnbilled toolName (left + 1) replies ↔
      (∀ r, replies.head = .ok r → Rejected toolName r → r.inputTokens = 0 ∧ r.outputTokens = 0) ∧
        (NoCall toolName replies.head → RejectedUnbilled toolName left replies.tail) := by
  constructor
  · intro h
    refine ⟨fun r hr => h 0 (by omega) (by omega) r hr,fun hn k hk hs r hr => ?_⟩
    refine h (k + 1) (by omega) (fun i hi => ?_) r hr
    cases i with
    | zero => exact hn
    | succ i => exact hs i (by omega)
  · rintro ⟨h0,hs⟩ k hk hbefore r hr
    cases k with
    | zero => exact h0 r hr
    | succ k => exact hs (hbefore 0 (by omega)) k (by omega) (fun i hi => hbefore (i + 1) (by omega)) r hr

/-- The induction over the attempts: as long as the totals are what has been
billed, the loop keeps the tokens exactly when no billed response is rejected. -/
theorem loop_tokensKept {tool : Tool} {text docType : String} {t : Tool × ToolChoice}
    (ht : toolFor L x.model tool ("extract_" ++ docType) = .ok t) (left attempts : ℕ)
    (extraMessages : List Message) (e : ModelEnv) :
    TokensKept ((loop L x tool text docType left attempts e.inputBilled e.outputBilled
        extraMessages).run ModelEnv.handler e) ↔
      RejectedUnbilled ("extract_" ++ docType) left e.replies := by
  induction left generalizing attempts extraMessages e with
  | zero => simp [loop,TokensKept,exhausted,RejectedUnbilled]
  | succ left ih =>
    rw [run_loop_succ ht,rejectedUnbilled_succ]
    generalize toolRequest x.model _ _ t extraMessages = q
    cases hr : e.replies.head with
    | error c =>
      simp [resultOfReply,completionFailed,next,clientFailed,TokensKept,NoCall,
        ModelEnv.billed_ask_error hr q]
    | ok r =>
      obtain ⟨hi,ho⟩ := ModelEnv.billed_ask_ok hr q
      cases hp : resultOfResponse ("extract_" ++ docType) r with
      | error c =>
        obtain ⟨message,rfl⟩ | rfl := resultOfResponse_error hp <;>
          simp [resultOfReply,next,clientFailed,TokensKept,NoCall,Rejected,hp,hi,ho]
      | ok result =>
        obtain ⟨hri,hro⟩ := resultOfResponse_tokens hp
        cases ha : result.arguments with
        | some v => simp [resultOfReply,next,TokensKept,NoCall,Rejected,hp,ha,hi,ho,hri,hro]
        | none =>
          simp [resultOfReply,next,NoCall,Rejected,hp,ha,hri,hro,← hi,← ho,ih]

/-- Whether `extract` gets as far as asking: the type is registered and its tool
can be made ready for the model. -/
def Asks (L : Libraries) (x : ToolCallExtractor) (docType : String) : Prop :=
  ∃ tool t, SchemaRegistry.getTool L docType = .ok tool ∧
    toolFor L x.model tool ("extract_" ++ docType) = .ok t

/-- A tool that cannot be made ready ends the loop with nothing billed. -/
theorem loop_unsent {tool : Tool} {text docType : String} {c : Exc}
    (ht : toolFor L x.model tool ("extract_" ++ docType) = .error c) (left : ℕ) (e : ModelEnv)
    (he : e.received = []) :
    TokensKept ((loop L x tool text docType left 0 0 0 []).run ModelEnv.handler e) := by
  cases left with
  | zero => simp [loop,TokensKept,exhausted,ModelEnv.inputBilled,ModelEnv.outputBilled,he]
  | succ left =>
    rw [loop,Prog.run_bind,attempt,Prog.run_tryCatch,run_callTool_error ht]
    rcases toolFor_error ht with rfl | rfl | rfl <;> simp [TokensKept]

theorem getTool_error {docType : String} {c : Exc} (h : SchemaRegistry.getTool L docType = .error c) :
    c = .keyError := by
  unfold SchemaRegistry.getTool SchemaRegistry.getSchema at h
  cases hl : SchemaRegistry.registry.lookup docType with
  | none => rw [hl] at h; cases h; rfl
  | some s => rw [hl] at h; cases h

/-- **The tokens of an extraction.** They are kept exactly when no response that
costs tokens is rejected within the attempts that `extract` makes. -/
theorem extract_tokensKept_iff (L : Libraries) (x : ToolCallExtractor) (text docType : String)
    (replies : Stream' (Except Exc Response)) (clock : Stream' ℚ) :
    TokensKept ((extract L x text docType).run ModelEnv.handler (.start replies clock)) ↔
      (Asks L x docType →
        RejectedUnbilled ("extract_" ++ docType) (x.maxRetries + 1).toNat replies) := by
  unfold extract
  rw [Prog.run_bind]
  cases hg : SchemaRegistry.getTool L docType with
  | error c =>
    have hasks : ¬ Asks L x docType := by rintro ⟨tool,t,ht,_⟩; cases hg.symm.trans ht
    simp [hasks,getTool_error hg,TokensKept]
  | ok tool =>
    cases ht : toolFor L x.model tool ("extract_" ++ docType) with
    | error c =>
      have hasks : ¬ Asks L x docType := by
        rintro ⟨tool',t,hg',ht'⟩
        cases hg.symm.trans hg'
        cases ht.symm.trans ht'
      simpa [hasks] using loop_unsent ht (x.maxRetries + 1).toNat (.start replies clock) rfl
    | ok t =>
      have hasks : Asks L x docType := ⟨tool,t,hg,ht⟩
      simp only [hasks,true_imp_iff]
      exact loop_tokensKept ht (x.maxRetries + 1).toNat 0 [] (.start replies clock)

section Refused

/-- A refusal that the provider bills. -/
def refusedResponse : Response where
  choices := .list [⟨some ⟨none,some "I cannot help with this document.",[]⟩⟩]
  blockReason := none
  usage := some ⟨812,9⟩

/-- The error of a refused extraction carries no token of the refusal. -/
theorem refused_tokens_lost :
    ¬ TokensKept ((extract Libraries.basic ⟨"openai/gpt-4.1-mini",2⟩ "Total: 12.00" "receipt").run
      ModelEnv.handler (.start (Stream'.const (.ok refusedResponse)) (Stream'.const 0))) := by
  intro h
  exact absurd h.1 (by decide)

end Refused

end ToolCallExtractor

end StructuredExtractor
