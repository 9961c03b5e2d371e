import StructuredExtractor.Extraction.Tokens

/-! # The contract of a tool call

`call_tool` should return arguments that are none or an object, or raise a client error.
It does so unless the choices are null, which no guard expects, or the argument text is
JSON of another kind, which `json.loads` takes.
-/
namespace StructuredExtractor

/-- An object, or a text that is no JSON or the JSON of null or of an object. -/
def ToolArguments.ObjectOrNull : ToolArguments → Prop
  | .object _ => True
  | .text loads => ∀ v, loads = some v → v = .null ∨ ∃ d, v = .obj d

namespace LiteLLMClient

/-- A result with no arguments or an object, or a client error. -/
def Honours : Except Exc ToolCallResult → Prop
  | .ok result => ∀ v, result.arguments = some v → ∃ d, v = .obj d
  | .error e => ∃ message, e = .llmClient message

/-- The choices are not null, and the arguments that are read from the response, those of the
first call under the right name in a message without refusal, are an object or null. -/
def Readable (toolName : String) (r : Response) : Prop :=
  r.choices ≠ .null ∧ ∀ m call calls, r.firstMessage = .ok m → refusalOf m = none → m.toolCalls = call :: calls →
    call.name = some toolName → call.arguments.ObjectOrNull

theorem firstMessage_typeError {r : Response} : r.firstMessage = .error .typeError ↔ r.choices = .null := by
  rcases r with ⟨_ | _ | ⟨_ | ⟨⟨_ | m⟩,cs⟩⟩,b,us⟩ <;> simp [Response.firstMessage]

/-- A response without a first message is a client error unless the choices are null. -/
theorem honours_noChoices {r : Response} {e : Exc} (h : r.firstMessage = .error e) :
    Honours (.error (noChoices r e)) ↔ r.choices ≠ .null := by
  have hnull : r.choices = .null ↔ e = .typeError := by rw [← firstMessage_typeError,h,Except.error.injEq]
  rw [ne_eq,hnull]
  rcases firstMessage_error h with rfl | rfl | rfl
  · exact iff_of_true (noChoices_client r (.inl rfl)) Exc.noConfusion
  · exact iff_of_true (noChoices_client r (.inr rfl)) Exc.noConfusion
  · refine iff_of_false ?_ (not_not.mpr rfl)
    rintro ⟨message,hm⟩
    cases hm

theorem honours_ok (v : Json) (inputTokens outputTokens : ℕ) :
    Honours (.ok ⟨if v = .null then none else some v,inputTokens,outputTokens⟩) ↔ v = .null ∨ ∃ d, v = .obj d := by
  by_cases hv : v = .null
  · simp [Honours,hv]
  · simp [Honours,hv]

/-- The arguments of a tool call under the right name are handed on as they are. -/
theorem honours_parseToolCall (toolName : String) (call : ToolCall) (inputTokens outputTokens : ℕ) :
    Honours ((parseToolCall toolName call).map fun v =>
        ⟨if v = .null then none else some v,inputTokens,outputTokens⟩) ↔
      (call.name = some toolName → call.arguments.ObjectOrNull) := by
  unfold parseToolCall
  by_cases hname : call.name = some toolName
  · rw [if_neg (not_not.mpr hname),forall_prop_of_true hname]
    cases call.arguments with
    | object d => exact (honours_ok _ _ _).trans (iff_of_true (.inr ⟨d,rfl⟩) trivial)
    | text loads =>
      cases loads with
      | none => exact iff_of_true ⟨_,rfl⟩ fun v hv => by cases hv
      | some v => exact (honours_ok _ _ _).trans (by simp [ToolArguments.ObjectOrNull])
  · rw [if_pos hname]
    exact iff_of_true ⟨_,rfl⟩ fun h => absurd h hname

theorem honours_resultOfResponse (toolName : String) (r : Response) :
    Honours (resultOfResponse toolName r) ↔ Readable toolName r := by
  unfold resultOfResponse Readable
  cases hm : r.firstMessage with
  | error e =>
    rw [honours_noChoices hm]
    exact (and_iff_left fun m _ _ hm' => by cases hm').symm
  | ok m =>
    have hchoices : r.choices ≠ .null := fun hnull => by
      rw [firstMessage_typeError.mpr hnull] at hm
      cases hm
    rw [and_iff_right hchoices]
    dsimp only
    cases hr : refusalOf m with
    | some refusal =>
      refine iff_of_true ⟨_,rfl⟩ fun m' _ _ hm' hnone => ?_
      cases hm'
      cases hr.symm.trans hnone
    | none =>
      cases hc : m.toolCalls with
      | nil =>
        refine iff_of_true (fun v hv => by cases hv) fun m' _ _ hm' _ hcalls => ?_
        cases hm'
        cases hc.symm.trans hcalls
      | cons call calls =>
        rw [honours_parseToolCall]
        constructor
        · intro h m' call' calls' hm' _ hcalls
          cases hm'
          cases hc.symm.trans hcalls
          exact h
        · exact fun h => h m call calls rfl hr hc

/-- **The contract of `call_tool`.** It holds exactly when the tool can be made ready for the
model and the response, if one comes, is readable. -/
theorem callTool_honours_iff (L : Libraries) (model systemPrompt userContent : String) (tool : Tool) (toolName : String)
    (extraMessages : List Message) (e : ModelEnv) :
    Honours ((callTool L model systemPrompt userContent tool toolName extraMessages).run ModelEnv.handler e).1 ↔
      (∃ t, toolFor L model tool toolName = .ok t) ∧ ∀ r, e.replies.head = .ok r → Readable toolName r := by
  cases ht : toolFor L model tool toolName with
  | error c =>
    rw [run_callTool_error ht]
    refine iff_of_false ?_ fun h => by cases h.1.choose_spec
    rintro ⟨message,rfl⟩
    rcases toolFor_error ht with h | h | h <;> cases h
  | ok t =>
    rw [run_callTool ht,and_iff_right ⟨t,rfl⟩]
    cases hreply : e.replies.head with
    | error x => exact iff_of_true ⟨_,rfl⟩ fun r hr => by cases hr
    | ok r =>
      refine (honours_resultOfResponse toolName r).trans ⟨fun h r' hr' => ?_,fun h => h r rfl⟩
      cases hr'
      exact h

def plainTool : Tool := ⟨"extract_invoice","",.obj []⟩

/-- Null choices raise a type error, and the list of an argument text is handed on. -/
theorem callTool_breaks_contract :
    (∀ e : ModelEnv, e.replies.head = .ok ⟨.null,none,none⟩ →
      ((callTool .basic "gpt" "" "" plainTool "extract_invoice" []).run ModelEnv.handler e).1 = .error .typeError) ∧
    ∀ e : ModelEnv, e.replies.head =
        .ok ⟨.list [⟨some ⟨none,none,[⟨some "extract_invoice",.text (some (.arr [.int 1,.int 2]))⟩]⟩⟩],none,none⟩ →
      ((callTool .basic "gpt" "" "" plainTool "extract_invoice" []).run ModelEnv.handler e).1 =
        .ok ⟨some (.arr [.int 1,.int 2]),0,0⟩ := by
  have ht : toolFor .basic "gpt" plainTool "extract_invoice" = .ok (plainTool,.function "extract_invoice") := by decide
  constructor
  · intro e he
    rw [run_callTool ht,he]
    rfl
  · intro e he
    rw [run_callTool ht,he]
    rfl

end LiteLLMClient

end StructuredExtractor
