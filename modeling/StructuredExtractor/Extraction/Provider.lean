import StructuredExtractor.Extraction.ToolCall

/-! # The provider as an environment

The replies that the provider gives, in order, and the readings of the clock are
fixed before a run; the requests and replies that have passed are kept. A run is
then a function of this environment.
-/
namespace StructuredExtractor

structure Exchange where
  request : Request
  reply : Except Exc Response

structure ModelEnv where
  replies : Stream' (Except Exc Response)
  clock : Stream' ℚ
  exchanges : List Exchange

namespace ModelEnv

/-- The environment before any request. -/
def start (replies : Stream' (Except Exc Response)) (clock : Stream' ℚ) : ModelEnv :=
  ⟨replies,clock,[]⟩

/-- The environment once `request` has been answered. -/
def ask (e : ModelEnv) (request : Request) : ModelEnv where
  replies := e.replies.tail
  clock := e.clock
  exchanges := e.exchanges ++ [⟨request,e.replies.head⟩]

/-- The environment once the clock has been read. -/
def tick (e : ModelEnv) : ModelEnv := { e with clock := e.clock.tail }

def handler : Handler ModelOp.Reply Exc ModelEnv
  | .acompletion request, e => (e.replies.head,e.ask request)
  | .monotonic, e => (.ok e.clock.head,e.tick)

/-- The responses that came in, in order. -/
def received (e : ModelEnv) : List Response :=
  e.exchanges.filterMap fun x => match x.reply with
    | .ok r => some r
    | .error _ => none

@[simp] theorem ask_replies (e : ModelEnv) (q : Request) : (e.ask q).replies = e.replies.tail := rfl
@[simp] theorem ask_clock (e : ModelEnv) (q : Request) : (e.ask q).clock = e.clock := rfl
@[simp] theorem tick_replies (e : ModelEnv) : e.tick.replies = e.replies := rfl
@[simp] theorem tick_exchanges (e : ModelEnv) : e.tick.exchanges = e.exchanges := rfl
@[simp] theorem received_start (replies : Stream' (Except Exc Response)) (clock : Stream' ℚ) :
    (start replies clock).received = [] := rfl

theorem received_ask_ok {e : ModelEnv} {r : Response} (h : e.replies.head = .ok r) (q : Request) :
    (e.ask q).received = e.received ++ [r] := by
  simp [received,ask,h]

theorem received_ask_error {e : ModelEnv} {x : Exc} (h : e.replies.head = .error x) (q : Request) :
    (e.ask q).received = e.received := by
  simp [received,ask,h]

@[simp] theorem run_acompletion (e : ModelEnv) (request : Request) :
    (acompletion request).run handler e = (e.replies.head,e.ask request) := rfl

@[simp] theorem run_monotonic (e : ModelEnv) :
    monotonic.run handler e = (.ok e.clock.head,e.tick) := rfl

end ModelEnv

namespace LiteLLMClient

/-- The request of `call_tool`, once the tool is made ready for the model. -/
def toolRequest (model systemPrompt userContent : String) (t : Tool × ToolChoice)
    (extraMessages : List Message) : Request :=
  ⟨model,⟨"system",systemPrompt⟩ :: ⟨"user",userContent⟩ :: extraMessages,none,[t.1],some t.2⟩

/-- What `call_tool` makes of a reply. -/
def resultOfReply (toolName : String) : Except Exc Response → Except Exc ToolCallResult
  | .ok response => resultOfResponse toolName response
  | .error _ => .error completionFailed

/-- `call_tool` asks exactly once, and its result depends on that reply only. -/
theorem run_callTool {L : Libraries} {model : String} {tool : Tool} {toolName : String}
    {t : Tool × ToolChoice} (ht : toolFor L model tool toolName = .ok t) (systemPrompt userContent)
    (extraMessages : List Message) (e : ModelEnv) :
    (callTool L model systemPrompt userContent tool toolName extraMessages).run ModelEnv.handler e =
      (resultOfReply toolName e.replies.head,
        e.ask (toolRequest model systemPrompt userContent t extraMessages)) := by
  unfold callTool
  rw [ht]
  cases h : e.replies.head with
  | error x => simp [Prog.run_bind,Prog.run_tryCatch,h,resultOfReply,toolRequest]
  | ok r => simp [Prog.run_bind,Prog.run_tryCatch,h,resultOfReply,toolRequest]

/-- A tool that cannot be made ready is an error before anything is asked. -/
theorem run_callTool_error {L : Libraries} {model : String} {tool : Tool} {toolName : String}
    {x : Exc} (ht : toolFor L model tool toolName = .error x) (systemPrompt userContent)
    (extraMessages : List Message) (e : ModelEnv) :
    (callTool L model systemPrompt userContent tool toolName extraMessages).run ModelEnv.handler e =
      (.error x,e) := by
  unfold callTool
  rw [ht]
  simp [Prog.run_bind]

end LiteLLMClient

end StructuredExtractor
