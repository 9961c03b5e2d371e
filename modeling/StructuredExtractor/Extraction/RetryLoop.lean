import StructuredExtractor.Extraction.ToolCall
import Mathlib.Algebra.BigOperators.Group.List.Basic
import Mathlib.Tactic.IntervalCases

/-! # The extraction loop over any client

A client answers `call_tool` with nothing, with a result or with an error. What the
loop returns or raises, and what each of its calls carries, is a function of the
replies. Over the LiteLLM client the loop is the one of the extraction.
-/
namespace StructuredExtractor

/-- The arguments of `LLMClient.call_tool`. -/
structure ToolRequest where
  model : String
  systemPrompt : String
  userContent : String
  tool : Tool
  toolName : String
  extraMessages : Option (List Message)

/-- Programs that ask a client for tool calls. -/
abbrev ClientProg (α : Type) := Prog (fun _ : ToolRequest => Option ToolCallResult) Exc α

/-- What a client does with a call. -/
inductive ClientReply
  | nothing
  | result (r : ToolCallResult)
  | error (message : String)

namespace ClientReply

def toExcept : ClientReply → Except Exc (Option ToolCallResult)
  | .nothing => .ok none
  | .result r => .ok (some r)
  | .error message => .error (.llmClient message)

/-- The tokens of the result, if there is one. -/
def inputTokens : ClientReply → ℕ
  | .result r => r.inputTokens
  | _ => 0

def outputTokens : ClientReply → ℕ
  | .result r => r.outputTokens
  | _ => 0

/-- A reply with arguments, or an error. -/
def Stops : ClientReply → Prop
  | .nothing => False
  | .result r => r.arguments ≠ none
  | .error _ => True

end ClientReply

/-- The replies to come, and the calls that were made. -/
structure ClientEnv where
  replies : Stream' ClientReply
  calls : List ToolRequest

def ClientEnv.handler : Handler (fun _ : ToolRequest => Option ToolCallResult) Exc ClientEnv :=
  fun request e => (e.replies.head.toExcept,⟨e.replies.tail,e.calls ++ [request]⟩)

namespace ToolCallExtractor
variable (L : Libraries) (x : ToolCallExtractor)

/-- `extra_messages or None` -/
def orNone (messages : List Message) : Option (List Message) := if messages = [] then none else some messages

/-- The call of the loop that carries `extraMessages`. -/
def request (tool : Tool) (toolName text : String) (extraMessages : List Message) : ToolRequest where
  model := x.model
  systemPrompt := extractionSystemPrompt
  userContent := extractionUserPrompt text
  tool := tool
  toolName := toolName
  extraMessages := orNone extraMessages

def attemptWith (tool : Tool) (toolName text : String) (attempts inputTokens outputTokens : ℕ)
    (extraMessages : List Message) : ClientProg (Option ToolCallResult) :=
  tryCatch (Prog.perform (request x tool toolName text extraMessages)) fun
    | .llmClient _ => throw (clientFailed attempts inputTokens outputTokens)
    | e => throw e

/-- The loop of `extract`, with `left` attempts to go after `attempts` of them. -/
def loopWith (tool : Tool) (text docType : String) :
    (left attempts inputTokens outputTokens : ℕ) → List Message → ClientProg Extracted
  | 0, attempts, inputTokens, outputTokens, _ => throw (exhausted docType attempts inputTokens outputTokens)
  | left + 1, attempts, inputTokens, outputTokens, extraMessages => do
    let result ← attemptWith x tool ("extract_" ++ docType) text (attempts + 1)
      inputTokens outputTokens extraMessages
    let inputTokens := inputTokens + result.elim 0 ToolCallResult.inputTokens
    let outputTokens := outputTokens + result.elim 0 ToolCallResult.outputTokens
    match result.bind ToolCallResult.arguments with
    | some arguments => return ⟨arguments,inputTokens,outputTokens⟩
    | none =>
      loopWith tool text docType left (attempts + 1) inputTokens outputTokens
        (extraMessages ++ retryMessages)

/-- `extract` over a client. -/
def extractWith (text docType : String) : ClientProg Extracted := do
  let tool ← Prog.ofExcept (SchemaRegistry.getTool L docType)
  loopWith x tool text docType (x.maxRetries + 1).toNat 0 0 0 []

section Refinement

/-- The LiteLLM client, asked for one tool call. -/
def litellm (r : ToolRequest) : ModelProg (Option ToolCallResult) :=
  some <$> LiteLLMClient.callTool L r.model r.systemPrompt r.userContent r.tool r.toolName (r.extraMessages.getD [])

theorem orNone_getD (messages : List Message) : (orNone messages).getD [] = messages := by
  by_cases h : messages = [] <;> simp [orNone,h]

theorem translate_attemptWith (tool : Tool) (toolName text : String) (attempts inputTokens outputTokens : ℕ)
    (extraMessages : List Message) :
    (attemptWith x tool toolName text attempts inputTokens outputTokens extraMessages).translate (litellm L) =
      some <$> attempt L x tool toolName text attempts inputTokens outputTokens extraMessages := by
  rw [attemptWith,Prog.translate_tryCatch,Prog.translate_perform,litellm,request,orNone_getD,attempt,
    Prog.map_tryCatch]
  refine congrArg (tryCatch _) (funext fun e => ?_)
  cases e <;> rfl

/-- Over the LiteLLM client the loop is that of the extraction. -/
theorem translate_loopWith (tool : Tool) (text docType : String) (left attempts inputTokens outputTokens : ℕ)
    (extraMessages : List Message) :
    (loopWith x tool text docType left attempts inputTokens outputTokens extraMessages).translate (litellm L) =
      loop L x tool text docType left attempts inputTokens outputTokens extraMessages := by
  induction left generalizing attempts inputTokens outputTokens extraMessages with
  | zero => rfl
  | succ left ih =>
    rw [loopWith,Prog.translate_bind,translate_attemptWith,loop,bind_map_left]
    refine congrArg (attempt L x tool _ text _ _ _ _ >>= ·) (funext fun result => ?_)
    cases h : result.arguments with
    | none => simpa [h] using ih _ _ _ _
    | some arguments => simp [h]; rfl

/-- **The loop over any client.** With the LiteLLM client's calls in place of its own, it is the
extractor's loop. -/
theorem translate_extractWith (text docType : String) :
    (extractWith L x text docType).translate (litellm L) = extract L x text docType := by
  rw [extractWith,Prog.translate_bind,extract]
  refine congrArg (Prog.ofExcept (SchemaRegistry.getTool L docType) >>= ·) (funext fun tool => ?_)
  exact translate_loopWith L x tool text docType _ 0 0 0 []

end Refinement

section Replies

/-- The retry messages of so many failed attempts. -/
def retries (failed : ℕ) : List Message := (List.replicate failed retryMessages).flatten

theorem retries_succ (failed : ℕ) : retries failed ++ retryMessages = retries (failed + 1) := by
  rw [retries,retries,List.replicate_succ',List.flatten_append,List.flatten_singleton]

theorem length_retries (failed : ℕ) : (retries failed).length = 2 * failed := by
  simp [retries,retryMessages,Nat.mul_comm]

/-- The tokens of the first replies. -/
def inputOf (replies : Stream' ClientReply) (n : ℕ) : ℕ := ((replies.take n).map ClientReply.inputTokens).sum
def outputOf (replies : Stream' ClientReply) (n : ℕ) : ℕ := ((replies.take n).map ClientReply.outputTokens).sum

/-- So many calls, each with the retry messages of those before it. -/
def callsOf (tool : Tool) (docType text : String) (n : ℕ) : List ToolRequest :=
  (List.range n).map fun k => request x tool ("extract_" ++ docType) text (retries k)

theorem inputOf_succ (replies : Stream' ClientReply) (n : ℕ) :
    inputOf replies (n + 1) = inputOf replies n + (replies.get n).inputTokens := by
  rw [inputOf,Stream'.take_succ',List.map_append,List.sum_append]
  rfl

theorem outputOf_succ (replies : Stream' ClientReply) (n : ℕ) :
    outputOf replies (n + 1) = outputOf replies n + (replies.get n).outputTokens := by
  rw [outputOf,Stream'.take_succ',List.map_append,List.sum_append]
  rfl

theorem callsOf_succ (tool : Tool) (docType text : String) (n : ℕ) : callsOf x tool docType text (n + 1) =
    callsOf x tool docType text n ++ [request x tool ("extract_" ++ docType) text (retries n)] := by
  rw [callsOf,callsOf,List.range_succ,List.map_append,List.map_singleton]

variable (tool : Tool) (text docType : String)

theorem run_attemptWith (toolName : String) (attempts inputTokens outputTokens : ℕ) (extraMessages : List Message)
    (e : ClientEnv) :
    (attemptWith x tool toolName text attempts inputTokens outputTokens extraMessages).run ClientEnv.handler e =
      (match e.replies.head with
        | .nothing => .ok none
        | .result r => .ok (some r)
        | .error _ => .error (clientFailed attempts inputTokens outputTokens),
        ⟨e.replies.tail,e.calls ++ [request x tool toolName text extraMessages]⟩) := by
  rw [attemptWith,Prog.run_tryCatch,Prog.run_perform,ClientEnv.handler]
  cases e.replies.head <;> rfl

/-- A reply that does not stop the loop is counted, and the next call carries two more messages. -/
theorem run_loopWith_retry {e : ClientEnv} (hgo : ¬e.replies.head.Stops) (left failed inputTokens outputTokens : ℕ) :
    (loopWith x tool text docType (left + 1) failed inputTokens outputTokens (retries failed)).run ClientEnv.handler e =
      (loopWith x tool text docType left (failed + 1) (inputTokens + e.replies.head.inputTokens)
        (outputTokens + e.replies.head.outputTokens) (retries (failed + 1))).run ClientEnv.handler
          ⟨e.replies.tail,e.calls ++ [request x tool ("extract_" ++ docType) text (retries failed)]⟩ := by
  rw [loopWith,Prog.run_bind,run_attemptWith,← retries_succ]
  cases h : e.replies.head with
  | nothing => rfl
  | result r =>
    have hnone : r.arguments = none := by
      rw [h] at hgo
      exact not_not.mp hgo
    simp [hnone]
    rfl
  | error message =>
    rw [h] at hgo
    exact (hgo trivial).elim

/-- The environment once so many replies were taken. -/
def taken (replies : Stream' ClientReply) (n : ℕ) : ClientEnv := ⟨replies.drop n,callsOf x tool docType text n⟩

theorem taken_succ (replies : Stream' ClientReply) (n : ℕ) : taken x tool text docType replies (n + 1) =
    ⟨(taken x tool text docType replies n).replies.tail,(taken x tool text docType replies n).calls ++
      [request x tool ("extract_" ++ docType) text (retries n)]⟩ := by
  rw [taken,callsOf_succ,taken,Stream'.tail_drop']

/-- After so many replies that do not stop it, the loop has counted them all. -/
theorem run_loopWith_retries {replies : Stream' ClientReply} {n : ℕ} (hgo : ∀ j < n, ¬(replies.get j).Stops) (left : ℕ) :
    (loopWith x tool text docType (n + left) 0 0 0 []).run ClientEnv.handler ⟨replies,[]⟩ =
      (loopWith x tool text docType left n (inputOf replies n) (outputOf replies n) (retries n)).run ClientEnv.handler
        (taken x tool text docType replies n) := by
  induction n generalizing left with
  | zero =>
    rw [Nat.zero_add]
    rfl
  | succ n ih =>
    have hnext : ¬(taken x tool text docType replies n).replies.head.Stops := by
      rw [taken,Stream'.head_drop]
      exact hgo n (Nat.lt_succ_self n)
    rw [Nat.add_right_comm,Nat.add_assoc,ih (fun j hj => hgo j (hj.trans (Nat.lt_succ_self n))) (left + 1),
      run_loopWith_retry x tool text docType hnext,taken_succ,inputOf_succ,outputOf_succ,taken,Stream'.head_drop]

theorem run_loopWith_arguments {replies : Stream' ClientReply} {n : ℕ} {result : ToolCallResult} {arguments : Json}
    (hreply : replies.get n = .result result) (harguments : result.arguments = some arguments) (left : ℕ) :
    (loopWith x tool text docType (left + 1) n (inputOf replies n) (outputOf replies n) (retries n)).run
        ClientEnv.handler (taken x tool text docType replies n) =
      (.ok ⟨arguments,inputOf replies (n + 1),outputOf replies (n + 1)⟩,taken x tool text docType replies (n + 1)) := by
  rw [loopWith,Prog.run_bind,run_attemptWith,taken_succ,inputOf_succ,outputOf_succ,taken,Stream'.head_drop,hreply]
  simp [harguments,ClientReply.inputTokens,ClientReply.outputTokens]

theorem run_loopWith_error {replies : Stream' ClientReply} {n : ℕ} {message : String}
    (hreply : replies.get n = .error message) (left : ℕ) :
    (loopWith x tool text docType (left + 1) n (inputOf replies n) (outputOf replies n) (retries n)).run
        ClientEnv.handler (taken x tool text docType replies n) =
      (.error (clientFailed (n + 1) (inputOf replies (n + 1)) (outputOf replies (n + 1))),
        taken x tool text docType replies (n + 1)) := by
  rw [loopWith,Prog.run_bind,run_attemptWith,taken_succ,inputOf_succ,outputOf_succ,taken,Stream'.head_drop,hreply]
  rfl

end Replies

section Spec
variable {L x} {tool : Tool} {docType : String}

theorem run_extractWith (htool : SchemaRegistry.getTool L docType = .ok tool) (text : String) (e : ClientEnv) :
    (extractWith L x text docType).run ClientEnv.handler e =
      (loopWith x tool text docType (x.maxRetries + 1).toNat 0 0 0 []).run ClientEnv.handler e := by
  rw [extractWith,htool]
  rfl

/-- Nothing, then a result without arguments, then one with arguments, over two retries. -/
def threeReplies : Stream' ClientReply := fun
  | 0 => .nothing
  | 1 => .result ⟨none,20,5⟩
  | _ => .result ⟨some (.obj [("currency",.str "USD")]),150,50⟩

end Spec

end ToolCallExtractor

end StructuredExtractor
