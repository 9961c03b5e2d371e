import StructuredExtractor.Library.Prog
import StructuredExtractor.Schema.Documents
import Mathlib.Algebra.Order.Ring.Rat

/-! # The LiteLLM client

A provider is asked through one operation, `acompletion`, and answers with a
response object or raises. What the client reads of a response is kept: the
attributes that can be missing, null or empty. The text of tool arguments counts
by what `json.loads` makes of it. The clock is the other operation of processing.
-/
namespace StructuredExtractor

structure Message where
  role : String
  content : String
  deriving DecidableEq, Repr

structure Tool where
  name : String
  description : String
  parameters : Json
  deriving DecidableEq, Repr

inductive ToolChoice
  | auto
  | function (name : String)
  deriving DecidableEq, Repr

/-- The arguments of `litellm.acompletion`. -/
structure Request where
  model : String
  messages : List Message
  maxTokens : Option ℕ
  tools : List Tool
  toolChoice : Option ToolChoice
  deriving DecidableEq, Repr

structure Usage where
  promptTokens : ℕ
  completionTokens : ℕ
  deriving DecidableEq, Repr

inductive ToolArguments
  | object (d : Dict)
  /-- A text, or what else `json.loads` takes or refuses. -/
  | text (loads : Option Json)
  deriving DecidableEq, Repr

structure ToolCall where
  name : Option String
  arguments : ToolArguments
  deriving DecidableEq, Repr

structure AssistantMessage where
  content : Option String
  refusal : Option String
  toolCalls : List ToolCall
  deriving DecidableEq, Repr

/-- A choice; its message attribute can be missing. -/
structure Choice where
  message : Option AssistantMessage
  deriving DecidableEq, Repr

inductive Choices
  | missing
  | null
  | list (choices : List Choice)
  deriving DecidableEq, Repr

structure Response where
  choices : Choices
  blockReason : Option String
  usage : Option Usage
  deriving DecidableEq, Repr

namespace Response

def inputTokens (r : Response) : ℕ := (r.usage.map Usage.promptTokens).getD 0
def outputTokens (r : Response) : ℕ := (r.usage.map Usage.completionTokens).getD 0

/-- `response.choices[0].message`. -/
def firstMessage (r : Response) : Except Exc AssistantMessage :=
  match r.choices with
  | .missing => .error .attributeError
  | .null => .error .typeError
  | .list [] => .error .indexError
  | .list (c :: _) => match c.message with
    | some m => .ok m
    | none => .error .attributeError

end Response

/-- What processing asks of the outside. -/
inductive ModelOp
  | acompletion (request : Request)
  | monotonic
  deriving DecidableEq

/-- A response, or the seconds of the clock. -/
def ModelOp.Reply : ModelOp → Type
  | .acompletion _ => Response
  | .monotonic => ℚ

abbrev ModelProg (α : Type) := Prog ModelOp.Reply Exc α

def acompletion (request : Request) : ModelProg Response := Prog.perform (ModelOp.acompletion request)
def monotonic : ModelProg ℚ := Prog.perform ModelOp.monotonic

structure TextCompletionResult where
  content : String
  inputTokens : ℕ
  outputTokens : ℕ
  deriving DecidableEq, Repr

structure ToolCallResult where
  arguments : Option Json
  inputTokens : ℕ
  outputTokens : ℕ
  deriving DecidableEq, Repr

/-- The library code that processing relies on, and how deep Python may recurse
in `resolve_and_simplify`. -/
structure Libraries where
  pydantic : Pydantic
  unicode : Unicode
  modelJsonSchema : Schema → Json
  recursionDepth : ℕ

/-- Libraries on plain forms and ASCII text, with a JSON schema of a title. -/
def Libraries.basic : Libraries where
  pydantic := .basic
  unicode := .ascii
  modelJsonSchema s := .obj [("title",.str s.name),("type",.str "object")]
  recursionDepth := 1000

namespace SchemaRegistry

def getTool (L : Libraries) (docType : String) : Except Exc Tool := do
  let schema ← getSchema docType
  return {
    name := "extract_" ++ docType
    description := "Extract structured " ++ docType ++ " data from document text"
    parameters := L.modelJsonSchema schema }

end SchemaRegistry

namespace SimplifySchema

/-- Python's truth of a JSON value. -/
def truthy : Json → Bool
  | .null => false
  | .bool b => b
  | .int n => n ≠ 0
  | .float (.finite _ digits _) => digits ≠ 0
  | .float _ => true
  | .str s => s ≠ ""
  | .arr items => items ≠ []
  | .obj fields => fields ≠ []

/-- `dict.update`: a known key keeps its place. -/
def update (d : Dict) : Dict → Dict
  | [] => d
  | (k,v) :: rest =>
    let d := if (d.lookup k).isSome then d.map fun p => if p.1 = k then (k,v) else p else d ++ [(k,v)]
    update d rest

/-- The type that stands for a union. -/
def primaryType (subschemas : List Json) : Json :=
  let types := subschemas.filterMap fun sub => match sub with
    | .obj d => (d.lookup "type").filter truthy
    | _ => none
  match types.filter (· ≠ .str "null") with
  | [] => .str "string"
  | t :: ts =>
    if .str "number" ∈ t :: ts then .str "number"
    else if .str "integer" ∈ t :: ts then .str "integer"
    else if .str "boolean" ∈ t :: ts then .str "boolean"
    else t

def refPrefix : String := "#/$defs/"

/-- The definition that a `$ref` names, if it is one of `defs`. -/
def definition (defs : Dict) (refPath : String) : Option Json :=
  if refPrefix.toList.isPrefixOf refPath.toList then
    defs.lookup ((refPath.splitOn "/").getLastD "")
  else none

def forbidden : List String := ["pattern","format"]

/-- One key of a node that is rebuilt with `resolve` on its values. -/
def entry (resolve : Json → Except Exc Json) (p : String × Json) : Except Exc (String × Json) :=
  match p with
  | ("anyOf",.arr subschemas) => .ok ("type",primaryType subschemas)
  | (k,v) => do return (k,← resolve v)

/-- The loop that makes the new node. -/
def rebuild (resolve : Json → Except Exc Json) (node : Dict) : Except Exc Json := do
  let entries ← node.mapM (entry resolve)
  return .obj ((update [] entries).filter fun p => !forbidden.contains p.1)

/-- `resolve_and_simplify`, `depth` calls deep at most. -/
def resolveAndSimplify (defs : Dict) : ℕ → Json → Except Exc Json
  | 0, _ => .error .recursionError
  | depth + 1, .obj node =>
    match node.lookup "$ref" with
    | none => rebuild (resolveAndSimplify defs depth) node
    | some (.str refPath) => match definition defs refPath with
      | none => rebuild (resolveAndSimplify defs depth) node
      | some d => do
        match ← resolveAndSimplify defs depth d with
        | .obj resolved => return .obj (update (node.filter fun p => p.1 ≠ "$ref") resolved)
        | _ => throw .typeError
    | some _ => .error .attributeError
  | depth + 1, .arr items => do return .arr (← items.mapM (resolveAndSimplify defs depth))
  | _ + 1, node => .ok node

/-- `_dereference_and_simplify_schema`. -/
def dereferenceAndSimplifySchema (depth : ℕ) (schema : Json) : Except Exc Json :=
  match schema with
  | .obj fields =>
    let defs := match fields.lookup "$defs" with
      | some (.obj d) => d
      | _ => []
    resolveAndSimplify defs depth (.obj (fields.filter fun p => p.1 ≠ "$defs"))
  | _ => .ok schema

end SimplifySchema

namespace LiteLLMClient

def completionFailed : Exc := .llmClient "LLM completion failed"

/-- The refusal of a message, when it is a text that is not empty. -/
def refusalOf (m : AssistantMessage) : Option String := m.refusal.filter (· ≠ "")

/-- `generate_text` on a response: everything that is no refusal and goes wrong
becomes the same error. -/
def textOfResponse (response : Response) : Except Exc TextCompletionResult :=
  match response.firstMessage with
  | .error _ => .error completionFailed
  | .ok m => match refusalOf m with
    | some refusal =>
      .error (.llmClient ("LLM completion failed: request was refused. Reason: " ++ refusal))
    | none => .ok ⟨m.content.getD "",response.inputTokens,response.outputTokens⟩

def generateText (model : String) (messages : List Message) (maxTokens : ℕ) :
    ModelProg TextCompletionResult := do
  let response ← tryCatch (acompletion ⟨model,messages,some maxTokens,[],none⟩)
    fun _ => throw completionFailed
  Prog.ofExcept (textOfResponse response)

/-- The error of a response that has no first message. A null `choices` raises a
`TypeError`, which `call_tool` does not catch. -/
def noChoices (response : Response) : Exc → Exc
  | .indexError | .attributeError => match response.blockReason.filter (· ≠ "") with
    | some blockReason =>
      .llmClient ("LLM completion blocked by provider safety filter: " ++ blockReason)
    | none => .llmClient ("LLM completion failed: provider returned no choices " ++
      "(possible content filter or malformed response)")
  | e => e

/-- The arguments of the first tool call, under the name that was asked for. -/
def parseToolCall (toolName : String) (call : ToolCall) : Except Exc Json :=
  if call.name ≠ some toolName then
    .error (.llmClient ("Tool name mismatch: expected tool call '" ++ toolName ++ "', got '" ++
      call.name.getD "None" ++ "'"))
  else match call.arguments with
    | .object d => .ok (.obj d)
    | .text (some v) => .ok v
    | .text none => .error (.llmClient "Failed to parse tool call arguments")

/-- `call_tool` on a response. A JSON null is no arguments, as no call is. -/
def resultOfResponse (toolName : String) (response : Response) : Except Exc ToolCallResult :=
  match response.firstMessage with
  | .error e => .error (noChoices response e)
  | .ok m => match refusalOf m with
    | some refusal =>
      .error (.llmClient ("LLM completion failed: request was refused. Reason: " ++ refusal))
    | none => match m.toolCalls with
      | [] => .ok ⟨none,response.inputTokens,response.outputTokens⟩
      | call :: _ => (parseToolCall toolName call).map fun v =>
        ⟨if v = .null then none else some v,response.inputTokens,response.outputTokens⟩

/-- The tool and the tool choice that a model is sent. -/
def toolFor (L : Libraries) (model : String) (tool : Tool) (toolName : String) :
    Except Exc (Tool × ToolChoice) :=
  if Text.contains "gemini" (L.unicode.lower model) then do
    let parameters ← SimplifySchema.dereferenceAndSimplifySchema L.recursionDepth tool.parameters
    return ({ tool with parameters },.auto)
  else .ok (tool,.function toolName)

def callTool (L : Libraries) (model systemPrompt userContent : String) (tool : Tool)
    (toolName : String) (extraMessages : List Message) : ModelProg ToolCallResult := do
  let messages := ⟨"system",systemPrompt⟩ :: ⟨"user",userContent⟩ :: extraMessages
  let (tool,toolChoice) ← Prog.ofExcept (toolFor L model tool toolName)
  let response ← tryCatch (acompletion ⟨model,messages,none,[tool],some toolChoice⟩)
    fun _ => throw completionFailed
  Prog.ofExcept (resultOfResponse toolName response)

end LiteLLMClient

end StructuredExtractor
