import StructuredExtractor.Extraction.Client

/-! # The extraction loop

`extract` asks for a tool call until it gets one, a client error ends it, or the
attempts are used up. Tokens add up over the attempts.
-/
namespace StructuredExtractor

/-- What an extraction returns: the arguments and the tokens they cost. -/
structure Extracted where
  rawOutput : Json
  inputTokens : ℕ
  outputTokens : ℕ
  deriving DecidableEq, Repr

/-- The `TextExtractor` protocol. -/
abbrev TextExtractor := (text docType : String) → ModelProg Extracted

structure ToolCallExtractor where
  model : String
  maxRetries : ℤ
  deriving DecidableEq, Repr

namespace ToolCallExtractor

def extractionSystemPrompt : String :=
  "You are a document data extraction assistant. " ++
  "Your job is to extract structured data from the document text. " ++
  "You must call the extraction tool. Do not provide prose explanations."

def retryUserPrompt : String :=
  "You must respond ONLY by calling the specified tool. " ++
  "Do not output prose or conversational replies."

/-- `EXTRACTION_USER_PROMPT_TEMPLATE.format`. -/
def extractionUserPrompt (text : String) : String :=
  "Extract all structured data from this document.\n\n" ++
  "Rules:\n" ++
  "- Preserve the exact numeric amounts stated in the document.\n" ++
  "- Normalize dates to ISO 8601 format (YYYY-MM-DD) when the date is stated.\n" ++
  "- Do not guess missing values.\n" ++
  "- Omit fields that are genuinely absent from the document.\n" ++
  "- Respond only by calling the extraction tool.\n\n" ++
  "Document text:\n" ++ text

/-- The messages that a reply without a tool call adds. -/
def retryMessages : List Message := [⟨"assistant",""⟩,⟨"user",retryUserPrompt⟩]

def clientFailed (attempts inputTokens outputTokens : ℕ) : Exc :=
  .extraction ⟨"LLM tool-call extraction failed",attempts,inputTokens,outputTokens⟩

def exhausted (docType : String) (attempts inputTokens outputTokens : ℕ) : Exc :=
  .extraction ⟨"Failed to extract structured data for '" ++ docType ++ "' after " ++
    toString attempts ++ " attempts. LLM failed to call tool.",attempts,inputTokens,outputTokens⟩

variable (L : Libraries) (x : ToolCallExtractor)

/-- One `call_tool` of the loop, with a client error made an extraction error. -/
def attempt (tool : Tool) (toolName text : String) (attempts inputTokens outputTokens : ℕ)
    (extraMessages : List Message) : ModelProg ToolCallResult :=
  tryCatch (LiteLLMClient.callTool L x.model extractionSystemPrompt (extractionUserPrompt text)
    tool toolName extraMessages) fun
    | .llmClient _ => throw (clientFailed attempts inputTokens outputTokens)
    | e => throw e

/-- The loop, with `left` attempts to go after `attempts` of them. -/
def loop (tool : Tool) (text docType : String) :
    (left attempts inputTokens outputTokens : ℕ) → List Message → ModelProg Extracted
  | 0, attempts, inputTokens, outputTokens, _ =>
    throw (exhausted docType attempts inputTokens outputTokens)
  | left + 1, attempts, inputTokens, outputTokens, extraMessages => do
    let result ← attempt L x tool ("extract_" ++ docType) text (attempts + 1)
      inputTokens outputTokens extraMessages
    let inputTokens := inputTokens + result.inputTokens
    let outputTokens := outputTokens + result.outputTokens
    match result.arguments with
    | some arguments => return ⟨arguments,inputTokens,outputTokens⟩
    | none =>
      loop tool text docType left (attempts + 1) inputTokens outputTokens
        (extraMessages ++ retryMessages)

/-- `extract`: attempts as long as no more than `max_retries` have been made. -/
def extract : TextExtractor := fun text docType => do
  let tool ← Prog.ofExcept (SchemaRegistry.getTool L docType)
  loop L x tool text docType (x.maxRetries + 1).toNat 0 0 0 []

end ToolCallExtractor

end StructuredExtractor
