import StructuredExtractor.Extraction.Client
import StructuredExtractor.Library.Keyed

/-! # The document classifier -/
namespace StructuredExtractor

structure ClassificationResult where
  docType : String
  usage : LLMUsageEvent
  deriving DecidableEq, Repr

structure ClassifierService where
  model : String
  deriving DecidableEq, Repr

namespace ClassifierService

def textPreviewLength : ℕ := 500
def unknownDocType : String := "unknown"

/-- `CLASSIFIER_PROMPT.format`. -/
def classifierPrompt (validTypes text : String) : String :=
  "You are a document classifier. Based on the document text below, " ++
  "identify the document type.\n" ++
  "Respond with exactly one of: " ++ validTypes ++ "\n\n" ++
  "Use unknown when the document does not match one of those types.\n\n" ++
  "Document text (first 500 chars):\n" ++ text ++ "\n\n" ++
  "Document type:"

/-- The type that a reply names. -/
def typeOfContent (u : Unicode) (content : String) : String :=
  let normalized := u.lower (Text.strip content)
  let validTypeMap := SchemaRegistry.listTypes.map fun docType => (u.lower docType,docType)
  if normalized = unknownDocType then unknownDocType
  else (validTypeMap.lookup normalized).getD unknownDocType

def classify (L : Libraries) (c : ClassifierService) (firstPageText : String) :
    ModelProg ClassificationResult := do
  let prompt := classifierPrompt
    (", ".intercalate (SchemaRegistry.listTypes ++ [unknownDocType]))
    (String.ofList (firstPageText.toList.take textPreviewLength))
  let completion ← tryCatch (LiteLLMClient.generateText c.model [⟨"user",prompt⟩] 25) fun
    | .llmClient message => throw (.classification ("LLM classification failed: " ++ message))
    | e => throw e
  return {
    docType := typeOfContent L.unicode completion.content
    usage := ⟨.classifier,c.model,completion.inputTokens,completion.outputTokens⟩ }

end ClassifierService

end StructuredExtractor
