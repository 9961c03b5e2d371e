import StructuredExtractor.Extraction.Classifier
import StructuredExtractor.Extraction.Pages
import StructuredExtractor.Extraction.Provider
import StructuredExtractor.Schema.Confidence
import StructuredExtractor.Schema.Validation

/-! # Processing the pages of a document

The type and the strategy are resolved, the pages extracted, and the output
validated and scored. Only an extraction error is wrapped for recording; every
other exception passes through.
-/
namespace StructuredExtractor

structure PipelineResult where
  docType : String
  validation : ValidationResult
  extraction : StrategyExtractionResult
  confidenceMap : List (String × ℕ)
  warnings : List String
  durationMs : ℤ
  deriving DecidableEq

structure DocumentProcessingResult where
  pipeline : PipelineResult
  classifierUsageEvents : List LLMUsageEvent
  deriving DecidableEq

/-- `int((stop - start) * 1000)`, on exact seconds. -/
def durationMs (start stop : ℚ) : ℤ :=
  let ms := (stop - start) * 1000
  ms.num.tdiv ms.den

structure DocumentProcessor where
  libraries : Libraries
  classifier : ClassifierService
  extractor : ToolCallExtractor

/-- What is asked of the processor. A strategy is a string or a member of the
enumeration, whose members are strings. -/
structure ProcessingInput where
  pages : List String
  pageCount : ℕ
  docType : Option String
  strategy : Option String
  deriving DecidableEq, Repr

namespace DocumentProcessor
variable (p : DocumentProcessor)

/-- `QualityPipeline.run_resolved` -/
def runResolved (pages : List String) (docType : String) (strategy : ExtractionStrategy) :
    ModelProg PipelineResult := do
  let startTime ← monotonic
  let extraction ← PageStrategyRunner.extractFromPages
    (ToolCallExtractor.extract p.libraries p.extractor) p.libraries.unicode pages docType strategy
  let stopTime ← monotonic
  let validation ← Prog.ofExcept (Validation.validateExtraction p.libraries.pydantic
    p.libraries.unicode docType extraction.rawOutput)
  let confidenceMap ← Prog.ofExcept (Confidence.scoreConfidenceMap p.libraries.unicode docType
    validation.extractedData)
  return {
    docType, validation, extraction, confidenceMap
    warnings := validation.warnings ++ extraction.warnings
    durationMs := durationMs startTime stopTime }

/-- The document type that was given, or else the classifier's. -/
def resolveDocType (input : ProcessingInput) : ModelProg (String × List LLMUsageEvent) :=
  match input.docType with
  | some docType => return (docType,[])
  | none => do
    let classification ← ClassifierService.classify p.libraries p.classifier (input.pages.headD "")
    return (classification.docType,[classification.usage])

def validateDocType (docType : String) : Except Exc Unit :=
  if docType ∈ SchemaRegistry.listTypes then .ok () else .error (.unsupportedDocumentType docType)

def resolveExtractionInput (input : ProcessingInput) : ModelProg ResolvedDocumentInput := do
  let (docType,usageEvents) ← resolveDocType p input
  Prog.ofExcept (validateDocType docType)
  let strategy ← Prog.ofExcept (PageStrategyRunner.resolveStrategy input.strategy input.pageCount)
  return ⟨docType,strategy,usageEvents⟩

def processPages (input : ProcessingInput) : ModelProg DocumentProcessingResult := do
  let resolved ← resolveExtractionInput p input
  let pipeline ← tryCatch (runResolved p input.pages resolved.docType resolved.strategy) fun
    | .extraction e => throw (.documentProcessing resolved e)
    | e => throw e
  return ⟨pipeline,resolved.usageEvents⟩

end DocumentProcessor

end StructuredExtractor
