import StructuredExtractor.Extraction.Merge
import StructuredExtractor.Extraction.ToolCall

/-! # The page strategies

A document goes to the extractor as a whole, as the pages that look financial, or
page by page with the outputs merged.
-/
namespace StructuredExtractor

structure StrategyExtractionResult where
  rawOutput : Json
  inputTokens : ℕ
  outputTokens : ℕ
  strategy : ExtractionStrategy
  sourcePages : List ℕ
  warnings : List String
  fieldSourcePages : Option (List (String × List ℕ))
  deriving DecidableEq

def StrategyExtractionResult.auditOutput (r : StrategyExtractionResult) : Json :=
  match r.fieldSourcePages with
  | none => r.rawOutput
  | some sources => .obj [("merged_output",r.rawOutput),
      ("field_source_pages",.obj (sources.map fun p => (p.1,.arr (p.2.map fun n => .int n))))]

namespace PageStrategyRunner

def monetaryKeywords : List String :=
  ["total","amount","subtotal","net","gross","due","$","ngn","usd"]

def formatPage (pageIndex : ℕ) (pageText : String) : String :=
  "Page " ++ toString pageIndex ++ ":\n" ++ pageText

def joinPages (pages : List (String × ℕ)) : String :=
  "\n\n".intercalate (pages.map fun p => formatPage p.2 p.1)

def resolveStrategy (strategy : Option String) (pageCount : ℕ) : Except Exc ExtractionStrategy :=
  match strategy with
  | some value => ExtractionStrategy.ofValue value
  | none => .ok (if 10 < pageCount then .smart else .full)

/-- The first page, the last page and every page with a monetary keyword. -/
def selectPages (u : Unicode) (pages : List String) : List (String × ℕ) :=
  pages.zipIdx.filter fun p => p.2 = 0 || p.2 + 1 = pages.length ||
    monetaryKeywords.any (Text.contains · (u.lower p.1))

/-- The accumulators of the loop over the pages. -/
structure PageTotals where
  perPage : List (Dict × ℕ)
  inputTokens : ℕ
  outputTokens : ℕ
  failures : ℕ
  warnings : List String
  deriving DecidableEq

namespace PageTotals

def init : PageTotals := ⟨[],0,0,0,[]⟩

/-- A page whose extraction raised. -/
def skip (t : PageTotals) (pageIndex : ℕ) (e : ExtractionError) : PageTotals where
  perPage := t.perPage
  inputTokens := t.inputTokens + e.inputTokens
  outputTokens := t.outputTokens + e.outputTokens
  failures := t.failures + 1
  warnings := t.warnings ++
    ["page " ++ toString pageIndex ++ ": extraction failed and was skipped"]

/-- A page that was extracted. An output without `values` is no dictionary. -/
def add (t : PageTotals) (pageIndex : ℕ) (x : Extracted) : Except Exc PageTotals :=
  match x.rawOutput with
  | .obj d => .ok { t with
      inputTokens := t.inputTokens + x.inputTokens
      outputTokens := t.outputTokens + x.outputTokens
      perPage := if Merge.hasUsefulExtraction d then t.perPage ++ [(d,pageIndex)] else t.perPage }
  | _ => .error .attributeError

end PageTotals

section
variable (extract : TextExtractor)

def extractFullDocument (pages : List String) (docType : String) :
    ModelProg StrategyExtractionResult := do
  let x ← extract (joinPages pages.zipIdx) docType
  return ⟨x.rawOutput,x.inputTokens,x.outputTokens,.full,List.range pages.length,[],none⟩

def extractSmart (u : Unicode) (pages : List String) (docType : String) :
    ModelProg StrategyExtractionResult := do
  let selected := selectPages u pages
  let x ← extract (joinPages selected) docType
  return ⟨x.rawOutput,x.inputTokens,x.outputTokens,.smart,selected.map Prod.snd,[],none⟩

/-- The extraction of one page: its output, or the extraction error it raised. -/
def attemptPage (pageIndex : ℕ) (pageText docType : String) :
    ModelProg (Except ExtractionError Extracted) :=
  tryCatch (Except.ok <$> extract (formatPage pageIndex pageText) docType) fun
    | .extraction e => return .error e
    | e => throw e

def pageStep (docType : String) (t : PageTotals) (page : String × ℕ) : ModelProg PageTotals := do
  if Text.strip page.1 = "" then return t
  match ← attemptPage extract page.2 page.1 docType with
  | .error e => return t.skip page.2 e
  | .ok x => Prog.ofExcept (t.add page.2 x)

def allFailed (t : PageTotals) : Exc :=
  .extraction ⟨"All page-level extraction attempts failed",t.failures,t.inputTokens,t.outputTokens⟩

/-- The pages that some field came from, in order and each once. -/
def sourcePagesOf (pageCount : ℕ) (sources : List (String × List ℕ)) : List ℕ :=
  (List.range pageCount).filter fun n => sources.any fun p => n ∈ p.2

/-- What the page loop's totals come to. -/
def finish (pages : List String) (docType : String) (t : PageTotals) :
    Except Exc StrategyExtractionResult := do
  if t.failures ≠ 0 && t.perPage.isEmpty then throw (allFailed t)
  let m ← Merge.mergeResults t.perPage docType
  return ⟨.obj m.merged,t.inputTokens,t.outputTokens,.pageByPage,
    sourcePagesOf pages.length m.fieldSourcePages,t.warnings,some m.fieldSourcePages⟩

def extractPageByPage (pages : List String) (docType : String) :
    ModelProg StrategyExtractionResult := do
  let t ← pages.zipIdx.foldlM (pageStep extract docType) .init
  Prog.ofExcept (finish pages docType t)

def extractFromPages (u : Unicode) (pages : List String) (docType : String)
    (strategy : ExtractionStrategy) : ModelProg StrategyExtractionResult :=
  match strategy with
  | .full => extractFullDocument extract pages docType
  | .smart => extractSmart extract u pages docType
  | .pageByPage => extractPageByPage extract pages docType

end

end PageStrategyRunner

end StructuredExtractor
