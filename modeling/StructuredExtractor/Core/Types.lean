import StructuredExtractor.Data.Decimal

/-! # Statuses, strategies and exceptions

The enumerations of the database models and requests, the identifiers, and the
exceptions that travel between the layers.
-/
namespace StructuredExtractor

/-- A UUID. One either existed before the modelled runs or is the `draw`-th that
a run drew: `uuid4` never gives the same value twice. -/
inductive Uuid
  | old (n : ℕ)
  | drawn (run draw : ℕ)
  deriving DecidableEq, Repr

/-- The text of a UUID. `str(id)` and `UUID(text)` undo each other. -/
structure UuidText where
  uuid : Uuid
  deriving DecidableEq, Repr

def Uuid.str (id : Uuid) : UuidText := ⟨id⟩

inductive DocumentStatus
  | uploaded
  | processing
  | completed
  | failed
  deriving DecidableEq, Repr

inductive ExtractionStatus
  | pending
  | processing
  | partial_
  | completed
  | failed
  deriving DecidableEq, Repr

def ExtractionStatus.value : ExtractionStatus → String
  | .pending => "pending"
  | .processing => "processing"
  | .partial_ => "partial"
  | .completed => "completed"
  | .failed => "failed"

inductive LLMUsagePurpose
  | classifier
  | extraction
  deriving DecidableEq, Repr

inductive ExtractionStrategy
  | full
  | pageByPage
  | smart
  deriving DecidableEq, Repr

def ExtractionStrategy.value : ExtractionStrategy → String
  | .full => "full"
  | .pageByPage => "page_by_page"
  | .smart => "smart"

structure LLMUsageEvent where
  purpose : LLMUsagePurpose
  model : String
  inputTokens : ℕ
  outputTokens : ℕ
  deriving DecidableEq, Repr

structure ExtractionError where
  message : String
  attempts : ℕ
  inputTokens : ℕ
  outputTokens : ℕ
  deriving DecidableEq, Repr

structure ResolvedDocumentInput where
  docType : String
  strategy : ExtractionStrategy
  usageEvents : List LLMUsageEvent
  deriving DecidableEq, Repr

/-- Every exception that the modelled code raises, catches by type or passes on.
`other` stands for the ones it only passes on. -/
inductive Exc
  | extraction (error : ExtractionError)
  | documentProcessing (resolved : ResolvedDocumentInput) (original : ExtractionError)
  | classification (message : String)
  | unsupportedDocumentType (documentType : String)
  | pdfParse (filename : String)
  | documentNotFound (documentId : Uuid)
  | invalidUpload (message : String)
  | llmClient (message : String)
  | pydanticValidation
  | decimalSignal (signal : DecimalSignal)
  | keyError
  | valueError
  | typeError
  | attributeError
  | indexError
  | recursionError
  /-- The session refuses work until `rollback`. -/
  | pendingRollback
  /-- An expired attribute was read outside the greenlet of the async session. -/
  | missingGreenlet
  /-- `refresh` found no row. -/
  | invalidRequest
  | other (name : String)
  deriving DecidableEq, Repr

/-- `ExtractionStrategy(value)`. Its members are strings, so one converts itself. -/
def ExtractionStrategy.ofValue (value : String) : Except Exc ExtractionStrategy :=
  if value = "full" then .ok .full
  else if value = "page_by_page" then .ok .pageByPage
  else if value = "smart" then .ok .smart
  else .error .valueError

@[simp] theorem ExtractionStrategy.ofValue_value (s : ExtractionStrategy) :
    ofValue s.value = .ok s := by
  cases s <;> decide

end StructuredExtractor
