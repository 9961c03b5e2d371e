import StructuredExtractor.Service.Machine

/-! # The document service

The repositories, the intake, the audit recorder and the document service with
its two callers, the request dependency `get_db` and the worker's job.
-/
namespace StructuredExtractor

structure Config where
  processor : DocumentProcessor
  /-- `DocumentService.model`, the extractor's. -/
  model : String
  /-- Whether there is an `arq_pool`. -/
  pool : Bool

structure ExtractResponse where
  extractionId : Uuid
  documentId : Uuid
  docType : String
  status : String
  extractedData : Option Dict
  confidenceMap : List (String × ℕ)
  warnings : List String
  modelUsed : String
  inputTokens : ℕ
  outputTokens : ℕ
  deriving DecidableEq

inductive Answer
  | extract (response : ExtractResponse)
  /-- An `AsyncExtractionResponse`, whose status is always processing. -/
  | async (documentId : Uuid) (jobId : String)
  deriving DecidableEq

namespace Service

def perform (op : ServiceOp) : ServiceProg op.Reply := Prog.perform op

/-- A program's result as a value, its exception included. -/
def attempt {α : Type} (p : ServiceProg α) : ServiceProg (Except Exc α) :=
  tryCatch (Except.ok <$> p) fun e => pure (.error e)

section Repositories

def createDocumentRow (row : Document) : ServiceProg Unit := do
  perform (.addDocument row)
  perform .flush

def setStatus (status : DocumentStatus) : ServiceProg Unit := do
  perform (.assignStatus status)
  perform .flush

def createExtraction (row : Extraction) : ServiceProg Unit := do
  perform (.addExtraction row)
  perform .flush

/-- `create_from_fields`, on the row that it builds. -/
def createFromFields (row : Extraction) : ServiceProg Unit := do
  perform (.addExtraction row)
  perform .flush
  perform (.refreshExtraction row.id)

def createUsage (documentId extractionId : Uuid) (event : LLMUsageEvent) : ServiceProg Unit := do
  let id ← perform .uuid4
  let createdAt ← perform .now
  perform (.addUsage ⟨id,documentId,some extractionId,event.purpose,event.model,event.inputTokens,
    event.outputTokens,createdAt⟩)
  perform .flush

end Repositories

section Intake

structure ParsedPdf where
  pagesText : List String
  pageCount : ℕ
  deriving DecidableEq

/-- `parse_pdf`, on what `pymupdf` makes of the bytes. -/
def parsedPdf (filename : String) : PdfFile → Except Exc ParsedPdf
  | .unreadable => .error (.pdfParse filename)
  | .pages texts =>
    if texts = [] then .error (.pdfParse filename)
    else match texts.mapM id with
      | some pagesText => .ok ⟨pagesText,texts.length⟩
      | none => .error (.pdfParse filename)

def parsePdf (content : Bytes) (filename : String) : ServiceProg ParsedPdf := do
  let file ← perform (.openPdf content)
  Prog.ofExcept (parsedPdf filename file)

structure DocumentIntakeResult where
  document : Document
  pagesText : List String
  deriving DecidableEq

def prepareDocument (content : Bytes) (filename : String) (status : DocumentStatus) :
    ServiceProg DocumentIntakeResult := do
  let documentId ← perform .uuid4
  let pdf ← parsePdf content filename
  let filePath ← perform (.save documentId.str content filename)
  let uploadedAt ← perform .now
  return ⟨⟨documentId,filename,filePath,content.length,pdf.pageCount,status,uploadedAt⟩,pdf.pagesText⟩

def loadDocument : ServiceProg (List String) := do
  let document ← perform .documentAttributes
  let content ← perform (.load document.filePath)
  let pdf ← parsePdf content document.filename
  return pdf.pagesText

/-- A delete that fails is logged and forgotten. -/
def deleteUpload (filePath : StoragePath) : ServiceProg Unit :=
  tryCatch (perform (.delete filePath)) fun _ => pure ()

end Intake

section Audit
variable (c : Config)

/-- The usage of the extraction itself. -/
def extractionUsage (inputTokens outputTokens : ℕ) : LLMUsageEvent :=
  ⟨.extraction,c.model,inputTokens,outputTokens⟩

def addUsageEvents (documentId extractionId : Uuid) (classifierUsageEvents : List LLMUsageEvent)
    (inputTokens outputTokens : ℕ) : ServiceProg Unit := do
  forM classifierUsageEvents (createUsage documentId extractionId)
  createUsage documentId extractionId (extractionUsage c inputTokens outputTokens)

def failedExtraction (id documentId : Uuid) (resolved : ResolvedDocumentInput) (e : ExtractionError)
    (durationMs : ℤ) (createdAt : Time) : Extraction where
  id := id
  documentId := documentId
  docType := resolved.docType
  status := .failed
  extractedData := none
  confidenceMap := none
  warnings := none
  rawToolOutput := none
  strategy := resolved.strategy.value
  sourcePages := none
  modelUsed := c.model
  inputTokens := e.inputTokens
  outputTokens := e.outputTokens
  extractionDurationMs := durationMs
  createdAt := createdAt

def recordFailure (resolved : ResolvedDocumentInput) (startedAt : ℚ) (e : ExtractionError) :
    ServiceProg Unit := do
  let document ← perform .documentAttributes
  let stoppedAt ← perform .monotonic
  let id ← perform .uuid4
  let createdAt ← perform .now
  createExtraction (failedExtraction c id document.id resolved e (durationMs startedAt stoppedAt)
    createdAt)
  let document ← perform .documentAttributes
  addUsageEvents c document.id id resolved.usageEvents e.inputTokens e.outputTokens

def successExtraction (id documentId : Uuid) (r : PipelineResult) (createdAt : Time) : Extraction where
  id := id
  documentId := documentId
  docType := r.docType
  status := r.validation.status
  extractedData := r.validation.extractedData
  confidenceMap := some r.confidenceMap
  warnings := some r.warnings
  rawToolOutput := some r.extraction.auditOutput
  strategy := r.extraction.strategy.value
  sourcePages := some r.extraction.sourcePages
  modelUsed := c.model
  inputTokens := r.extraction.inputTokens
  outputTokens := r.extraction.outputTokens
  extractionDurationMs := r.durationMs
  createdAt := createdAt

def toResponse (extractionId documentId : Uuid) (r : PipelineResult) : ExtractResponse where
  extractionId := extractionId
  documentId := documentId
  docType := r.docType
  status := r.validation.status.value
  extractedData := r.validation.extractedData
  confidenceMap := r.confidenceMap
  warnings := r.warnings
  modelUsed := c.model
  inputTokens := r.extraction.inputTokens
  outputTokens := r.extraction.outputTokens

def recordSuccess (r : DocumentProcessingResult) : ServiceProg ExtractResponse := do
  let document ← perform .documentAttributes
  let id ← perform .uuid4
  let createdAt ← perform .now
  createFromFields (successExtraction c id document.id r.pipeline createdAt)
  let document ← perform .documentAttributes
  addUsageEvents c document.id id r.classifierUsageEvents r.pipeline.extraction.inputTokens
    r.pipeline.extraction.outputTokens
  perform (.refreshExtraction id)
  let document ← perform .documentAttributes
  return toResponse c id document.id r.pipeline

end Audit

section Process
variable (c : Config)

/-- `_document_status_for` -/
def documentStatusFor (r : DocumentProcessingResult) : DocumentStatus :=
  if r.pipeline.validation.status = .failed then .failed else .completed

def recordProcessingSuccess (r : DocumentProcessingResult) : ServiceProg ExtractResponse := do
  setStatus (documentStatusFor r)
  let response ← recordSuccess c r
  perform .commit
  return response

def recordProcessingFailure (resolved : ResolvedDocumentInput) (startedAt : ℚ) (e : ExtractionError) :
    ServiceProg Unit := do
  setStatus .failed
  recordFailure c resolved startedAt e
  perform .commit

/-- What is done with the outcome of the processing: a result is recorded, so is an
extraction error, which is raised then, and every other exception passes. -/
def recordOutcome (startedAt : ℚ) : Except Exc DocumentProcessingResult → ServiceProg ExtractResponse
  | .ok r => recordProcessingSuccess c r
  | .error (.documentProcessing resolved original) => do
    recordProcessingFailure c resolved startedAt original
    throw (.extraction original)
  | .error e => throw e

def processDocumentPages (pages : List String) (docType strategy : Option String) :
    ServiceProg ExtractResponse := do
  let startedAt ← perform .monotonic
  let processing ← attempt do
    let document ← perform .documentAttributes
    perform (.processPages ⟨pages,document.pageCount,docType,strategy⟩)
  recordOutcome c startedAt processing

def setDocumentStatus (status : DocumentStatus) : ServiceProg Unit := do
  setStatus status
  perform .commit

/-- `_create_document` -/
def createDocument (row : Document) : ServiceProg Unit := do
  createDocumentRow row
  perform .commit
  perform .refreshDocument

/-- What both callers of `_create_document` do when it raises. -/
def undoUpload {α : Type} (e : Exc) : ServiceProg α := do
  perform .rollback
  let document ← perform .documentAttributes
  deleteUpload document.filePath
  throw e

/-- `_process_uploaded_inline`. Whether the document was created tells the two
parts of its `try` apart: until then the upload is deleted. -/
def processUploadedInline (content : Bytes) (filename : String) (docType strategy : Option String) :
    ServiceProg ExtractResponse := do
  let intake ← prepareDocument content filename .uploaded
  tryCatch (createDocument intake.document) undoUpload
  perform (.startRun intake.document.id)
  tryCatch
    (do
      setDocumentStatus .processing
      processDocumentPages c intake.pagesText docType strategy)
    fun e => do
      perform .rollback
      throw e

def processExistingInline (documentId : Uuid) (docType strategy : Option String) :
    ServiceProg ExtractResponse := do
  match ← perform (.selectDocument documentId) with
  | none => throw (.documentNotFound documentId)
  | some _ => do
    perform (.startRun documentId)
    setDocumentStatus .processing
    tryCatch
      (do
        let pages ← loadDocument
        processDocumentPages c pages docType strategy)
      fun e => do
        setStatus .failed
        perform .commit
        throw e

end Process

section Entry
variable (c : Config)

def redisFallbackWarning : String := "Redis unavailable, processed inline"

def withFallbackWarning (r : ExtractResponse) : ExtractResponse :=
  { r with warnings := r.warnings ++ [redisFallbackWarning] }

/-- The warning of a request that wanted the queue and ran inline. -/
def inlineAnswer (asyncMode : Bool) (r : ExtractResponse) : Answer :=
  .extract (if asyncMode then withFallbackWarning r else r)

def enqueueExtraction (documentId : Uuid) (docType : Option String)
    (strategy : Option ExtractionStrategy) : ServiceProg String :=
  perform (.enqueueJob documentId.str docType (strategy.map ExtractionStrategy.value))

/-- The asynchronous upload, once the document is there: the queue, or inline. -/
def enqueueOrProcess (intake : DocumentIntakeResult) (docType : Option String)
    (strategy : Option ExtractionStrategy) : ServiceProg Answer :=
  tryCatch
    (do
      let document ← perform .documentAttributes
      let jobId ← enqueueExtraction document.id docType strategy
      let document ← perform .documentAttributes
      return .async document.id jobId)
    fun _ => do
      perform (.startRun intake.document.id)
      let r ← processDocumentPages c intake.pagesText docType (strategy.map ExtractionStrategy.value)
      return inlineAnswer true r

def extractUploadedDocument (content : Bytes) (filename : String) (docType : Option String)
    (strategy : Option ExtractionStrategy) (asyncMode : Bool) : ServiceProg Answer :=
  if !asyncMode || !c.pool then do
    let r ← processUploadedInline c content filename docType (strategy.map ExtractionStrategy.value)
    return inlineAnswer asyncMode r
  else do
    let intake ← prepareDocument content filename .processing
    tryCatch (createDocument intake.document) undoUpload
    enqueueOrProcess c intake docType strategy

def extractExistingDocument (documentId : Uuid) (docType : Option String)
    (strategy : Option ExtractionStrategy) (asyncMode : Bool) : ServiceProg Answer :=
  if asyncMode && c.pool then do
    match ← perform (.selectDocument documentId) with
    | none => throw (.documentNotFound documentId)
    | some _ => do
      let jobId ← enqueueExtraction documentId docType strategy
      return .async documentId jobId
  else do
    let r ← processExistingInline c documentId docType (strategy.map ExtractionStrategy.value)
    return inlineAnswer asyncMode r

/-- The arguments of `extract_document`. -/
structure ExtractRequest where
  content : Option Bytes
  filename : Option String
  documentId : Option Uuid
  docType : Option String
  strategy : Option ExtractionStrategy
  asyncMode : Bool
  deriving DecidableEq

def extractDocument (r : ExtractRequest) : ServiceProg Answer :=
  match r.content, r.filename, r.documentId with
  | some content, some filename, none =>
    extractUploadedDocument c content filename r.docType r.strategy r.asyncMode
  | some _, some _, some _ => throw (.invalidUpload "Provide either a PDF file or document_id, but not both")
  | _, _, some documentId => extractExistingDocument c documentId r.docType r.strategy r.asyncMode
  | _, _, none => throw (.invalidUpload "Provide either a PDF file or document_id, but not both")

/-- The session dependency `get_db` around a request. The response is sent before the
session is committed, so a commit that fails is rolled back and the answer stays. -/
def getDb {α : Type} (p : ServiceProg α) : ServiceProg α := p.scope (perform .commit) (perform .rollback)

/-- `extraction_job`: the worker has no pool, and closing its session drops what
was not committed. -/
def extractionJob (job : Job) : ServiceProg ExtractResponse :=
  processExistingInline { c with pool := false } job.documentId.uuid job.docType job.strategy

end Entry

end Service

end StructuredExtractor
