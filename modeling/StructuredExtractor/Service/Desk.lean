import StructuredExtractor.Library.Surroundings
import StructuredExtractor.Library.UnitOfWork
import StructuredExtractor.Service.Corrections
import StructuredExtractor.Service.Keys

/-! # Reads and corrections

The requests that look documents and extractions up and the one that corrects an
extraction. Each works in a session of its own, any of whose calls may fail, beside the
runs of the service: it reads their database and adds to the table of corrections.
-/
namespace StructuredExtractor

def DocumentStatus.value : DocumentStatus → String
  | .uploaded => "uploaded"
  | .processing => "processing"
  | .completed => "completed"
  | .failed => "failed"

structure DocumentResponse where
  id : Uuid
  filename : String
  status : String
  pageCount : ℕ
  fileSizeBytes : ℕ
  uploadedAt : Time
  extractionIds : List Uuid
  deriving DecidableEq

structure ExtractionResponse where
  extractionId : Uuid
  documentId : Uuid
  docType : String
  status : String
  extractedData : Option Dict
  confidenceMap : List (String × ℕ)
  warnings : List String
  modelUsed : String
  inputTokens : ℕ
  outputTokens : ℕ
  extractionDurationMs : ℤ
  deriving DecidableEq

structure ExtractionAuditResponse extends ExtractionResponse where
  rawToolOutput : Option Json
  strategy : String
  sourcePages : Option (List ℕ)
  deriving DecidableEq

structure CorrectionResponse where
  correctionId : Uuid
  extractionId : Uuid
  originalData : Option Dict
  correctedData : Dict
  correctionDiff : CorrectionDiff
  warnings : List String
  correctedBy : Option String
  note : Option String
  createdAt : Time
  deriving DecidableEq

/-- The response of `get_document`. -/
def toDocumentResponse (document : Document) (extractions : List Extraction) : DocumentResponse where
  id := document.id
  filename := document.filename
  status := document.status.value
  pageCount := document.pageCount
  fileSizeBytes := document.fileSizeBytes
  uploadedAt := document.uploadedAt
  extractionIds := extractions.map Extraction.id

/-- `_to_extraction_response`, on scores that are numbers. -/
def toExtractionResponse (extraction : Extraction) : ExtractionResponse where
  extractionId := extraction.id
  documentId := extraction.documentId
  docType := extraction.docType
  status := extraction.status.value
  extractedData := extraction.extractedData
  confidenceMap := extraction.confidenceMap.getD []
  warnings := extraction.warnings.getD []
  modelUsed := extraction.modelUsed
  inputTokens := extraction.inputTokens
  outputTokens := extraction.outputTokens
  extractionDurationMs := extraction.extractionDurationMs

/-- `_to_extraction_audit_response` -/
def toExtractionAuditResponse (extraction : Extraction) : ExtractionAuditResponse where
  toExtractionResponse := StructuredExtractor.toExtractionResponse extraction
  rawToolOutput := extraction.rawToolOutput
  strategy := extraction.strategy
  sourcePages := extraction.sourcePages

/-- The response of `CorrectionService.correct`. -/
def toCorrectionResponse (correction : ExtractionCorrection) : CorrectionResponse where
  correctionId := correction.id
  extractionId := correction.extractionId
  originalData := correction.originalData
  correctedData := correction.correctedData
  correctionDiff := correction.correctionDiff
  warnings := correction.warnings
  correctedBy := correction.correctedBy
  note := correction.note
  createdAt := correction.createdAt

inductive DeskExc
  | extractionNotFound (extractionId : Uuid)
  | correctionValidation (warnings : List String)
  | raised (e : Exc)
  deriving DecidableEq

/-- The order of the rows of a select that asks for none. -/
structure RowOrder where
  arrange : List Extraction → List Extraction
  perm : ∀ xs, (arrange xs).Perm xs

/-- What the outside does in one request. -/
structure DeskEnv where
  calls : Stream' (Option Exc)
  now : Stream' Time
  order : Stream' RowOrder

/-- The state of one request. The ids that it draws are ids of corrections. -/
structure DeskLocal where
  run : ℕ
  drawn : ℕ
  work : UnitOfWork ExtractionCorrection Exc
  now : Stream' Time
  order : Stream' RowOrder

def DeskLocal.start (run : ℕ) (env : DeskEnv) : DeskLocal := ⟨run,0,.new env.calls,env.now,env.order⟩

/-- What the requests share: the service beside them, and the table of corrections. -/
structure Site where
  service : ServicePool
  corrections : List ExtractionCorrection

/-- The durable database of the service. -/
def Site.db (s : Site) : Database := s.service.shared.db

inductive DeskOp
  | selectDocument (id : Uuid)
  /-- The second select of `selectinload`. -/
  | selectExtractionsOf (documentId : Uuid)
  | selectExtraction (id : Uuid)
  | addCorrection (row : ExtractionCorrection)
  | flush
  | commit
  | rollback
  /-- The attributes of the object are loaded again. -/
  | refreshCorrection (id : Uuid)
  | uuid4
  | now

def DeskOp.Reply : DeskOp → Type
  | .selectDocument _ => Option Document
  | .selectExtractionsOf _ => List Extraction
  | .selectExtraction _ => Option Extraction
  | .refreshCorrection _ => ExtractionCorrection
  | .uuid4 => Uuid
  | .now => Time
  | _ => Unit

abbrev DeskProg (α : Type) := Prog DeskOp.Reply DeskExc α

namespace DeskMachine

/-- A select, on what the session sees after its autoflush. -/
def query {α : Type} (l : DeskLocal) (s : Site) (answer : UnitOfWork ExtractionCorrection Exc → Except DeskExc α) :
    Except DeskExc α × DeskLocal × Site :=
  match l.work.call .pendingRollback with
  | (.error e,work) => (.error (.raised e),{ l with work },s)
  | (.ok (),work) => (answer work,{ l with work },s)

def refreshed (id : Uuid) (s : Site) (work : UnitOfWork ExtractionCorrection Exc) :
    Except DeskExc ExtractionCorrection :=
  match (s.corrections ++ work.flushed).find? fun row => row.id = id with
  | none => .error (.raised .invalidRequest)
  | some row => .ok row

def commit (l : DeskLocal) (s : Site) : Except DeskExc Unit × DeskLocal × Site :=
  match l.work.commit .pendingRollback with
  | (.error e,work) => (.error (.raised e),{ l with work },s)
  | (.ok rows,work) => (.ok (),{ l with work },{ s with corrections := s.corrections ++ rows })

def flush (l : DeskLocal) (s : Site) : Except DeskExc Unit × DeskLocal × Site :=
  ((l.work.flush .pendingRollback).1.mapError .raised,{ l with work := (l.work.flush .pendingRollback).2 },s)

def handler : Handler DeskOp.Reply DeskExc (DeskLocal × Site)
  | .selectDocument id, (l,s) => query l s fun _ => .ok (s.db.documents id)
  | .selectExtractionsOf documentId, (l,s) =>
    query { l with order := l.order.tail } s fun _ =>
      .ok (l.order.head.arrange (s.db.extractions.filter fun x => x.documentId = documentId))
  | .selectExtraction id, (l,s) => query l s fun _ => .ok (s.db.extractions.find? fun x => x.id = id)
  | .addCorrection row, (l,s) => (.ok (),{ l with work := l.work.add row },s)
  | .flush, (l,s) => flush l s
  | .commit, (l,s) => commit l s
  | .rollback, (l,s) => (.ok (),{ l with work := l.work.rollback },s)
  | .refreshCorrection id, (l,s) => query l s (refreshed id s)
  | .uuid4, (l,s) => (.ok (.drawn l.run l.drawn),{ l with drawn := l.drawn + 1 },s)
  | .now, (l,s) => (.ok l.now.head,{ l with now := l.now.tail },s)

end DeskMachine

namespace Desk

def perform (op : DeskOp) : DeskProg op.Reply := Prog.perform op

def getDocument (documentId : Uuid) : DeskProg DocumentResponse := do
  match ← perform (.selectDocument documentId) with
  | none => throw (.raised (.documentNotFound documentId))
  | some document => do
    let extractions ← perform (.selectExtractionsOf documentId)
    return toDocumentResponse document extractions

def requireExtraction (extractionId : Uuid) : DeskProg Extraction := do
  match ← perform (.selectExtraction extractionId) with
  | none => throw (.extractionNotFound extractionId)
  | some extraction => return extraction

def getExtraction (extractionId : Uuid) : DeskProg ExtractionResponse := do
  let extraction ← requireExtraction extractionId
  return toExtractionResponse extraction

def getExtractionAudit (extractionId : Uuid) : DeskProg ExtractionAuditResponse := do
  let extraction ← requireExtraction extractionId
  return toExtractionAuditResponse extraction

/-- `CorrectionRepository.create`, on the row that it builds. -/
def createCorrection (row : ExtractionCorrection) : DeskProg ExtractionCorrection := do
  perform (.addCorrection row)
  perform .flush
  perform (.refreshCorrection row.id)

/-- The row of a correction with data. -/
def correctionRow (extraction : Extraction) (request : CorrectionRequest) (validation : ValidationResult)
    (correctedData : Dict) (id : Uuid) (createdAt : Time) : ExtractionCorrection where
  id := id
  extractionId := extraction.id
  originalData := extraction.extractedData
  correctedData := correctedData
  correctionDiff := diffExtractionData (extraction.extractedData.getD []) correctedData
  warnings := validation.warnings
  correctedBy := request.correctedBy
  note := request.note
  createdAt := createdAt

section
variable (lib : Libraries)

def validated (extraction : Extraction) (request : CorrectionRequest) : Except DeskExc ValidationResult :=
  (Validation.validateExtraction lib.pydantic lib.unicode extraction.docType
    (.obj request.correctedData)).mapError .raised

/-- `CorrectionService.create` -/
def create (extraction : Extraction) (request : CorrectionRequest) : DeskProg ExtractionCorrection := do
  let validation ← Prog.ofExcept (validated lib extraction request)
  match validation.extractedData with
  | none => throw (.correctionValidation validation.warnings)
  | some correctedData => do
    let id ← perform .uuid4
    let createdAt ← perform .now
    let _ ← createCorrection (correctionRow extraction request validation correctedData id createdAt)
    perform .commit
    perform (.refreshCorrection id)

def correctExtraction (extractionId : Uuid) (request : CorrectionRequest) : DeskProg CorrectionResponse := do
  let extraction ← requireExtraction extractionId
  let correction ← create lib extraction request
  return toCorrectionResponse correction

/-- The session dependency `get_db` around a request. The response is sent before the
session is committed, so a commit that fails is rolled back and the answer stays. -/
def getDb {α : Type} (p : DeskProg α) : DeskProg α := p.scope (perform .commit) (perform .rollback)

end

end Desk

inductive DeskRequest
  | getDocument (documentId : Uuid)
  | getExtraction (extractionId : Uuid)
  | getExtractionAudit (extractionId : Uuid)
  | correctExtraction (extractionId : Uuid) (request : CorrectionRequest)

inductive DeskAnswer
  | document (response : DocumentResponse)
  | extraction (response : ExtractionResponse)
  | audit (response : ExtractionAuditResponse)
  | correction (response : CorrectionResponse)
  deriving DecidableEq

/-- The program of a request. -/
def DeskRequest.program (lib : Libraries) : DeskRequest → DeskProg DeskAnswer
  | .getDocument documentId => Desk.getDb (DeskAnswer.document <$> Desk.getDocument documentId)
  | .getExtraction extractionId => Desk.getDb (DeskAnswer.extraction <$> Desk.getExtraction extractionId)
  | .getExtractionAudit extractionId => Desk.getDb (DeskAnswer.audit <$> Desk.getExtractionAudit extractionId)
  | .correctExtraction extractionId request =>
    Desk.getDb (DeskAnswer.correction <$> Desk.correctExtraction lib extractionId request)

/-- What a request is started with, and what was shared then. -/
structure DeskLabel where
  request : DeskRequest
  env : DeskEnv
  arrived : Site

abbrev DeskThread := Thread DeskOp.Reply DeskExc DeskAnswer DeskLocal DeskLabel
abbrev DeskPool := Pool DeskOp.Reply DeskExc DeskAnswer DeskLocal DeskLabel Site

/-- Request `i`, before its first step. -/
def deskThread (c : Config) (i : ℕ) (r : DeskRequest) (env : DeskEnv) (s : Site) : DeskThread :=
  ⟨⟨r,env,s⟩,r.program c.processor.libraries,.start i env⟩

/-- A request comes in. -/
inductive Asks (c : Config) (p : DeskPool) : DeskThread → Site → Prop
  | request {r : DeskRequest} {env : DeskEnv} :
      Asks c p (deskThread c p.threads.length r env p.shared) p.shared

/-- The service takes a step, whatever fails in it. -/
inductive Serves (c : Config) (s : Site) : Site → Prop
  | step {service : ServicePool} (h : Pool.Step (Machine.handler c.processor) (Arrives c) s.service service) :
      Serves c s { s with service }

/-- The requests and the service side by side. -/
abbrev SiteMoves (c : Config) : DeskPool → DeskPool → Prop :=
  Pool.Moves DeskMachine.handler (Asks c) (Serves c)

/-- What they lead to from a database with corrections. -/
abbrev SiteReachable (c : Config) (w₀ : World) (corrections : List ExtractionCorrection) : DeskPool → Prop :=
  Pool.Within DeskMachine.handler (Asks c) (Serves c) ⟨⟨[],w₀⟩,corrections⟩

end StructuredExtractor
