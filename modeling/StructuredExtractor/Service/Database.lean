import StructuredExtractor.Core.Types
import StructuredExtractor.Data.Json
import Mathlib.Logic.Function.Basic

/-! # Tables, changes and the usage ledger's migration

The database holds documents by primary key and the rows of the two tables that
are only ever added to. A transaction is a list of changes that become durable
together.
-/
namespace StructuredExtractor

abbrev Bytes := List UInt8

/-- A `datetime`, in microseconds. -/
abbrev Time := ℤ

/-- The relative path `file_id/filename` of a stored file. -/
structure StoragePath where
  fileId : UuidText
  name : String
  deriving DecidableEq, Repr

structure Document where
  id : Uuid
  filename : String
  filePath : StoragePath
  fileSizeBytes : ℕ
  pageCount : ℕ
  status : DocumentStatus
  uploadedAt : Time
  deriving DecidableEq, Repr

structure Extraction where
  id : Uuid
  documentId : Uuid
  docType : String
  status : ExtractionStatus
  extractedData : Option Dict
  confidenceMap : Option (List (String × ℕ))
  warnings : Option (List String)
  rawToolOutput : Option Json
  strategy : String
  sourcePages : Option (List ℕ)
  modelUsed : String
  inputTokens : ℕ
  outputTokens : ℕ
  extractionDurationMs : ℤ
  createdAt : Time
  deriving DecidableEq

structure LLMUsage where
  id : Uuid
  documentId : Uuid
  extractionId : Option Uuid
  purpose : LLMUsagePurpose
  model : String
  inputTokens : ℕ
  outputTokens : ℕ
  createdAt : Time
  deriving DecidableEq, Repr

structure Database where
  documents : Uuid → Option Document
  extractions : List Extraction
  llmUsages : List LLMUsage
  /-- A document is found under its primary key. -/
  keyed : ∀ {id row}, documents id = some row → row.id = id

/-- One row written. -/
inductive Change
  | insertDocument (row : Document)
  | updateStatus (id : Uuid) (status : DocumentStatus)
  | insertExtraction (row : Extraction)
  | insertUsage (row : LLMUsage)
  deriving DecidableEq

namespace Change

/-- The extraction that a change adds, if it adds one. -/
def extraction? : Change → Option Extraction
  | insertExtraction row => some row
  | _ => none

def usage? : Change → Option LLMUsage
  | insertUsage row => some row
  | _ => none

end Change

namespace Database

def empty : Database := ⟨fun _ => none,[],[],fun h => by cases h⟩

def insertDocument (db : Database) (row : Document) : Database := { db with
  documents := Function.update db.documents row.id (some row)
  keyed := by
    intro id row' h
    by_cases hid : id = row.id
    · subst hid
      rw [Function.update_self,Option.some.injEq] at h
      rw [← h]
    · rw [Function.update_of_ne hid] at h
      exact db.keyed h }

def updateStatus (db : Database) (id : Uuid) (status : DocumentStatus) : Database := { db with
  documents := Function.update db.documents id ((db.documents id).map fun row => { row with status })
  keyed := by
    intro id' row' h
    by_cases hid : id' = id
    · subst hid
      rw [Function.update_self] at h
      obtain ⟨row,hrow,rfl⟩ := Option.map_eq_some_iff.mp h
      exact show row.id = id' from db.keyed hrow
    · rw [Function.update_of_ne hid] at h
      exact db.keyed h }

def apply (db : Database) : Change → Database
  | .insertDocument row => db.insertDocument row
  | .updateStatus id status => db.updateStatus id status
  | .insertExtraction row => { db with extractions := db.extractions ++ [row] }
  | .insertUsage row => { db with llmUsages := db.llmUsages ++ [row] }

def applyAll (db : Database) (changes : List Change) : Database := changes.foldl apply db

def status? (db : Database) (id : Uuid) : Option DocumentStatus := (db.documents id).map Document.status

theorem applyAll_append (db : Database) (cs ds : List Change) :
    db.applyAll (cs ++ ds) = (db.applyAll cs).applyAll ds := List.foldl_append

/-- No change takes a document away. -/
theorem documents_apply {db : Database} {id : Uuid} (h : (db.documents id).isSome) (c : Change) :
    ((db.apply c).documents id).isSome := by
  cases c with
  | insertDocument row =>
    by_cases hid : id = row.id
    · subst hid; simp [apply,insertDocument]
    · simpa [apply,insertDocument,Function.update_of_ne hid] using h
  | updateStatus id' status =>
    by_cases hid : id = id'
    · subst hid; simpa [apply,updateStatus] using h
    · simpa [apply,updateStatus,Function.update_of_ne hid] using h
  | _ => exact h

theorem documents_applyAll {db : Database} {id : Uuid} (h : (db.documents id).isSome)
    (cs : List Change) : ((db.applyAll cs).documents id).isSome := by
  induction cs generalizing db with
  | nil => exact h
  | cons c cs ih => exact ih (documents_apply h c)

@[simp] theorem extractions_applyAll (db : Database) (cs : List Change) :
    (db.applyAll cs).extractions = db.extractions ++ cs.filterMap Change.extraction? := by
  induction cs generalizing db with
  | nil => simp [applyAll]
  | cons c cs ih =>
    rw [applyAll,List.foldl_cons,← applyAll,ih]
    cases c <;> simp [apply,insertDocument,updateStatus,Change.extraction?,List.filterMap_cons]

@[simp] theorem llmUsages_applyAll (db : Database) (cs : List Change) :
    (db.applyAll cs).llmUsages = db.llmUsages ++ cs.filterMap Change.usage? := by
  induction cs generalizing db with
  | nil => simp [applyAll]
  | cons c cs ih =>
    rw [applyAll,List.foldl_cons,← applyAll,ih]
    cases c <;> simp [apply,insertDocument,updateStatus,Change.usage?,List.filterMap_cons]

/-- The usage row that the migration adds for an old extraction. -/
def backfilled (newId : ℕ → Uuid) (p : Extraction × ℕ) : LLMUsage where
  id := newId p.2
  documentId := p.1.documentId
  extractionId := some p.1.id
  purpose := .extraction
  model := p.1.modelUsed
  inputTokens := p.1.inputTokens
  outputTokens := p.1.outputTokens
  createdAt := p.1.createdAt

/-- `_backfill_extraction_usage`: one usage row for every old extraction, under
new ids. -/
def backfill (newId : ℕ → Uuid) (db : Database) : Database where
  documents := db.documents
  keyed := db.keyed
  extractions := db.extractions
  llmUsages := db.extractions.zipIdx.map (backfilled newId)

end Database

end StructuredExtractor
