import StructuredExtractor.Data.Equality
import StructuredExtractor.Schema.Validation
import StructuredExtractor.Service.Database
import Mathlib.Data.List.Sort

/-! # Corrections of an extraction

A correction is validated like an extraction, compared with what was extracted, and
stored beside it.
-/
namespace StructuredExtractor

/-- What changed in a field. -/
structure ChangedField where
  from_ : Json
  to_ : Json
  deriving DecidableEq

/-- The fields that were added, removed and changed. -/
structure CorrectionDiff where
  added : Dict
  removed : Dict
  changed : List (String × ChangedField)
  deriving DecidableEq

namespace CorrectionDiff

def empty : CorrectionDiff := ⟨[],[],[]⟩

/-- One field, in front of the others. -/
def field (original corrected : Dict) (name : String) (diff : CorrectionDiff) : CorrectionDiff :=
  match original.lookup name, corrected.lookup name with
  | none, v => { diff with added := (name,v.getD .null) :: diff.added }
  | some v, none => { diff with removed := (name,v) :: diff.removed }
  | some v, some w =>
    if v.pyEq w then diff else { diff with changed := (name,⟨v,w⟩) :: diff.changed }

end CorrectionDiff

/-- The keys of both, each once and sorted. -/
def unionKeys (original corrected : Dict) : List String :=
  ((original.map Prod.fst ++ corrected.map Prod.fst).dedup).insertionSort (· ≤ ·)

def diffExtractionData (original corrected : Dict) : CorrectionDiff :=
  (unionKeys original corrected).foldr (CorrectionDiff.field original corrected) .empty

structure CorrectionRequest where
  correctedData : Dict
  correctedBy : Option String
  note : Option String

structure ExtractionCorrection where
  id : Uuid
  extractionId : Uuid
  originalData : Option Dict
  correctedData : Dict
  correctionDiff : CorrectionDiff
  warnings : List String
  correctedBy : Option String
  note : Option String
  createdAt : Time
  deriving DecidableEq

/-- `CorrectionValidationError`, or what validation raises. -/
inductive CorrectionExc
  | correctionValidation (warnings : List String)
  | raised (e : Exc)
  deriving DecidableEq

namespace CorrectionService
variable (P : Pydantic) (u : Unicode)

/-- `create`, when every database operation succeeds: the row and the table with it.
The id and the time are the ones that the row's defaults draw. -/
def create (extraction : Extraction) (request : CorrectionRequest) (id : Uuid) (createdAt : Time)
    (table : List ExtractionCorrection) :
    Except CorrectionExc (ExtractionCorrection × List ExtractionCorrection) := do
  let validation ← (Validation.validateExtraction P u extraction.docType
    (.obj request.correctedData)).mapError .raised
  match validation.extractedData with
  | none => .error (.correctionValidation validation.warnings)
  | some correctedData =>
    let originalData := extraction.extractedData.getD []
    let correction := {
      id, createdAt
      extractionId := extraction.id
      originalData := extraction.extractedData
      correctedData
      correctionDiff := diffExtractionData originalData correctedData
      warnings := validation.warnings
      correctedBy := request.correctedBy
      note := request.note }
    return (correction,table ++ [correction])

variable {P u}

/-- A correction without data is rejected with the warnings of its validation. -/
theorem create_rejected {extraction : Extraction} {request : CorrectionRequest} {id : Uuid} {createdAt : Time}
    {table : List ExtractionCorrection} {r : ValidationResult}
    (hr : Validation.validateExtraction P u extraction.docType (.obj request.correctedData) = .ok r)
    (hdata : r.extractedData = none) :
    create P u extraction request id createdAt table = .error (.correctionValidation r.warnings) := by
  simp only [create,hr,Except.mapError,bind,Except.bind,hdata]

/-- A correction with data is stored with it, and with its difference to what was extracted. -/
theorem create_accepted {extraction : Extraction} {request : CorrectionRequest} {r : ValidationResult} {data : Dict}
    (hr : Validation.validateExtraction P u extraction.docType (.obj request.correctedData) = .ok r)
    (hdata : r.extractedData = some data) (id : Uuid) (createdAt : Time) (table : List ExtractionCorrection) :
    ∃ correction, create P u extraction request id createdAt table = .ok (correction,table ++ [correction]) ∧
      correction.correctedData = data ∧
      correction.correctionDiff = diffExtractionData (extraction.extractedData.getD []) data := by
  refine ⟨⟨id,extraction.id,extraction.extractedData,data,diffExtractionData (extraction.extractedData.getD []) data,
    r.warnings,request.correctedBy,request.note,createdAt⟩,?_,rfl,rfl⟩
  simp only [create,hr,Except.mapError,bind,Except.bind,hdata]
  rfl

end CorrectionService

end StructuredExtractor
