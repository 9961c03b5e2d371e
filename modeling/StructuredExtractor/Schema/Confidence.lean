import StructuredExtractor.Schema.Documents

/-! # Confidence scores

Scores are given in hundredths: 85 is the 0.85 of the source.
-/
namespace StructuredExtractor.Confidence

def placeholderValues : List String := ["n/a","unknown","not stated"]
def moneyFieldMarkers : List String := ["amount","pay","price","subtotal","total"]

section
variable (u : Unicode)

def isPlaceholder : Json → Bool
  | .str s => placeholderValues.contains (u.lower (Text.strip s))
  | _ => false

/-- The sign of a number, or of the text of one; a NaN compares with an
`InvalidOperation`, which counts as not negative. -/
def isNegative : Json → Bool
  | .int n => n < 0
  | .float (.finite negative digits _) => negative && digits ≠ 0
  | .float (.inf negative) => negative
  | .str s => match Decimal.ofText u s with
    | some (.finite d) => d.isNegative
    | some (.infinite negative) => negative
    | _ => false
  | _ => false

def isSuspiciousAmount (fieldName : String) (value : Json) : Bool :=
  moneyFieldMarkers.any (Text.contains · fieldName) && isNegative u value

def scoreField (fieldName : String) (value : Json) (required : Bool) : ℕ :=
  if value = .null then 0
  else if isPlaceholder u value then 20
  else
    let score := if required then 85 else 70
    if isSuspiciousAmount u fieldName value then min score 60 else score

/-- `score_confidence_map`: one score per schema field. Without data, and for a
key that the data lacks, the value is `None`. -/
def scoreConfidenceMap (docType : String) (extractedData : Option Dict) :
    Except Exc (List (String × ℕ)) := do
  let s ← SchemaRegistry.getSchema docType
  let data := extractedData.getD []
  return s.fields.map fun f =>
    (f.name,scoreField u f.name ((data.lookup f.name).getD .null) f.required)

end

end StructuredExtractor.Confidence
