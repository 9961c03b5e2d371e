import StructuredExtractor.Schema.Documents

/-! # Validation of an extracted object and partial recovery

A raw output either validates as a whole, or its valid fields are recovered one
by one. Both ends add the quality warnings, whose decimal arithmetic can raise.
-/
namespace StructuredExtractor

structure ValidationResult where
  extractedData : Option Dict
  warnings : List String
  status : ExtractionStatus
  deriving DecidableEq

namespace Json

/-- Python's `name in raw`. -/
def hasMember (raw : Json) (name : String) : Except Exc Bool :=
  match raw with
  | .obj d => .ok (d.lookup name).isSome
  | .arr items => .ok (decide (.str name ∈ items))
  | .str s => .ok (Text.contains name s)
  | _ => .error .typeError

/-- Python's `raw[name]`. -/
def getItem (raw : Json) (name : String) : Except Exc Json :=
  match raw with
  | .obj d => match d.lookup name with
    | some v => .ok v
    | none => .error .keyError
  | _ => .error .typeError

end Json

namespace Validation

/-- `normalize_money`: to the cent. -/
def normalizeMoney (d : Decimal) : Except Exc Decimal :=
  (d.quantize (-2)).mapError .decimalSignal

def addMoney (a b : Decimal) : Except Exc Decimal := (a.add b).mapError .decimalSignal
def subMoney (a b : Decimal) : Except Exc Decimal := (a.sub b).mapError .decimalSignal

/-- `total` against `subtotal` plus `tax_amount`, when all three are there. -/
def totalWarnings (r : Record) (message : String) : Except Exc (List String) :=
  match r.decimal? "subtotal", r.decimal? "tax_amount", r.decimal? "total_amount" with
  | some subtotal, some tax, some total => do
    let expectedTotal ← normalizeMoney (← addMoney subtotal tax)
    if (← normalizeMoney total).numEq expectedTotal then return [] else return [message]
  | _, _, _ => .ok []

def invoiceWarnings (r : Record) : Except Exc (List String) :=
  totalWarnings r ("total_amount: does not equal subtotal plus tax_amount; " ++
    "document may include discounts, shipping, credits, or rounding")

def receiptWarnings (r : Record) : Except Exc (List String) :=
  totalWarnings r ("total_amount: does not equal subtotal plus tax_amount; " ++
    "receipt may include discounts, fees, credits, or rounding")

/-- The amounts of the deductions that a payslip holds. -/
def deductionAmount : Value → Except Exc Decimal
  | .model fields => match Record.decimal? fields "amount" with
    | some d => .ok d
    | none => .error .attributeError
  | _ => .error .attributeError

def payslipWarnings (r : Record) : Except Exc (List String) :=
  match r.decimal? "gross_pay", r.decimal? "net_pay", r.list? "deductions" with
  | some gross, some net, some deductions => do
    let totalDeductions ← deductions.foldlM
      (fun total d => do addMoney total (← deductionAmount d)) ⟨false,0,0⟩
    let expectedNetPay ← normalizeMoney (← subMoney gross totalDeductions)
    if (← normalizeMoney net).numEq expectedNetPay then return []
    else return ["net_pay: does not equal gross_pay minus visible deductions; " ++
      "document may omit deductions or include adjustments"]
  | _, _, _ => .ok []

def qualityWarnings (s : Schema) (r : Record) : Except Exc (List String) :=
  match s.cls with
  | .invoice => invoiceWarnings r
  | .payslip => payslipWarnings r
  | .receipt => receiptWarnings r
  | .contract => .ok []

def invalidFields (errors : List ErrorDetails) : List String :=
  errors.filterMap fun e => match e.loc with
    | .key name :: _ => some name
    | _ => none

/-- `_field_name`: where a warning says that an error is. -/
def fieldName : List Loc → String
  | [] => "model"
  | .key name :: _ => name
  | .index n :: _ => toString n

/-- The warnings for required fields that are absent and not reported yet. -/
def missingWarnings (raw : Json) (reported : List String) :
    List FieldInfo → Except Exc (List String)
  | [] => .ok []
  | f :: fs => do
    let present ← raw.hasMember f.name
    let rest ← missingWarnings raw reported fs
    if present || reported.contains f.name || !f.required then return rest
    else return (f.name ++ ": required field missing") :: rest

def warnings (s : Schema) (raw : Json) (errors : List ErrorDetails) : Except Exc (List String) := do
  let reported := errors.map fun e => fieldName e.loc
  let missing ← missingWarnings raw reported s.fields
  return errors.map (fun e => fieldName e.loc ++ ": " ++ e.msg) ++ missing

/-- `_fallback_raw_value`: a raw value of the field's type. -/
def fallbackRawValue (f : FieldInfo) : Json :=
  if !f.required then .null
  else match f.annotation with
    | .leaf l => match l.scalar with
      | .str => .str ""
      | .int => .int 0
      | .decimal => .str "0"
      | .date => .str "1970-01-01"
    | .list _ => .arr []

/-- `_candidate_with_field_value` on nothing, with one field then set. -/
def candidate (s : Schema) (name : String) (v : Json) : Dict :=
  s.fields.map fun f => (f.name,if f.name = name then v else fallbackRawValue f)

section
variable (P : Pydantic) (u : Unicode)

/-- `_validated_field_value`. When the fallback values of the other fields do not
validate, the value is converted by its annotation alone. -/
def validatedFieldValue (s : Schema) (f : FieldInfo) (v : Json) : Except Exc Value :=
  match s.modelValidate P u (.obj (candidate s f.name v)) with
  | .ok r => match r.lookup f.name with
    | some x => .ok x
    | none => .error .attributeError
  | .error _ => (P.annotation f.annotation v).mapError fun _ => .pydanticValidation

/-- The loop of `_recover_partial`: the values by field and how many are valid.
The missing value of a field is `None`, whether it is required or not. -/
def recoverFields (s : Schema) (raw : Json) (invalid : List String) :
    List FieldInfo → Except Exc (Record × ℕ)
  | [] => .ok ([],0)
  | f :: fs => do
    if !(← raw.hasMember f.name) || invalid.contains f.name then
      let (r,n) ← recoverFields s raw invalid fs
      return ((f.name,.none) :: r,n)
    else
      let x ← validatedFieldValue P u s f (← raw.getItem f.name)
      let (r,n) ← recoverFields s raw invalid fs
      return ((f.name,x) :: r,n + 1)

def recoverPartial (s : Schema) (raw : Json) (errors : List ErrorDetails) :
    Except Exc ValidationResult := do
  let ws ← warnings s raw errors
  let (r,validFieldCount) ← recoverFields P u s raw (invalidFields errors) s.fields
  let quality ← qualityWarnings s r
  return {
    extractedData := if 0 < validFieldCount then some (P.dumpFields r) else none
    warnings := ws ++ quality
    status := if 0 < validFieldCount then .partial_ else .failed }

def validateExtraction (docType : String) (raw : Json) : Except Exc ValidationResult := do
  let s ← SchemaRegistry.getSchema docType
  match s.modelValidate P u raw with
  | .error errors => recoverPartial P u s raw errors
  | .ok r =>
    return { extractedData := some (P.dumpFields r), warnings := ← qualityWarnings s r,
             status := .completed }

end

end Validation

end StructuredExtractor
