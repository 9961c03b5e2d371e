import StructuredExtractor.Schema.Pydantic
import StructuredExtractor.Core.Types
import StructuredExtractor.Library.Keyed

/-! # The four document schemas and their registry -/
namespace StructuredExtractor
open Annotation

/-- Which of the schema classes a model is an instance of. -/
inductive SchemaClass
  | invoice
  | contract
  | payslip
  | receipt
  deriving DecidableEq, Repr

structure Schema where
  cls : SchemaClass
  name : String
  fields : List FieldInfo
  deriving DecidableEq, Repr

namespace Leaf
def text : Leaf := ⟨.str,false⟩
def textOrNone : Leaf := ⟨.str,true⟩
def integerOrNone : Leaf := ⟨.int,true⟩
def money : Leaf := ⟨.decimal,false⟩
def moneyOrNone : Leaf := ⟨.decimal,true⟩
def day : Leaf := ⟨.date,false⟩
def dayOrNone : Leaf := ⟨.date,true⟩
end Leaf

namespace Documents

def lineItem : Item := .model "LineItem"
  [⟨"description",.text,true⟩,⟨"quantity",.moneyOrNone,false⟩,⟨"unit_price",.moneyOrNone,false⟩,
    ⟨"amount",.money,true⟩]

def party : Item := .model "Party"
  [⟨"name",.text,true⟩,⟨"role",.textOrNone,false⟩,⟨"address",.textOrNone,false⟩]

def deduction : Item := .model "Deduction" [⟨"name",.text,true⟩,⟨"amount",.money,true⟩]

def invoiceSchema : Schema where
  cls := .invoice
  name := "InvoiceSchema"
  fields := [
    ⟨"vendor_name",leaf .text,true,false⟩,
    ⟨"vendor_address",leaf .textOrNone,false,false⟩,
    ⟨"invoice_number",leaf .text,true,false⟩,
    ⟨"invoice_date",leaf .day,true,false⟩,
    ⟨"due_date",leaf .dayOrNone,false,false⟩,
    ⟨"subtotal",leaf .money,true,false⟩,
    ⟨"tax_amount",leaf .moneyOrNone,false,false⟩,
    ⟨"total_amount",leaf .money,true,false⟩,
    ⟨"currency",leaf .text,true,true⟩,
    ⟨"line_items",list lineItem,true,false⟩,
    ⟨"payment_terms",leaf .textOrNone,false,false⟩]

def contractSchema : Schema where
  cls := .contract
  name := "ContractSchema"
  fields := [
    ⟨"parties",list party,true,false⟩,
    ⟨"effective_date",leaf .day,true,false⟩,
    ⟨"termination_date",leaf .dayOrNone,false,false⟩,
    ⟨"governing_law",leaf .textOrNone,false,false⟩,
    ⟨"payment_amount",leaf .moneyOrNone,false,false⟩,
    ⟨"payment_currency",leaf .textOrNone,false,true⟩,
    ⟨"notice_period_days",leaf .integerOrNone,false,false⟩,
    ⟨"key_obligations",list (.leaf .text),true,false⟩]

def payslipSchema : Schema where
  cls := .payslip
  name := "PayslipSchema"
  fields := [
    ⟨"employee_name",leaf .text,true,false⟩,
    ⟨"employer_name",leaf .text,true,false⟩,
    ⟨"pay_period_start",leaf .day,true,false⟩,
    ⟨"pay_period_end",leaf .day,true,false⟩,
    ⟨"gross_pay",leaf .money,true,false⟩,
    ⟨"net_pay",leaf .money,true,false⟩,
    ⟨"currency",leaf .text,true,true⟩,
    ⟨"deductions",list deduction,true,false⟩,
    ⟨"pay_date",leaf .day,true,false⟩]

def receiptSchema : Schema where
  cls := .receipt
  name := "ReceiptSchema"
  fields := [
    ⟨"merchant_name",leaf .text,true,false⟩,
    ⟨"merchant_address",leaf .textOrNone,false,false⟩,
    ⟨"order_number",leaf .textOrNone,false,false⟩,
    ⟨"transaction_id",leaf .textOrNone,false,false⟩,
    ⟨"receipt_date",leaf .day,true,false⟩,
    ⟨"items",list lineItem,true,false⟩,
    ⟨"subtotal",leaf .moneyOrNone,false,false⟩,
    ⟨"tax_amount",leaf .moneyOrNone,false,false⟩,
    ⟨"total_amount",leaf .money,true,false⟩,
    ⟨"currency",leaf .text,true,true⟩,
    ⟨"payment_method",leaf .textOrNone,false,false⟩]

end Documents

namespace SchemaRegistry
open Documents

def registry : List (String × Schema) :=
  [("invoice",invoiceSchema),("contract",contractSchema),("payslip",payslipSchema),
    ("receipt",receiptSchema)]

def listTypes : List String := registry.map Prod.fst

def getSchema (docType : String) : Except Exc Schema :=
  match registry.lookup docType with
  | some schema => .ok schema
  | none => .error .keyError

theorem getSchema_error {docType : String} {e : Exc} (h : getSchema docType = .error e) : e = .keyError := by
  unfold getSchema at h
  split at h <;> cases h
  rfl

end SchemaRegistry

namespace Record

def decimal? (r : Record) (name : String) : Option Decimal :=
  match r.lookup name with
  | some (.decimal d) => some d
  | _ => none

def date? (r : Record) (name : String) : Option Date :=
  match r.lookup name with
  | some (.date d) => some d
  | _ => none

def list? (r : Record) (name : String) : Option (List Value) :=
  match r.lookup name with
  | some (.list vs) => some vs
  | _ => none

end Record

namespace Schema
open Record

/-- Fails with `message` when both dates are there and `late` is before `early`. -/
def ordered (r : Record) (early late message : String) : Except (List ErrorDetails) Unit :=
  match r.date? early, r.date? late with
  | some a, some b => if b.before a then .error [⟨[],"Value error, " ++ message⟩] else .ok ()
  | _, _ => .ok ()

/-- The validators that run on the whole model once every field has parsed. -/
def modelValidator (s : Schema) (r : Record) : Except (List ErrorDetails) Unit :=
  match s.cls with
  | .invoice => ordered r "invoice_date" "due_date" "due_date must be on or after invoice_date"
  | .contract => ordered r "effective_date" "termination_date"
      "termination_date must be on or after effective_date"
  | .payslip => ordered r "pay_period_start" "pay_period_end"
      "pay_period_end must be on or after pay_period_start"
  | .receipt => .ok ()

variable (P : Pydantic) (u : Unicode)

/-- `schema.model_validate(raw)`: every field, then the model validators. Keys
that are no field are ignored. -/
def modelValidate (s : Schema) (raw : Json) : Except (List ErrorDetails) Record :=
  match raw with
  | .obj d =>
    match collect (s.fields.map (P.fieldOf u d)) with
    | .error es => .error es
    | .ok r => (s.modelValidator r).map fun _ => r
  | _ => .error [⟨[],"Input should be a valid dictionary or instance of " ++ s.name⟩]

end Schema

/-- Whether the annotation takes `None`. -/
def FieldInfo.nullable (f : FieldInfo) : Bool :=
  match f.annotation with
  | .leaf l => l.nullable
  | .list _ => false

namespace SchemaRegistry

theorem getSchema_mem {docType : String} {s : Schema} (h : getSchema docType = .ok s) :
    (docType,s) ∈ registry := by
  unfold getSchema at h
  cases hl : registry.lookup docType with
  | none => simp [hl] at h
  | some t =>
    simp only [hl,Except.ok.injEq] at h
    exact h ▸ Keyed.mem_of_lookup hl

/-- The fields of a schema have different names. -/
theorem names_nodup {docType : String} {s : Schema} (h : getSchema docType = .ok s) :
    (s.fields.map FieldInfo.name).Nodup :=
  (by decide : ∀ p ∈ registry, (p.2.fields.map FieldInfo.name).Nodup) _ (getSchema_mem h)

/-- A field takes null exactly when it is not required. -/
theorem nullable_eq {docType : String} {s : Schema} (h : getSchema docType = .ok s) :
    ∀ f ∈ s.fields, f.nullable = !f.required :=
  (by decide : ∀ p ∈ registry, ∀ f ∈ p.2.fields, f.nullable = !f.required) _ (getSchema_mem h)

end SchemaRegistry

end StructuredExtractor
