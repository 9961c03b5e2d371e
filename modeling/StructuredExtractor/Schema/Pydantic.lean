import StructuredExtractor.Data.Json
import StructuredExtractor.Data.Decimal
import StructuredExtractor.Library.Collect

/-! # Models, fields and their parsing

The part of Pydantic that the document schemas use. The conversions of a single
JSON value to a string, an integer, a decimal or a date are the library's own
and come as a `Pydantic` value; how fields, lists and nested models are put
together from them, and where errors are located, is fixed here.
-/
namespace StructuredExtractor

structure Date where
  year : ℕ
  month : ℕ
  day : ℕ
  deriving DecidableEq, Repr

/-- Python's `a < b` on dates. -/
def Date.before (a b : Date) : Bool :=
  a.year < b.year ||
    (a.year = b.year && (a.month < b.month || (a.month = b.month && a.day < b.day)))

/-- An attribute of a parsed model. -/
inductive Value
  | none
  | str (s : String)
  | int (n : ℤ)
  | decimal (d : Decimal)
  | date (d : Date)
  | list (items : List Value)
  | model (fields : List (String × Value))
  deriving Repr

/-- The attributes of a model, in the order of its fields. -/
abbrev Record := List (String × Value)

/-- The library's conversions of one value, each with the message of its error,
and the text that a JSON dump writes. -/
structure Pydantic where
  str : Json → Except String String
  int : Json → Except String ℤ
  decimal : Json → Except String Decimal
  date : Json → Except String Date
  decimalText : Decimal → String
  dateText : Date → String

namespace Pydantic

/-- The digits of `n`, filled up with zeros to `width`. -/
def padded (width n : ℕ) : List Char :=
  let digits := Nat.toDigits 10 n
  List.replicate (width - digits.length) '0' ++ digits

def isoDate (d : Date) : String :=
  String.ofList (padded 4 d.year ++ '-' :: padded 2 d.month ++ '-' :: padded 2 d.day)

def daysIn (year month : ℕ) : ℕ :=
  if month = 2 then (if year % 4 = 0 ∧ (year % 100 ≠ 0 ∨ year % 400 = 0) then 29 else 28)
  else if month ∈ [4,6,9,11] then 30 else 31

/-- A date in the form `YYYY-MM-DD`. -/
def ofIsoDate (s : String) : Option Date :=
  let digit (c : Char) : Option ℕ := if c.isDigit then some (c.toNat - '0'.toNat) else none
  let number (cs : List Char) : Option ℕ := cs.foldlM (fun n c => (digit c).map (10 * n + ·)) 0
  match s.toList with
  | [y1,y2,y3,y4,'-',m1,m2,'-',d1,d2] => do
    let year ← number [y1,y2,y3,y4]
    let month ← number [m1,m2]
    let day ← number [d1,d2]
    if 1 ≤ year ∧ 1 ≤ month ∧ month ≤ 12 ∧ 1 ≤ day ∧ day ≤ daysIn year month then
      some ⟨year,month,day⟩
    else none
  | _ => none

/-- The text of a decimal whose exponent is not positive. -/
def decimalDigits (d : Decimal) : String :=
  let places := (-d.exponent).toNat
  let digits := padded (places + 1) d.coeff
  let whole := digits.take (digits.length - places)
  let fraction := digits.drop (digits.length - places)
  String.ofList ((if d.negative then ['-'] else []) ++ whole ++
    (if places = 0 then [] else '.' :: fraction))

/-- The conversions on the plain forms: texts for strings, integers for integers,
integers and decimal texts for decimals, ISO texts for dates. -/
def basic : Pydantic where
  str
    | .str s => .ok s
    | _ => .error "Input should be a valid string"
  int
    | .int n => .ok n
    | _ => .error "Input should be a valid integer"
  decimal
    | .int n => .ok ⟨n < 0,n.natAbs,0⟩
    | .str s => match Decimal.ofText Unicode.ascii s with
      | some (.finite d) => .ok d
      | _ => .error "Input should be a valid decimal"
    | _ => .error "Decimal input should be an integer, float, string or Decimal object"
  date
    | .str s => match ofIsoDate s with
      | some d => .ok d
      | none => .error "Input should be a valid date or datetime"
    | _ => .error "Input should be a valid date"
  decimalText := decimalDigits
  dateText := isoDate

example : (ofIsoDate "2024-02-29").map isoDate = some "2024-02-29" := by decide

end Pydantic

inductive Loc
  | key (name : String)
  | index (n : ℕ)
  deriving DecidableEq, Repr

structure ErrorDetails where
  loc : List Loc
  msg : String
  deriving DecidableEq, Repr

inductive Scalar
  | str
  | int
  | decimal
  | date
  deriving DecidableEq, Repr

/-- A scalar annotation, with `| None` when it is nullable. -/
structure Leaf where
  scalar : Scalar
  nullable : Bool
  deriving DecidableEq, Repr

/-- A field of a nested model. Its default, when it is not required, is `None`. -/
structure SubField where
  name : String
  leaf : Leaf
  required : Bool
  deriving DecidableEq, Repr

inductive Item
  | leaf (l : Leaf)
  | model (name : String) (fields : List SubField)
  deriving DecidableEq, Repr

inductive Annotation
  | leaf (l : Leaf)
  | list (item : Item)
  deriving DecidableEq, Repr

/-- A field of a schema. `currency` says that `validate_currency_code` is its
field validator. The default, when the field is not required, is `None`. -/
structure FieldInfo where
  name : String
  annotation : Annotation
  required : Bool
  currency : Bool
  deriving DecidableEq, Repr

namespace ErrorDetails

def under (l : Loc) (errors : List ErrorDetails) : List ErrorDetails :=
  errors.map fun e => { e with loc := l :: e.loc }

end ErrorDetails

namespace Pydantic
variable (P : Pydantic) (u : Unicode)

def scalar (s : Scalar) (v : Json) : Except (List ErrorDetails) Value :=
  match s with
  | .str => ((P.str v).map Value.str).mapError fun m => [⟨[],m⟩]
  | .int => ((P.int v).map Value.int).mapError fun m => [⟨[],m⟩]
  | .decimal => ((P.decimal v).map Value.decimal).mapError fun m => [⟨[],m⟩]
  | .date => ((P.date v).map Value.date).mapError fun m => [⟨[],m⟩]

def leaf (l : Leaf) (v : Json) : Except (List ErrorDetails) Value :=
  if l.nullable ∧ v = .null then .ok .none else P.scalar l.scalar v

def subField (raw : Dict) (f : SubField) : Except (List ErrorDetails) (String × Value) :=
  match raw.lookup f.name with
  | some v => ((P.leaf f.leaf v).map (f.name,·)).mapError (ErrorDetails.under (.key f.name))
  | none => if f.required then .error [⟨[.key f.name],"Field required"⟩] else .ok (f.name,.none)

def item (i : Item) (v : Json) : Except (List ErrorDetails) Value :=
  match i, v with
  | .leaf l, v => P.leaf l v
  | .model _ fields, .obj raw => (collect (fields.map (P.subField raw))).map Value.model
  | .model name _, _ =>
    .error [⟨[],"Input should be a valid dictionary or instance of " ++ name⟩]

def annotation (a : Annotation) (v : Json) : Except (List ErrorDetails) Value :=
  match a, v with
  | .leaf l, v => P.leaf l v
  | .list i, .arr items =>
    (collect (items.mapIdx fun n v => (P.item i v).mapError (ErrorDetails.under (.index n)))).map
      Value.list
  | .list _, _ => .error [⟨[],"Input should be a valid list"⟩]

/-- `validate_currency_code`, with the message of its `ValueError`. -/
def currencyCode (value : String) : Except String String :=
  let normalized := u.upperText value
  if normalized.toList.length ≠ 3 || !u.isAlphaText normalized then
    .error "currency must be a three-letter ISO 4217 code"
  else .ok normalized

/-- The field validator of a currency field: it sees `None` and strings only. -/
def validateCurrencyCode : Value → Except (List ErrorDetails) Value
  | .str s => ((currencyCode u s).map Value.str).mapError fun m => [⟨[],"Value error, " ++ m⟩]
  | v => .ok v

/-- One field: its annotation, then its validator. -/
def field (f : FieldInfo) (v : Json) : Except (List ErrorDetails) Value :=
  match P.annotation f.annotation v with
  | .error es => .error es
  | .ok x => if f.currency then validateCurrencyCode u x else .ok x

/-- What model validation makes of a field: parse it, miss it, or default it. -/
def fieldOf (raw : Dict) (f : FieldInfo) : Except (List ErrorDetails) (String × Value) :=
  match raw.lookup f.name with
  | some v => ((P.field u f v).map (f.name,·)).mapError (ErrorDetails.under (.key f.name))
  | none => if f.required then .error [⟨[.key f.name],"Field required"⟩] else .ok (f.name,.none)

mutual
/-- `model_dump(mode="json")` of one value. -/
def dump : Value → Json
  | .none => .null
  | .str s => .str s
  | .int n => .int n
  | .decimal d => .str (P.decimalText d)
  | .date d => .str (P.dateText d)
  | .list items => .arr (dumpItems items)
  | .model fields => .obj (dumpFields fields)

def dumpItems : List Value → List Json
  | [] => []
  | v :: vs => dump v :: dumpItems vs

def dumpFields : Record → Dict
  | [] => []
  | (name,v) :: rest => (name,dump v) :: dumpFields rest
end

/-- Only `None` is written as null. -/
theorem dump_eq_null {v : Value} : P.dump v = .null ↔ v = .none := by
  cases v <;> simp [dump]

theorem dumpFields_keys (r : Record) : (P.dumpFields r).map Prod.fst = r.map Prod.fst := by
  induction r with
  | nil => rfl
  | cons f rest ih => exact congrArg (f.1 :: ·) ih

theorem dumpFields_lookup (r : Record) (name : String) :
    (P.dumpFields r).lookup name = (r.lookup name).map P.dump := by
  induction r with
  | nil => rfl
  | cons f rest ih =>
    obtain ⟨n,v⟩ := f
    cases h : name == n <;> simp [dumpFields,List.lookup_cons,h,ih]

end Pydantic

end StructuredExtractor
