import StructuredExtractor.Data.Text
import Mathlib.Data.Nat.Digits.Defs

/-! # Python decimals in the default context

Finite decimals with sign, coefficient and exponent, and the operations of the
default context: 28 digits, half-even rounding, exponents up to 999999, and the
trapped signals of a result that does not fit.
-/
namespace StructuredExtractor

structure Decimal where
  negative : Bool
  coeff : ℕ
  exponent : ℤ
  deriving DecidableEq, Repr

/-- The signals that the default context raises as exceptions. -/
inductive DecimalSignal
  | invalidOperation
  | overflow
  deriving DecidableEq, Repr

namespace Decimal

def precision : ℕ := 28
def maxExponent : ℤ := 999999
def tinyExponent : ℤ := -999999 - (precision - 1)
def topExponent : ℤ := maxExponent - (precision - 1)

/-- The number of digits that a coefficient is written with. -/
def width (n : ℕ) : ℕ := if n = 0 then 1 else (Nat.digits 10 n).length

/-- The exponent of the leading digit. -/
def adjusted (d : Decimal) : ℤ := d.exponent + width d.coeff - 1

def signed (d : Decimal) : ℤ := if d.negative then -(d.coeff : ℤ) else d.coeff

/-- Drop `k` digits, rounding half to even. -/
def roundHalfEven (n k : ℕ) : ℕ :=
  let q := n / 10 ^ k
  let r := n % 10 ^ k
  if 2 * r < 10 ^ k then q else if 10 ^ k < 2 * r then q + 1 else if q % 2 = 0 then q else q + 1

/-- The coefficient at exponent `e`. -/
def rescale (d : Decimal) (e : ℤ) : ℕ :=
  if e ≤ d.exponent then d.coeff * 10 ^ (d.exponent - e).toNat
  else roundHalfEven d.coeff (e - d.exponent).toNat

/-- Round a result into the context. -/
def fix (d : Decimal) : Except DecimalSignal Decimal :=
  if d.coeff = 0 then
    .ok ⟨d.negative,0,min (max d.exponent tinyExponent) maxExponent⟩
  else
    let least : ℤ := width d.coeff + d.exponent - precision
    if topExponent < least then .error .overflow
    else
      let e := max least tinyExponent
      if e ≤ d.exponent then .ok d
      else
        let c := roundHalfEven d.coeff (e - d.exponent).toNat
        -- rounding up can carry into a 29th digit
        let (c,e) := if precision < width c then (c / 10,e + 1) else (c,e)
        if topExponent < e then .error .overflow else .ok ⟨d.negative,c,e⟩

def add (a b : Decimal) : Except DecimalSignal Decimal :=
  let e := min a.exponent b.exponent
  let n := a.signed * 10 ^ (a.exponent - e).toNat + b.signed * 10 ^ (b.exponent - e).toNat
  fix ⟨if n = 0 then a.negative && b.negative else n < 0,n.natAbs,e⟩

def neg (d : Decimal) : Decimal := { d with negative := !d.negative }

def sub (a b : Decimal) : Except DecimalSignal Decimal := add a b.neg

def quantize (d : Decimal) (e : ℤ) : Except DecimalSignal Decimal :=
  if d.coeff = 0 then fix ⟨d.negative,0,e⟩
  else if maxExponent < d.adjusted then .error .invalidOperation
  else if (precision : ℤ) < d.adjusted - e + 1 then .error .invalidOperation
  else
    let c := d.rescale e
    if maxExponent < (Decimal.mk d.negative c e).adjusted then .error .invalidOperation
    else if precision < width c then .error .invalidOperation
    else .ok ⟨d.negative,c,e⟩

/-- Python's `==` on finite decimals: equal as numbers. -/
def numEq (a b : Decimal) : Bool :=
  let e := min a.exponent b.exponent
  a.signed * 10 ^ (a.exponent - e).toNat = b.signed * 10 ^ (b.exponent - e).toNat

/-- Python's `d < 0`. -/
def isNegative (d : Decimal) : Bool := d.negative && d.coeff ≠ 0

example : quantize ⟨false,12345,-3⟩ (-2) = .ok ⟨false,1234,-2⟩ := by decide

/-- What `Decimal(text)` can be. -/
inductive Parsed
  | finite (d : Decimal)
  | infinite (negative : Bool)
  | nan
  deriving DecidableEq, Repr

section Parse
variable (u : Unicode)

def takeSign : List Char → Bool × List Char
  | '-' :: cs => (true,cs)
  | '+' :: cs => (false,cs)
  | cs => (false,cs)

/-- The digits at the front, and what follows them. -/
def takeDigits : List Char → List ℕ × List Char
  | [] => ([],[])
  | c :: cs =>
    match u.digit c with
    | some n => let (ns,rest) := takeDigits cs; (n :: ns,rest)
    | none => ([],c :: cs)

def ofDigits (ns : List ℕ) : ℕ := ns.foldl (fun acc n => 10 * acc + n) 0

/-- An exponent part that is either absent or `e`, a sign and digits to the end. -/
def takeExponent : List Char → Option ℤ
  | [] => some 0
  | c :: cs =>
    if c = 'e' ∨ c = 'E' then
      let (negative,cs) := takeSign cs
      match takeDigits u cs with
      | (n :: ns,[]) =>
        let e : ℤ := ofDigits (n :: ns)
        some (if negative then -e else e)
      | _ => none
    else none

/-- The special values, in any case of letters. -/
def special (negative : Bool) (cs : List Char) : Option Parsed :=
  let word := cs.map Char.toLower
  if word = ['i','n','f'] ∨ word = ['i','n','f','i','n','i','t','y'] then some (.infinite negative)
  else
    let payload := if word.take 3 = ['n','a','n'] then some (cs.drop 3)
      else if word.take 4 = ['s','n','a','n'] then some (cs.drop 4) else none
    match payload with
    | some rest => if (takeDigits u rest).2 = [] then some .nan else none
    | none => none

/-- `Decimal(text)`: `none` is the `InvalidOperation` of a text that is no number,
or whose exponent is out of every range. -/
def ofText (text : String) : Option Parsed :=
  let cs := (Text.strip text).toList.filter (fun c => c ≠ '_')
  let (negative,cs) := takeSign cs
  let (whole,rest) := takeDigits u cs
  let (fraction,rest) := match rest with
    | '.' :: rest => takeDigits u rest
    | rest => ([],rest)
  if whole ++ fraction = [] then special u negative cs
  else
    match takeExponent u rest with
    | none => none
    | some e =>
      let d : Decimal := ⟨negative,ofDigits (whole ++ fraction),e - fraction.length⟩
      if d.adjusted ≤ 999999999999999999 ∧ -1999999999999999997 ≤ d.exponent
      then some (.finite d) else none

example : ofText Unicode.ascii " -12.50 " = some (.finite ⟨true,1250,-2⟩) := by decide

end Parse

end Decimal

end StructuredExtractor
