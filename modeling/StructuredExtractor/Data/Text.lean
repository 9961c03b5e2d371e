import Mathlib.Data.List.Infix
import Mathlib.Data.Nat.Notation

/-! # Python text

`str.strip` works on the white space of Python, which is wider than ASCII. Case
mapping and letter classes come from the Unicode tables; they are taken as a
`Unicode` value, which fixes them on ASCII only.
-/
namespace StructuredExtractor

/-- The Unicode tables behind `str.upper`, `str.lower`, `str.isalpha` and the
digits that `Decimal` reads. -/
structure Unicode where
  upper : Char → List Char
  lower : String → String
  isAlpha : Char → Bool
  digit : Char → Option ℕ
  upper_ascii : ∀ c : Char, c.toNat < 128 → upper c = [c.toUpper]
  lower_ascii : ∀ s : String, (∀ c ∈ s.toList, c.toNat < 128) →
    lower s = String.ofList (s.toList.map Char.toLower)
  isAlpha_ascii : ∀ c : Char, c.toNat < 128 → isAlpha c = c.isAlpha
  digit_ascii : ∀ c : Char, c.toNat < 128 →
    digit c = if c.isDigit then some (c.toNat - '0'.toNat) else none

namespace Unicode

/-- The tables that know the ASCII letters and digits only. -/
def ascii : Unicode where
  upper c := [c.toUpper]
  lower s := String.ofList (s.toList.map Char.toLower)
  isAlpha c := c.isAlpha
  digit c := if c.isDigit then some (c.toNat - '0'.toNat) else none
  upper_ascii _ _ := rfl
  lower_ascii _ _ := rfl
  isAlpha_ascii _ _ := rfl
  digit_ascii _ _ := rfl

def upperText (u : Unicode) (s : String) : String := String.ofList (s.toList.flatMap u.upper)

/-- `str.isalpha`: a letter at every place, and at least one. -/
def isAlphaText (u : Unicode) (s : String) : Bool := s.toList ≠ [] && s.toList.all u.isAlpha

end Unicode

namespace Text

/-- The characters that `str.strip` takes away. -/
def isSpace (c : Char) : Bool :=
  let n := c.toNat
  (0x09 ≤ n && n ≤ 0x0d) || (0x1c ≤ n && n ≤ 0x20) || n = 0x85 || n = 0xa0 || n = 0x1680 ||
    (0x2000 ≤ n && n ≤ 0x200a) || n = 0x2028 || n = 0x2029 || n = 0x202f || n = 0x205f || n = 0x3000

def strip (s : String) : String :=
  String.ofList ((s.toList.dropWhile isSpace).reverse.dropWhile isSpace).reverse

/-- Python's `needle in hay`. -/
def contains (needle hay : String) : Bool := decide (needle.toList <:+: hay.toList)

/-- `str.endswith`. -/
def endsWith (suffix s : String) : Bool := decide (suffix.toList <:+ s.toList)

example : strip " \tUSD\n" = "USD" := by decide

end Text

end StructuredExtractor
