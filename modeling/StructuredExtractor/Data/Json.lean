import Mathlib.Data.Int.Notation
import Mathlib.Data.Nat.Notation

/-! # JSON values as Python holds them

What `json.loads` and a provider's argument object can hold. Objects keep the
order of their keys, integers and floats stay apart, and a float is given by its
shortest decimal representation, so two values are equal here exactly when their
`repr` is the same text.
-/
namespace StructuredExtractor

/-- A Python float, by the sign, digits and exponent that its `repr` writes. -/
inductive PyFloat
  | finite (negative : Bool) (digits : ℕ) (exponent : ℤ)
  | inf (negative : Bool)
  | nan
  deriving DecidableEq, Repr

inductive Json
  | null
  | bool (b : Bool)
  | int (n : ℤ)
  | float (f : PyFloat)
  | str (s : String)
  | arr (items : List Json)
  | obj (fields : List (String × Json))
  deriving Repr

/-- A JSON object: its keys and values in order. -/
abbrev Dict := List (String × Json)

namespace Json

mutual
def beq : Json → Json → Bool
  | .null, .null => true
  | .bool a, .bool b => a = b
  | .int a, .int b => a = b
  | .float a, .float b => a = b
  | .str a, .str b => a = b
  | .arr a, .arr b => beqItems a b
  | .obj a, .obj b => beqFields a b
  | _, _ => false

def beqItems : List Json → List Json → Bool
  | [], [] => true
  | a :: as, b :: bs => beq a b && beqItems as bs
  | _, _ => false

def beqFields : Dict → Dict → Bool
  | [], [] => true
  | (m,a) :: as, (n,b) :: bs => m = n && beq a b && beqFields as bs
  | _, _ => false
end

mutual
theorem beq_iff : ∀ a b : Json, beq a b = true ↔ a = b
  | .null, b => by cases b <;> simp [beq]
  | .bool _, b => by cases b <;> simp [beq]
  | .int _, b => by cases b <;> simp [beq]
  | .float _, b => by cases b <;> simp [beq]
  | .str _, b => by cases b <;> simp [beq]
  | .arr as, b => by cases b <;> simp [beq,beqItems_iff as]
  | .obj as, b => by cases b <;> simp [beq,beqFields_iff as]

theorem beqItems_iff : ∀ as bs : List Json, beqItems as bs = true ↔ as = bs
  | [], bs => by cases bs <;> simp [beqItems]
  | a :: as, bs => by cases bs <;> simp [beqItems,beq_iff a,beqItems_iff as]

theorem beqFields_iff : ∀ as bs : Dict, beqFields as bs = true ↔ as = bs
  | [], bs => by cases bs <;> simp [beqFields]
  | (_,a) :: as, bs => by
    rcases bs with _ | ⟨⟨_,b⟩,bs⟩ <;> simp [beqFields,beq_iff a,beqFields_iff as,and_assoc]
end

instance : DecidableEq Json := fun a b => decidable_of_iff _ (beq_iff a b)

end Json

example : Json.obj [("a", .arr [.int 1, .null])] ≠ Json.obj [("a", .arr [.bool true, .null])] := by
  decide

end StructuredExtractor
