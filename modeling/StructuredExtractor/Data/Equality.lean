import StructuredExtractor.Data.Json
import StructuredExtractor.Library.Keyed
import StructuredExtractor.Library.Rounding

/-! # Equality of JSON values

Python's `==`. Booleans, integers and floats compare as numbers, a float by the exact
value of its 64 bits, and objects compare without regard to the order of their keys.
-/
namespace StructuredExtractor

/-- The binary number of 53 bits that is nearest to a rational. -/
def binary64 (q : ℚ) : ℚ :=
  let e := max (Int.log 2 |q| - 52) (-1074)
  Rounding.halfEven (q / 2 ^ e) * 2 ^ e

/-- The number that a value is, if it is a finite one. -/
def Json.number? : Json → Option ℚ
  | .bool b => some (if b then 1 else 0)
  | .int n => some n
  | .float (.finite negative digits exponent) =>
    some (binary64 ((if negative then -(digits : ℚ) else digits) * 10 ^ exponent))
  | _ => none

namespace Json

mutual
/-- Python's `a == b`. -/
def pyEq : Json → Json → Bool
  | .null, .null => true
  | .str a, .str b => a = b
  | .float (.inf a), .float (.inf b) => a = b
  | .arr as, .arr bs => pyEqItems as bs
  | .obj as, .obj bs => as.length = bs.length && pyEqFields as bs
  | a, b => match a.number?, b.number? with
    | some x, some y => x = y
    | _, _ => false

def pyEqItems : List Json → List Json → Bool
  | [], [] => true
  | a :: as, b :: bs => pyEq a b && pyEqItems as bs
  | _, _ => false

/-- Every key has an equal value in the other object. -/
def pyEqFields : Dict → Dict → Bool
  | [], _ => true
  | (key,a) :: as, bs => (match bs.lookup key with
    | some b => pyEq a b
    | none => false) && pyEqFields as bs
end

mutual
/-- No NaN, and no key twice in an object. -/
def Plain : Json → Prop
  | .float .nan => False
  | .arr items => PlainItems items
  | .obj fields => (fields.map Prod.fst).Nodup ∧ PlainFields fields
  | _ => True

def PlainItems : List Json → Prop
  | [] => True
  | v :: vs => Plain v ∧ PlainItems vs

def PlainFields : Dict → Prop
  | [] => True
  | (_,v) :: rest => Plain v ∧ PlainFields rest
end

mutual
/-- A value without NaN is equal to itself. -/
theorem pyEq_self : ∀ v : Json, Plain v → pyEq v v = true
  | .null, _ => rfl
  | .bool _, _ => by simp [pyEq,number?]
  | .int _, _ => by simp [pyEq,number?]
  | .float (.finite _ _ _), _ => by simp [pyEq,number?]
  | .float (.inf _), _ => by simp [pyEq]
  | .float .nan, h => h.elim
  | .str _, _ => by simp [pyEq]
  | .arr items, h => by
    rw [pyEq]
    exact pyEqItems_self items h
  | .obj fields, h => by
    obtain ⟨hkeys,hfields⟩ := h
    rw [pyEq,decide_eq_true rfl,Bool.true_and]
    refine pyEqFields_self fields fields (fun p hp => ?_) hfields
    have hlook := Keyed.lookup_map_of_mem hkeys hp Prod.snd
    rwa [show (fun p : String × Json => (p.1,p.2)) = id from rfl,List.map_id] at hlook

theorem pyEqItems_self : ∀ items : List Json, PlainItems items → pyEqItems items items = true
  | [], _ => rfl
  | v :: vs, h => by rw [pyEqItems,pyEq_self v h.1,pyEqItems_self vs h.2]; rfl

/-- Fields that are all in an object are equal to its fields. -/
theorem pyEqFields_self : ∀ fields whole : Dict, (∀ p ∈ fields, whole.lookup p.1 = some p.2) →
    PlainFields fields → pyEqFields fields whole = true
  | [], _, _, _ => rfl
  | (key,v) :: rest, whole, hin, h => by
    rw [pyEqFields,hin (key,v) List.mem_cons_self]
    dsimp only
    rw [pyEq_self v h.1,pyEqFields_self rest whole (fun p hp => hin p (List.mem_cons_of_mem _ hp)) h.2]
    rfl
end

end Json

end StructuredExtractor
