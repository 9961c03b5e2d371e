import StructuredExtractor.Data.Json
import StructuredExtractor.Library.Keyed
import Mathlib.Order.FixedPoints
import Mathlib.Logic.Relation

/-! # What a JSON schema says of a value

Validity is the least relation that is closed under the keywords. Those that combine
schemas are fixed here; what the others assert, where a reference leads and which
branches a union offers is up to the reading. A schema may refer to itself.
-/
namespace StructuredExtractor

namespace Json

def field (name : String) : Json → Option Json
  | .obj fields => fields.lookup name
  | _ => none

theorem mem_of_field {name : String} {fields : Dict} {w : Json} (h : (Json.obj fields).field name = some w) :
    (name,w) ∈ fields := Keyed.mem_of_lookup h

def elements : Json → List Json
  | .arr items => items
  | _ => []

end Json

namespace JsonSchema

structure Reading where
  asserts : String → Json → Json → Prop
  refers : Json → Option Json
  branches : List Json → List Json

/-- The keywords that are not read by what they assert. -/
def combining : List String := ["$ref","anyOf","allOf","properties","additionalProperties","items"]

/-- The names that `properties` has a schema for. -/
def propertyNames (node : Dict) : List String :=
  match node.lookup "properties" with
  | some (.obj props) => props.map Prod.fst
  | _ => []

/-- What a keyword demands of a value when `P` is what the schemas in it demand. -/
def Keyword (R : Reading) (P : Json → Json → Prop) (names : List String) (v : Json) : String × Json → Prop
  | ("$ref",arg) => ∃ s, R.refers arg = some s ∧ P s v
  | ("anyOf",arg) => ∃ subs, arg = .arr subs ∧ ∃ s ∈ R.branches subs, P s v
  | ("allOf",arg) => ∃ subs, arg = .arr subs ∧ ∀ s ∈ subs, P s v
  | ("properties",arg) => ∃ props, arg = .obj props ∧
      ∀ name s w, props.lookup name = some s → v.field name = some w → P s w
  | ("additionalProperties",s) => ∀ name w, v.field name = some w → name ∉ names → P s w
  | ("items",s) => ∀ w ∈ v.elements, P s w
  | (key,arg) => R.asserts key arg v

/-- What a schema demands. Only objects and booleans are schemas. -/
def Meets (R : Reading) (P : Json → Json → Prop) : Json → Json → Prop
  | .bool b, _ => b = true
  | .obj node, v => ∀ p ∈ node, Keyword R P (propertyNames node) v p
  | _, _ => False

variable {R R' : Reading} {P Q : Json → Json → Prop} {names : List String} {v : Json}

theorem keyword_other {key : String} (h : key ∉ combining) (arg : Json) :
    Keyword R P names v (key,arg) ↔ R.asserts key arg v := by
  simp only [combining,List.mem_cons,List.not_mem_nil,or_false,not_or] at h
  unfold Keyword
  split <;> simp_all

theorem mem_combining {key : String} : key ∈ combining ↔ key = "$ref" ∨ key = "anyOf" ∨ key = "allOf" ∨
    key = "properties" ∨ key = "additionalProperties" ∨ key = "items" := by
  simp [combining]

/-- The schemas that a schema applies to a value or its parts, other than by a union. -/
inductive Applies (R : Reading) : Json → Json → Prop
  | ref {node arg d} : ("$ref",arg) ∈ node → R.refers arg = some d → Applies R (.obj node) d
  | allOf {node subs s} : ("allOf",.arr subs) ∈ node → s ∈ subs → Applies R (.obj node) s
  | property {node props name s} : ("properties",.obj props) ∈ node → (name,s) ∈ props → Applies R (.obj node) s
  | additional {node s} : ("additionalProperties",s) ∈ node → Applies R (.obj node) s
  | items {node s} : ("items",s) ∈ node → Applies R (.obj node) s

/-- A keyword demands less when the schemas that it applies do. -/
theorem Keyword.imp_applied {node : Dict} {p : String × Json} (hp : p ∈ node) (hunion : p.1 ≠ "anyOf")
    (h : ∀ s w, Applies R (.obj node) s → P s w → Q s w) (hkeyword : Keyword R P names v p) :
    Keyword R Q names v p := by
  obtain ⟨key,arg⟩ := p
  by_cases hkey : key ∈ combining
  · obtain rfl | rfl | rfl | rfl | rfl | rfl := mem_combining.mp hkey
    · obtain ⟨s,hs,hv⟩ := hkeyword
      exact ⟨s,hs,h s v (.ref hp hs) hv⟩
    · exact absurd rfl hunion
    · obtain ⟨subs,rfl,hall⟩ := hkeyword
      exact ⟨subs,rfl,fun s hs => h s v (.allOf hp hs) (hall s hs)⟩
    · obtain ⟨props,rfl,hall⟩ := hkeyword
      exact ⟨props,rfl,fun name s w hs hw => h s w (.property hp (Keyed.mem_of_lookup hs)) (hall name s w hs hw)⟩
    · exact fun name w hw hname => h _ w (.additional hp) (hkeyword name w hw hname)
    · exact fun w hw => h _ w (.items hp) (hkeyword w hw)
  · rw [keyword_other hkey] at hkeyword ⊢
    exact hkeyword

theorem Keyword.imp (h : ∀ s w, P s w → Q s w) {p : String × Json} (hp : Keyword R P names v p) :
    Keyword R Q names v p := by
  by_cases hunion : p.1 = "anyOf"
  · obtain ⟨key,arg⟩ := p
    obtain rfl := hunion
    obtain ⟨subs,hsubs,s,hs,hv⟩ := hp
    exact ⟨subs,hsubs,s,hs,h s v hv⟩
  · exact hp.imp_applied (List.mem_singleton_self p) hunion fun s w _ => h s w

theorem Meets.imp (h : ∀ s w, P s w → Q s w) {s : Json} (hs : Meets R P s v) : Meets R Q s v := by
  cases s with
  | bool b => exact hs
  | obj node => exact fun p hp => (hs p hp).imp h
  | _ => exact hs

/-- A schema's demands, as a function of what the schemas in it demand. -/
def demands (R : Reading) : (Json → Json → Prop) →o (Json → Json → Prop) where
  toFun := Meets R
  monotone' _ _ h _ _ := Meets.imp h

/-- The values that are valid under a schema. -/
def Valid (R : Reading) : Json → Json → Prop := (demands R).lfp

theorem valid_iff {s : Json} : Valid R s v ↔ Meets R (Valid R) s v :=
  iff_of_eq (congrFun (congrFun (demands R).map_lfp.symm s) v)

theorem valid_obj {node : Dict} :
    Valid R (.obj node) v ↔ ∀ p ∈ node, Keyword R (Valid R) (propertyNames node) v p := valid_iff

theorem valid_bool {b : Bool} : Valid R (.bool b) v ↔ b = true := valid_iff

/-- What the schemas of a valid value may be assumed to have already, the schema has. -/
theorem Valid.induction {s : Json} (hs : Valid R s v)
    (h : ∀ s v, Meets R (fun s v => Valid R s v ∧ Q s v) s v → Q s v) : Q s v := by
  have hle : (demands R).lfp ≤ fun s v => Valid R s v ∧ Q s v := by
    refine (demands R).lfp_le fun s v hmeets => ?_
    exact ⟨valid_iff.mpr (Meets.imp (fun _ _ h => h.1) hmeets),h s v hmeets⟩
  exact (hle s v hs).2

/-- A schema that states one keyword. -/
theorem valid_single {key : String} (h : key ∉ combining) (arg : Json) :
    Valid R (.obj [(key,arg)]) v ↔ R.asserts key arg v := by
  rw [valid_obj,List.forall_mem_singleton,keyword_other h]

/-- Two readings that differ in the unions only, and the first finds no union valid that the second
does not. -/
structure Narrower (R R' : Reading) (root : Json) : Prop where
  asserts : R.asserts = R'.asserts
  refers : R.refers = R'.refers
  unions : ∀ node subs, Relation.ReflTransGen (Applies R) root (.obj node) → ("anyOf",.arr subs) ∈ node →
    ∀ v, (∃ s ∈ R.branches subs, Valid R s v) → ∃ s ∈ R'.branches subs, Valid R' s v

theorem Narrower.keyword {root : Json} (hR : Narrower R R' root) {p : String × Json} (hunion : p.1 ≠ "anyOf")
    (h : Keyword R P names v p) : Keyword R' P names v p := by
  obtain ⟨key,arg⟩ := p
  by_cases hkey : key ∈ combining
  · obtain rfl | rfl | rfl | rfl | rfl | rfl := mem_combining.mp hkey
    · obtain ⟨s,hs,hv⟩ := h
      exact ⟨s,hR.refers ▸ hs,hv⟩
    · exact absurd rfl hunion
    all_goals exact h
  · rw [keyword_other hkey] at h ⊢
    exact hR.asserts ▸ h

theorem Narrower.valid {root : Json} (hR : Narrower R R' root) (hv : Valid R root v) : Valid R' root v := by
  refine hv.induction (Q := fun s v => Relation.ReflTransGen (Applies R) root s → Valid R' s v) ?_ .refl
  intro s v hmeets hs
  cases s with
  | obj node =>
    rw [valid_obj]
    intro p hp
    have hnode : Keyword R (fun s v => Valid R s v ∧ (Relation.ReflTransGen (Applies R) root s → Valid R' s v))
      (propertyNames node) v p := hmeets p hp
    by_cases hunion : p.1 = "anyOf"
    · obtain ⟨key,arg⟩ := p
      obtain rfl := hunion
      obtain ⟨subs,rfl,s,hbranch,hvalid,-⟩ := hnode
      exact ⟨subs,rfl,hR.unions node subs hs hp v ⟨s,hbranch,hvalid⟩⟩
    · have happlied := hnode.imp_applied hp hunion (Q := Valid R') fun s w happlies hw => hw.2 (hs.tail happlies)
      exact hR.keyword hunion happlied
  | bool b => exact valid_bool.mpr hmeets
  | _ => exact hmeets.elim

end JsonSchema

end StructuredExtractor
