import StructuredExtractor.Library.Keyed
import StructuredExtractor.Schema.Documents

/-! # Merging page outputs

The outputs of single pages are merged field by field, in the order of the pages:
the first useful value stays, unless both it and a later one are lists, which are
joined, or strings, of which the longer stays.
-/
namespace StructuredExtractor.Merge

def isUsefulValue : Json → Bool
  | .null => false
  | .str s => Text.strip s ≠ ""
  | .arr items => items ≠ []
  | .obj fields => fields ≠ []
  | _ => true

def hasUsefulExtraction (rawOutput : Dict) : Bool := rawOutput.any fun p => isUsefulValue p.2

def isMoreComplete (candidate current : Json) : Bool :=
  if !isUsefulValue current then true
  else match candidate, current with
    | .str a, .str b => decide ((Text.strip b).toList.length < (Text.strip a).toList.length)
    | _, _ => false

/-- The items of a list that are new, each once. The source compares items by
their `repr`, which are equal exactly when the items are. -/
def newItems (seen : List Json) : List Json → List Json
  | [] => []
  | v :: vs => if v ∈ seen then newItems seen vs else v :: newItems (v :: seen) vs

def uniqueListItems (current candidate : List Json) : List Json := newItems current candidate

def appendSourcePage (pages : List ℕ) (pageIndex : ℕ) : List ℕ :=
  if pageIndex ∈ pages then pages else pages ++ [pageIndex]

structure Merged where
  merged : Dict
  fieldSourcePages : List (String × List ℕ)
  deriving DecidableEq

/-- What becomes of the current value when a useful candidate comes: `none` keeps it. -/
def replacement (current candidate : Json) : Option Json :=
  match current, candidate with
  | .arr cur, .arr cand =>
    let additions := uniqueListItems cur cand
    if additions = [] then none else some (.arr (cur ++ additions))
  | _, _ => if isMoreComplete candidate current then some candidate else none

def mergeField (pageOutput : Dict) (pageIndex : ℕ) (m : Merged) (fieldName : String) : Merged :=
  match pageOutput.lookup fieldName with
  | none => m
  | some candidate =>
    if !isUsefulValue candidate then m
    else match m.merged.lookup fieldName with
      | none => ⟨m.merged ++ [(fieldName,candidate)],m.fieldSourcePages ++ [(fieldName,[pageIndex])]⟩
      | some current => match replacement current candidate with
        | none => m
        | some v => ⟨Keyed.modify fieldName (fun _ => v) m.merged,
            Keyed.modify fieldName (appendSourcePage · pageIndex) m.fieldSourcePages⟩

def mergePage (s : Schema) (m : Merged) (page : Dict × ℕ) : Merged :=
  (s.fields.map FieldInfo.name).foldl (mergeField page.1 page.2) m

/-- `_merge_results` -/
def mergeResults (perPage : List (Dict × ℕ)) (docType : String) : Except Exc Merged := do
  let schema ← SchemaRegistry.getSchema docType
  return perPage.foldl (mergePage schema) ⟨[],[]⟩

end StructuredExtractor.Merge
