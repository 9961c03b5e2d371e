import StructuredExtractor.Data.Equality
import StructuredExtractor.Extraction.MergeForm
import Mathlib.Data.List.Sort
import Mathlib.Data.String.Basic

/-! # Merged lists as unions

Two items are equal as JSON values when they have the same form: numbers by their
value, and objects by what they have under each key. The merge compares printed
items, of later pages only, so a list stays free of equal items exactly when the
first one is and equal items are printed alike.
-/
namespace StructuredExtractor

/-- A JSON value up to the spelling of numbers and the order of keys. -/
inductive JsonForm
  | null
  | bool (b : Bool)
  | number (q : ℚ)
  | inf (negative : Bool)
  | nan
  | str (s : String)
  | arr (items : List JsonForm)
  | obj (fields : List (String × JsonForm))

/-- Fields in the order of their keys. -/
def sortFields (fields : List (String × JsonForm)) : List (String × JsonForm) :=
  fields.insertionSort fun p q => p.1 ≤ q.1

namespace Json

mutual
def form : Json → JsonForm
  | .null => .null
  | .bool b => .bool b
  | .str s => .str s
  | .float (.inf negative) => .inf negative
  | .float .nan => .nan
  | .arr items => .arr (formItems items)
  | .obj fields => .obj (sortFields (formFields fields))
  | v => .number (v.number?.getD 0)

def formItems : List Json → List JsonForm
  | [] => []
  | v :: vs => form v :: formItems vs

def formFields : Dict → List (String × JsonForm)
  | [] => []
  | (key,v) :: rest => (key,form v) :: formFields rest
end

theorem keys_formFields (fields : Dict) : (formFields fields).map Prod.fst = fields.map Prod.fst := by
  induction fields with
  | nil => rfl
  | cons p fields ih => simp [formFields,ih]

theorem lookup_formFields (fields : Dict) (key : String) :
    (formFields fields).lookup key = (fields.lookup key).map form := by
  induction fields with
  | nil => rfl
  | cons p fields ih =>
    obtain ⟨k,v⟩ := p
    by_cases hk : key = k
    · subst hk
      simp [formFields]
    · rw [formFields,Keyed.lookup_cons_ne hk,Keyed.lookup_cons_ne hk,ih]

end Json

/-- Fields with distinct keys are sorted alike exactly when they are the same fields. -/
theorem sortFields_eq_iff {fields fields' : List (String × JsonForm)} (h : (fields.map Prod.fst).Nodup) :
    sortFields fields = sortFields fields' ↔ fields.Perm fields' := by
  have hself := List.perm_insertionSort (fun p q : String × JsonForm => p.1 ≤ q.1)
  constructor
  · intro he
    exact (hself fields).symm.trans ((List.Perm.of_eq he).trans (hself fields'))
  · intro hperm
    refine ((hself fields).trans (hperm.trans (hself fields').symm)).eq_of_pairwise ?_
      (List.pairwise_insertionSort _ _) (List.pairwise_insertionSort _ _)
    intro p q hp hq hpq hqp
    have hq' := hperm.symm.subset ((hself fields').subset hq)
    exact List.inj_on_of_nodup_map h ((hself fields).subset hp) hq' (le_antisymm hpq hqp)

/-- Objects have the same form exactly when they say the same under each key. -/
theorem Json.form_obj_iff {fields fields' : Dict} (h : (fields.map Prod.fst).Nodup) (h' : (fields'.map Prod.fst).Nodup) :
    Json.form (.obj fields) = Json.form (.obj fields') ↔
      ∀ key, (fields.lookup key).map Json.form = (fields'.lookup key).map Json.form := by
  rw [← Json.keys_formFields] at h h'
  rw [Json.form,Json.form,JsonForm.obj.injEq,sortFields_eq_iff h]
  simp only [← Json.lookup_formFields]
  exact ⟨Keyed.lookup_perm h,Keyed.perm_of_lookup h h'⟩

namespace Merge

theorem nodup_newItems (seen items : List Json) : (newItems seen items).Nodup := by
  induction items generalizing seen with
  | nil => exact List.nodup_nil
  | cons v vs ih =>
    by_cases hv : v ∈ seen
    · rw [newItems,if_pos hv]
      exact ih seen
    · rw [newItems,if_neg hv]
      refine List.nodup_cons.mpr ⟨fun hmem => ?_,ih _⟩
      exact ((mem_newItems _ _ _).mp hmem).1 List.mem_cons_self

/-- No two items of a joined list agree under `f` exactly when no two of the first list do and
those of all lists that do are the same. -/
theorem nodup_map_join {β : Type} (f : Json → β) (first more : List Json) :
    ((first ++ newItems first more).map f).Nodup ↔
      (first.map f).Nodup ∧ ∀ a ∈ first ++ more, ∀ b ∈ first ++ more, f a = f b → a = b := by
  constructor
  · intro h
    constructor
    · rw [List.map_append] at h
      exact h.of_append_left
    · intro a ha b hb hab
      rw [← mem_append_newItems] at ha hb
      exact List.inj_on_of_nodup_map h ha hb hab
  · rintro ⟨hfirst,hinj⟩
    have hnodup : (first ++ newItems first more).Nodup :=
      List.nodup_append'.mpr ⟨hfirst.of_map,nodup_newItems first more,
        fun x hx hnew => ((mem_newItems _ _ _).mp hnew).1 hx⟩
    refine hnodup.map_on fun a ha b hb hab => ?_
    rw [mem_append_newItems] at ha hb
    exact hinj a ha b hb hab

theorem listItems_map_arr (lists : List (List Json)) : listItems (lists.map .arr) = lists.flatten := by
  rw [listItems,List.flatMap_map,List.flatten_eq_flatMap]
  rfl

/-- The merged list of a field has every item of its lists and no two equal items exactly when
the first list has no two equal items and equal items of the lists are printed alike. -/
theorem merged_union_iff {docType : String} {s : Schema} (hs : SchemaRegistry.getSchema docType = .ok s) {name : String}
    (hname : name ∈ s.fields.map FieldInfo.name) (perPage : List (Dict × ℕ)) {first : List Json}
    {later : List (List Json)} (hvalues : usefulValues perPage name = (first :: later).map .arr) :
    ∃ m items, mergeResults perPage docType = .ok m ∧ m.merged.lookup name = some (.arr items) ∧
      ((∀ v ∈ (first :: later).flatten, ∃ x ∈ items, x.form = v.form) ∧ (items.map Json.form).Nodup ↔
        (first.map Json.form).Nodup ∧
          ∀ a ∈ (first :: later).flatten, ∀ b ∈ (first :: later).flatten, a.form = b.form → a = b) := by
  have hfirst : isUsefulValue (.arr first) = true := by
    have hmem : Json.arr first ∈ usefulValues perPage name := hvalues ▸ List.mem_cons_self
    obtain ⟨p,-,hp⟩ := List.mem_filterMap.mp hmem
    exact (Option.filter_eq_some_iff.mp hp).2
  refine ⟨perPage.foldl (mergePage s) ⟨[],[]⟩,first ++ newItems first later.flatten,?_,?_,?_⟩
  · rw [mergeResults,hs]
    rfl
  · rw [lookup_mergePages (SchemaRegistry.names_nodup hs) hname,hvalues,← listItems_map_arr]
    exact foldl_keep_items (isUsefulValue_arr.mp hfirst) (later.map .arr)
  · rw [List.flatten_cons,← nodup_map_join]
    refine and_iff_right fun v hv => ⟨v,?_,rfl⟩
    rwa [mem_append_newItems]

/-- A deduction, and the same with its keys the other way round. -/
def pension : Json := .obj [("name",.str "Pension"),("amount",.int 50)]
def pensionReordered : Json := .obj [("amount",.int 50),("name",.str "Pension")]

theorem pension_form : pensionReordered.form = pension.form := by
  refine (Json.form_obj_iff (by decide) (by decide)).mpr fun key => ?_
  by_cases hname : key = "name"
  · subst hname
    rfl
  by_cases hamount : key = "amount"
  · subst hamount
    rfl
  · rw [Keyed.lookup_cons_ne hamount,Keyed.lookup_cons_ne hname,Keyed.lookup_cons_ne hname,
      Keyed.lookup_cons_ne hamount]

/-- A deduction that the first page repeats, and one that two pages print differently, are
twice in the merged list. -/
theorem merged_repeats :
    (∃ m items, mergeResults [([("deductions",.arr [pension,pension])],0)] "payslip" = .ok m ∧
      m.merged.lookup "deductions" = some (.arr items) ∧ ¬(items.map Json.form).Nodup) ∧
    ∃ m items, mergeResults [([("deductions",.arr [pension])],0),([("deductions",.arr [pensionReordered])],1)]
        "payslip" = .ok m ∧
      m.merged.lookup "deductions" = some (.arr items) ∧ ¬(items.map Json.form).Nodup := by
  refine ⟨⟨_,[pension,pension],rfl,by decide,by simp⟩,_,[pension,pensionReordered],rfl,by decide,?_⟩
  simp [pension_form]

/-- Two pages with a deduction each, different ones. -/
theorem merged_union_payslip : ∃ m items,
    mergeResults [([("deductions",.arr [pension])],0),([("deductions",.arr [.null,pension])],1)] "payslip" = .ok m ∧
      m.merged.lookup "deductions" = some (.arr items) ∧ (items.map Json.form).Nodup := by
  have hs : SchemaRegistry.getSchema "payslip" = .ok Documents.payslipSchema := rfl
  have hname : "deductions" ∈ Documents.payslipSchema.fields.map FieldInfo.name := by decide
  have hvalues : usefulValues [([("deductions",.arr [pension])],0),([("deductions",.arr [.null,pension])],1)]
      "deductions" = ([pension] :: [[.null,pension]]).map .arr := by decide
  obtain ⟨m,items,hm,hitems,hiff⟩ := merged_union_iff hs hname _ hvalues
  refine ⟨m,items,hm,hitems,(hiff.mpr ⟨by simp,?_⟩).2⟩
  simp [pension,Json.form]

end Merge

end StructuredExtractor
