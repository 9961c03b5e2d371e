import StructuredExtractor.Extraction.Merge
import StructuredExtractor.Schema.Recovery

/-! # What the merge keeps of a field

The merged value of a field depends on the useful values of that field alone, in
the order of their pages: the first of them, joined with the new items of the
later lists when it is a list, or replaced by the first longest string when it is
a string. Whether it is accepted depends on the values so kept.
-/
namespace StructuredExtractor.Merge

/-- The useful values of a field, in the order of the pages. -/
def usefulValues (perPage : List (Dict × ℕ)) (name : String) : List Json :=
  perPage.filterMap fun p => (p.1.lookup name).filter isUsefulValue

/-- The merged value of a field when one more useful value comes. -/
def keep (current : Option Json) (candidate : Json) : Option Json :=
  match current with
  | none => some candidate
  | some c => some ((replacement c candidate).getD c)

section Lookup

theorem lookup_mergeField (page : Dict) (i : ℕ) (m : Merged) (name key : String) :
    (mergeField page i m name).merged.lookup key =
      if key = name then ((page.lookup name).filter isUsefulValue).elim (m.merged.lookup key)
        (keep (m.merged.lookup key))
      else m.merged.lookup key := by
  unfold mergeField
  cases hp : page.lookup name with
  | none => simp
  | some c =>
    cases hu : isUsefulValue c with
    | false => simp [hu,Option.filter]
    | true =>
      cases hm : m.merged.lookup name with
      | none =>
        by_cases hk : key = name
        · subst hk; simp [hu,hm,Option.filter,keep,Keyed.lookup_append_new]
        · simp [hu,hk,hm,Keyed.lookup_append_new]
      | some cur =>
        by_cases hk : key = name
        · subst hk
          cases hr : replacement cur c <;> simp [hu,hm,hr,Option.filter,keep,Keyed.lookup_modify]
        · cases hr : replacement cur c <;> simp [hu,hr,hk,Keyed.lookup_modify]

theorem lookup_mergeFields (page : Dict) (i : ℕ) (names : List String) (hn : names.Nodup) (m : Merged)
    (key : String) : (names.foldl (mergeField page i) m).merged.lookup key =
      if key ∈ names then ((page.lookup key).filter isUsefulValue).elim (m.merged.lookup key)
        (keep (m.merged.lookup key))
      else m.merged.lookup key := by
  induction names generalizing m with
  | nil => simp
  | cons name names ih =>
    obtain ⟨hname,hn⟩ := List.nodup_cons.mp hn
    rw [List.foldl_cons,ih hn,lookup_mergeField]
    by_cases hk : key = name
    · subst hk; simp [hname]
    · simp [hk]

/-- The merged value of a field, from the useful values of that field alone. -/
theorem lookup_mergePages {s : Schema} (hn : (s.fields.map FieldInfo.name).Nodup) {name : String}
    (hname : name ∈ s.fields.map FieldInfo.name) (perPage : List (Dict × ℕ)) (m : Merged) :
    (perPage.foldl (mergePage s) m).merged.lookup name =
      (usefulValues perPage name).foldl keep (m.merged.lookup name) := by
  induction perPage generalizing m with
  | nil => rfl
  | cons p perPage ih =>
    rw [List.foldl_cons,ih,mergePage,lookup_mergeFields _ _ _ hn,if_pos hname]
    cases h : (p.1.lookup name).filter isUsefulValue <;> simp [usefulValues,h]

end Lookup

section Kept

def isList : Json → Bool
  | .arr _ => true
  | _ => false

/-- The longer of the two, the earlier one when they are as long. -/
def longer (current : String) : Json → String
  | .str s => if (Text.strip current).toList.length < (Text.strip s).toList.length then s else current
  | _ => current

/-- The values that the merge keeps of the useful values of a field: the first, and
with a list the later lists, or in place of a string the first longest one. -/
def kept : List Json → List Json
  | [] => []
  | .arr items :: later => .arr items :: later.filter isList
  | .str s :: later => [.str (later.foldl longer s)]
  | v :: _ => [v]

theorem isUsefulValue_str {s : String} : isUsefulValue (.str s) = true ↔ Text.strip s ≠ "" := by
  simp [isUsefulValue]

theorem isUsefulValue_arr {items : List Json} : isUsefulValue (.arr items) = true ↔ items ≠ [] := by
  simp [isUsefulValue]

theorem mem_newItems (seen items : List Json) (x : Json) :
    x ∈ newItems seen items ↔ x ∉ seen ∧ x ∈ items := by
  induction items generalizing seen with
  | nil => simp [newItems]
  | cons v vs ih =>
    by_cases hv : v ∈ seen
    · simp only [newItems,hv,if_true,ih,List.mem_cons]
      constructor
      · rintro ⟨hs,hx⟩; exact ⟨hs,Or.inr hx⟩
      · rintro ⟨hs,rfl | hx⟩
        · exact absurd hv hs
        · exact ⟨hs,hx⟩
    · simp only [newItems,hv,if_false,List.mem_cons,ih,not_or]
      constructor
      · rintro (rfl | ⟨⟨_,hs⟩,hx⟩)
        · exact ⟨hv,Or.inl rfl⟩
        · exact ⟨hs,Or.inr hx⟩
      · rintro ⟨hs,rfl | hx⟩
        · exact Or.inl rfl
        · by_cases hxv : x = v
          · exact Or.inl hxv
          · exact Or.inr ⟨⟨hxv,hs⟩,hx⟩

theorem keep_arr_arr (cur cand : List Json) :
    keep (some (.arr cur)) (.arr cand) = some (.arr (cur ++ newItems cur cand)) := by
  by_cases h : newItems cur cand = [] <;> simp [keep,replacement,uniqueListItems,h]

theorem keep_str_str {s : String} (hs : isUsefulValue (.str s) = true) (c : String) :
    keep (some (.str s)) (.str c) = some (.str (longer s (.str c))) := by
  by_cases h : (Text.strip s).toList.length < (Text.strip c).toList.length <;>
    simp [keep,replacement,isMoreComplete,hs,longer,h]

/-- A useful value stays when it and the candidate are neither two lists nor two strings. -/
theorem replacement_other {v c : Json} (hv : isUsefulValue v = true)
    (harr : ¬(isList v = true ∧ isList c = true)) (hstr : ¬∃ a b, v = .str a ∧ c = .str b) :
    replacement v c = none := by
  have hmore : isMoreComplete c v = false := by
    unfold isMoreComplete
    simp only [hv,Bool.not_true,Bool.false_eq_true,if_false]
    split
    · exact absurd ⟨_,_,rfl,rfl⟩ hstr
    · rfl
  unfold replacement
  split
  · exact absurd (And.intro rfl rfl) harr
  · simp [hmore]

theorem keep_other {v c : Json} (hv : isUsefulValue v = true)
    (harr : ¬(isList v = true ∧ isList c = true)) (hstr : ¬∃ a b, v = .str a ∧ c = .str b) :
    keep (some v) c = some v := by
  simp [keep,replacement_other hv harr hstr]

theorem longer_useful {s : String} (hs : isUsefulValue (.str s) = true) (c : Json) :
    isUsefulValue (.str (longer s c)) = true := by
  cases c with
  | str c =>
    by_cases h : (Text.strip s).toList.length < (Text.strip c).toList.length
    · simp only [longer,h,if_true,isUsefulValue_str]
      intro he
      simp [he] at h
    · simpa [longer,h] using hs
  | _ => exact hs

theorem foldl_keep_str {s : String} (hs : isUsefulValue (.str s) = true) (later : List Json) :
    later.foldl keep (some (.str s)) = some (.str (later.foldl longer s)) := by
  induction later generalizing s with
  | nil => rfl
  | cons c later ih =>
    rw [List.foldl_cons,List.foldl_cons,← ih (longer_useful hs c)]
    congr 1
    cases c with
    | str c => exact keep_str_str hs c
    | _ => exact keep_other hs (by simp [isList]) (by simp)

/-- A list that is kept has, in the end, its items and those of the later lists. -/
theorem foldl_keep_arr {items : List Json} (hi : items ≠ []) (later : List Json) :
    ∃ all, later.foldl keep (some (.arr items)) = some (.arr all) ∧
      ∀ x, x ∈ all ↔ ∃ l, (.arr l ∈ (.arr items :: later.filter isList)) ∧ x ∈ l := by
  induction later generalizing items with
  | nil => exact ⟨items,rfl,by simp⟩
  | cons c later ih =>
    rw [List.foldl_cons]
    by_cases hc : isList c = true
    · cases c with
      | arr cand =>
        rw [keep_arr_arr]
        obtain ⟨all,hall,hmem⟩ := @ih (items ++ newItems items cand) (by simp [hi])
        refine ⟨all,hall,fun x => (hmem x).trans ?_⟩
        simp only [List.filter_cons,hc,if_true,List.mem_cons,Json.arr.injEq,or_and_right,exists_or,
          exists_eq_left,List.mem_append,mem_newItems]
        tauto
      | _ => simp [isList] at hc
    · have hkeep : keep (some (.arr items)) c = some (.arr items) :=
        keep_other (isUsefulValue_arr.mpr hi) (fun h => hc h.2) (by simp)
      obtain ⟨all,hall,hmem⟩ := ih hi
      refine ⟨all,by rw [hkeep]; exact hall,fun x => (hmem x).trans ?_⟩
      simp [hc]

theorem foldl_keep_other {v : Json} (hv : isUsefulValue v = true) (harr : isList v = false)
    (hstr : ¬∃ s, v = .str s) (later : List Json) : later.foldl keep (some v) = some v := by
  induction later with
  | nil => rfl
  | cons c later ih =>
    rw [List.foldl_cons,keep_other hv (by simp [harr]) fun ⟨a,_,ha,_⟩ => hstr ⟨a,ha⟩]
    exact ih

/-- A useful value is replaced by a useful one. -/
theorem replacement_useful {cur c v : Json} (hc : isUsefulValue c = true)
    (h : replacement cur c = some v) : isUsefulValue v = true := by
  unfold replacement at h
  split at h
  · dsimp only at h
    split at h <;> cases h
    next hnew => simp [isUsefulValue_arr,hnew]
  · split at h <;> cases h
    exact hc

theorem foldl_keep_useful {values : List Json} (hu : ∀ v ∈ values, isUsefulValue v = true)
    {first : Json} (hfirst : isUsefulValue first = true) :
    ∃ v, values.foldl keep (some first) = some v ∧ isUsefulValue v = true := by
  induction values generalizing first with
  | nil => exact ⟨first,rfl,hfirst⟩
  | cons c values ih =>
    have hrest := fun v hv => hu v (List.mem_cons_of_mem c hv)
    rw [List.foldl_cons]
    cases hr : replacement first c with
    | none => simpa [keep,hr] using ih hrest hfirst
    | some v => simpa [keep,hr] using ih hrest (replacement_useful (hu c List.mem_cons_self) hr)

end Kept

section Valid
variable {P : Pydantic} {u : Unicode} {f : FieldInfo}

/-- A field takes the merged value exactly when it takes all that was kept. -/
theorem accepts_keep_iff (hP : P.RefusesLists) {values : List Json}
    (hu : ∀ v ∈ values, isUsefulValue v = true) {v : Json} (h : values.foldl keep none = some v) :
    P.accepts u f v = true ↔ ∀ w ∈ kept values, P.accepts u f w = true := by
  cases values with
  | nil => cases h
  | cons first later =>
    have hfirst := hu first List.mem_cons_self
    change later.foldl keep (some first) = some v at h
    cases first with
    | arr items =>
      obtain ⟨all,hall,hmem⟩ := foldl_keep_arr (isUsefulValue_arr.mp hfirst) later
      cases hall.symm.trans h
      simp only [kept]
      cases hf : f.annotation with
      | leaf l => simp [Pydantic.accepts_leaf_arr hP hf]
      | list i =>
        constructor
        · intro hacc w hw
          obtain ⟨l,rfl⟩ : ∃ l, w = .arr l := by
            rcases List.mem_cons.mp hw with rfl | hw
            · exact ⟨items,rfl⟩
            · have hl := List.of_mem_filter hw
              cases w with
              | arr l => exact ⟨l,rfl⟩
              | _ => simp [isList] at hl
          rw [Pydantic.accepts_list_iff hf] at hacc ⊢
          exact fun x hx => hacc x ((hmem x).mpr ⟨l,hw,hx⟩)
        · intro hacc
          rw [Pydantic.accepts_list_iff hf]
          intro x hx
          obtain ⟨l,hl,hxl⟩ := (hmem x).mp hx
          exact (Pydantic.accepts_list_iff hf l).mp (hacc _ hl) x hxl
    | str s =>
      cases (foldl_keep_str hfirst later).symm.trans h
      simp [kept]
    | _ =>
      cases (foldl_keep_other hfirst rfl (by simp) later).symm.trans h
      simp [kept]

/-- **The merged value of a field.** It is there when some page has a useful value;
it is accepted exactly when the values that the merge keeps are, and then the
field is not null in what validation makes of the merged output. -/
theorem mergeResults_field {docType : String} {s : Schema}
    (hs : SchemaRegistry.getSchema docType = .ok s) (hf : f ∈ s.fields) (hP : P.RefusesLists)
    (perPage : List (Dict × ℕ)) :
    ∃ m, mergeResults perPage docType = .ok m ∧
      (m.merged.lookup f.name = none ↔ usefulValues perPage f.name = []) ∧
      ∀ v, m.merged.lookup f.name = some v →
        (P.accepts u f v = true ↔
          ∀ w ∈ kept (usefulValues perPage f.name), P.accepts u f w = true) ∧
        (P.accepts u f v = true →
          ∀ r, Validation.validateExtraction P u docType (.obj m.merged) = .ok r →
            ∃ data x, r.extractedData = some data ∧ data.lookup f.name = some x ∧ x ≠ .null) := by
  have hn := SchemaRegistry.names_nodup hs
  have hlook := lookup_mergePages hn (List.mem_map_of_mem hf) perPage ⟨[],[]⟩
  have huseful : ∀ v ∈ usefulValues perPage f.name, isUsefulValue v = true := by
    intro v hv
    obtain ⟨p,_,hp⟩ := List.mem_filterMap.mp hv
    exact (Option.filter_eq_some_iff.mp hp).2
  refine ⟨perPage.foldl (mergePage s) ⟨[],[]⟩,by simp [mergeResults,hs,bind,Except.bind,pure,Except.pure],
    ?_,fun v hv => ⟨?_,fun hacc r hr => ?_⟩⟩
  · rw [hlook]
    cases h : usefulValues perPage f.name with
    | nil => simp
    | cons first later =>
      rw [h] at huseful
      obtain ⟨v,hv,_⟩ := foldl_keep_useful (fun v hv => huseful v (List.mem_cons_of_mem _ hv))
        (huseful first List.mem_cons_self)
      rw [List.foldl_cons]
      simp [keep,hv]
  · exact accepts_keep_iff hP huseful (hlook ▸ hv)
  · refine Validation.validated_ne_null hs hf hv hacc ?_ hr
    rintro ⟨_,rfl⟩
    rw [hlook] at hv
    cases h : usefulValues perPage f.name with
    | nil => rw [h] at hv; cases hv
    | cons first later =>
      rw [h] at huseful hv
      obtain ⟨v,hv',hvu⟩ := foldl_keep_useful (fun v hv => huseful v (List.mem_cons_of_mem _ hv))
        (huseful first List.mem_cons_self)
      cases hv'.symm.trans hv
      simp [isUsefulValue] at hvu

def currencyField : FieldInfo := ⟨"currency",.leaf .text,true,true⟩
def currencyPages : List (Dict × ℕ) :=
  [([("currency",.str "USD")],0),([("currency",.str "US Dollars")],1)]

/-- One page has a valid currency, the merge takes the longer text of another, and
validation then has no currency. -/
theorem merge_loses_currency :
    currencyField ∈ Documents.invoiceSchema.fields ∧
      Pydantic.basic.accepts .ascii currencyField (.str "USD") = true ∧
      mergeResults currencyPages "invoice" =
        .ok ⟨[("currency",.str "US Dollars")],[("currency",[0,1])]⟩ ∧
      Pydantic.basic.accepts .ascii currencyField (.str "US Dollars") = false ∧
      (Validation.validateExtraction .basic .ascii "invoice"
        (.obj [("currency",.str "US Dollars")])).map ValidationResult.extractedData = .ok none := by
  decide

def usdPages : List (Dict × ℕ) :=
  [([("currency",.null)],0),([("currency",.str "USD")],1),([("currency",.str "EUR")],2)]

/-- The first of two currency codes is kept, and it is accepted. -/
theorem merge_keeps_usd : ∃ m, mergeResults usdPages "invoice" = .ok m ∧
    ∀ v, m.merged.lookup "currency" = some v →
      Pydantic.basic.accepts .ascii currencyField v = true := by
  obtain ⟨m,hm,_,hv⟩ := @mergeResults_field .basic .ascii currencyField "invoice"
    Documents.invoiceSchema rfl (by decide) Pydantic.basic_refusesLists usdPages
  exact ⟨m,hm,fun v h => (hv v h).1.mpr (by decide)⟩

end Valid

end StructuredExtractor.Merge
