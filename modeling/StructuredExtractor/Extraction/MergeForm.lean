import StructuredExtractor.Extraction.MergedFields
import StructuredExtractor.Extraction.Pages
import StructuredExtractor.Library.Tally

/-! # The closed form of the merge

What the nested loops of the merge come to, field by field: the value, by the useful
values of the field in page order, and the pages that set, replaced or extended it.
-/
namespace StructuredExtractor.Merge

/-- The useful values of a field with their pages. -/
def usefulPages (perPage : List (Dict × ℕ)) (name : String) : List (Json × ℕ) :=
  perPage.filterMap fun p => ((p.1.lookup name).filter isUsefulValue).map (·,p.2)

def strippedLength (s : String) : ℕ := (Text.strip s).toList.length

/-- The strings among some values. -/
def strings (values : List Json) : List String :=
  values.filterMap fun v => match v with
    | .str s => some s
    | _ => none

/-- The items of the lists among some values. -/
def listItems (values : List Json) : List Json :=
  values.flatMap fun v => match v with
    | .arr items => items
    | _ => []

/-- A string of some strings that is longer than those before it and as long as those after it. -/
def FirstLongest (ss : List String) (s : String) : Prop :=
  ∃ before after, ss = before ++ s :: after ∧ (∀ t ∈ before, strippedLength t < strippedLength s) ∧
    ∀ t ∈ after, strippedLength t ≤ strippedLength s

/-- The merged value of a field, by its useful values. -/
def IsMerged : List Json → Option Json → Prop
  | [], merged => merged = none
  | .arr items :: later, merged =>
    merged = some (.arr (items ++ ((listItems later).filter (· ∉ items)).eraseDups))
  | .str s :: later, merged => ∃ t, merged = some (.str t) ∧ FirstLongest (s :: strings later) t
  | v :: _, merged => merged = some v

/-- Whether a useful value sets, replaces or extends what the values before it came to. -/
def Contributes : List Json → Json → Prop
  | [], _ => True
  | .arr items :: earlier, .arr candidate => ∃ x ∈ candidate, x ∉ items ++ listItems earlier
  | .str s :: earlier, .str candidate => ∀ t ∈ s :: strings earlier, strippedLength t < strippedLength candidate
  | _, _ => False

section Values

/-- The items that are not seen, each once. -/
theorem newItems_eq (seen items : List Json) : newItems seen items = (items.filter (· ∉ seen)).eraseDups := by
  induction items generalizing seen with
  | nil => rfl
  | cons v vs ih =>
    by_cases hv : v ∈ seen
    · rw [newItems,if_pos hv,ih,List.filter_cons_of_neg (by simpa using hv)]
    · rw [newItems,if_neg hv,ih,List.filter_cons_of_pos (by simpa using hv),List.eraseDups_cons,List.filter_filter]
      refine congrArg (fun l => v :: List.eraseDups l) (List.filter_congr fun x _ => ?_)
      simp [beq_eq_decide]

theorem newItems_congr {seen seen' : List Json} (h : ∀ x, x ∈ seen ↔ x ∈ seen') (items : List Json) :
    newItems seen items = newItems seen' items := by
  rw [newItems_eq,newItems_eq]
  exact congrArg List.eraseDups (List.filter_congr fun x _ => decide_eq_decide.mpr (not_congr (h x)))

/-- What is new of two lists is new of the first, and of the second after it. -/
theorem newItems_append (seen items more : List Json) :
    newItems seen (items ++ more) = newItems seen items ++ newItems (seen ++ newItems seen items) more := by
  have hseen : ∀ x, x ∈ seen ++ newItems seen items ↔ x ∈ seen ++ items := fun x => by
    by_cases hx : x ∈ seen <;> simp [mem_newItems,hx]
  have hmore : (more.filter (· ∉ seen)).removeAll (items.filter (· ∉ seen)) = more.filter (· ∉ seen ++ items) := by
    rw [List.removeAll,List.filter_filter]
    refine List.filter_congr fun x _ => ?_
    by_cases hx : x ∈ seen <;> simp [hx]
  rw [newItems_congr hseen,newItems_eq,newItems_eq,newItems_eq,List.filter_append,List.eraseDups_append,hmore]

/-- A list takes in the lists that follow. -/
theorem foldl_keep_items {items : List Json} (hi : items ≠ []) (later : List Json) :
    later.foldl keep (some (.arr items)) = some (.arr (items ++ newItems items (listItems later))) := by
  induction later generalizing items with
  | nil => simp [listItems,newItems]
  | cons c later ih =>
    rw [List.foldl_cons]
    by_cases hc : isList c = true
    · cases c with
      | arr candidate =>
        rw [keep_arr_arr,ih (by simp [hi]),List.append_assoc,← newItems_append]
        rfl
      | _ => cases hc
    · have hnone : listItems (c :: later) = listItems later := by
        cases c with
        | arr candidate => exact absurd rfl hc
        | _ => rfl
      rw [keep_other (isUsefulValue_arr.mpr hi) (fun h => hc h.2) (by simp),ih hi,hnone]

theorem longer_str (s c : String) :
    longer s (.str c) = if strippedLength s < strippedLength c then c else s := rfl

/-- The longer of a string and what follows is the first longest of the strings. -/
theorem foldl_longer_first (s : String) (later : List Json) :
    FirstLongest (s :: strings later) (later.foldl longer s) := by
  induction later using List.reverseRecOn with
  | nil => exact ⟨[],[],rfl,by simp,by simp⟩
  | append_singleton later v ih =>
    obtain ⟨before,after,hsplit,hbefore,hafter⟩ := ih
    rw [List.foldl_append,List.foldl_cons,List.foldl_nil]
    have hstrings : strings (later ++ [v]) = strings later ++ strings [v] := List.filterMap_append
    rw [hstrings,← List.cons_append,hsplit]
    cases v with
    | str c =>
      have hc : strings [.str c] = [c] := rfl
      rw [hc]
      by_cases h : strippedLength (later.foldl longer s) < strippedLength c
      · refine ⟨before ++ later.foldl longer s :: after,[],?_,fun t ht => ?_,by simp⟩
        · rw [longer_str,if_pos h]
        · rw [longer_str,if_pos h]
          rcases List.mem_append.mp ht with ht | ht
          · exact (hbefore t ht).trans h
          rcases List.mem_cons.mp ht with rfl | ht
          · exact h
          · exact (hafter t ht).trans_lt h
      · refine ⟨before,after ++ [c],?_,?_,?_⟩
        · rw [longer_str,if_neg h,List.append_assoc,List.cons_append]
        · rwa [longer_str,if_neg h]
        · rw [longer_str,if_neg h]
          intro t ht
          rcases List.mem_append.mp ht with ht | ht
          · exact hafter t ht
          · obtain rfl := List.mem_singleton.mp ht
            exact not_lt.mp h
    | _ => exact ⟨before,after,by simp [strings,longer],hbefore,hafter⟩

/-- What the merge keeps of the useful values of a field. -/
theorem isMerged_foldl {values : List Json} (hu : ∀ v ∈ values, isUsefulValue v = true) :
    IsMerged values (values.foldl keep none) := by
  cases values with
  | nil => rfl
  | cons first later =>
    have hfirst := hu first List.mem_cons_self
    change IsMerged _ (later.foldl keep (some first))
    cases first with
    | arr items =>
      rw [foldl_keep_items (isUsefulValue_arr.mp hfirst) later,newItems_eq]
      rfl
    | str s =>
      rw [foldl_keep_str hfirst later]
      exact ⟨_,rfl,foldl_longer_first s later⟩
    | _ => exact foldl_keep_other hfirst rfl (by simp) later

/-- What a list comes to has the items of all lists. -/
theorem mem_append_newItems (items more : List Json) (x : Json) :
    x ∈ items ++ newItems items more ↔ x ∈ items ++ more := by
  by_cases hx : x ∈ items <;> simp [mem_newItems,hx]

theorem FirstLongest.le {ss : List String} {s t : String} (h : FirstLongest ss s) (ht : t ∈ ss) :
    strippedLength t ≤ strippedLength s := by
  obtain ⟨before,after,rfl,hbefore,hafter⟩ := h
  rcases List.mem_append.mp ht with ht | ht
  · exact (hbefore t ht).le
  rcases List.mem_cons.mp ht with rfl | ht
  · exact le_rfl
  · exact hafter t ht

theorem FirstLongest.mem {ss : List String} {s : String} (h : FirstLongest ss s) : s ∈ ss := by
  obtain ⟨before,after,rfl,-⟩ := h
  exact List.mem_append_right before List.mem_cons_self

theorem replacement_arr_isSome (current candidate : List Json) :
    (replacement (.arr current) (.arr candidate)).isSome ↔ ∃ x ∈ candidate, x ∉ current := by
  have hnew : newItems current candidate ≠ [] ↔ ∃ x ∈ candidate, x ∉ current := by
    rw [ne_eq,List.eq_nil_iff_forall_not_mem,not_forall_not]
    exact exists_congr fun x => (mem_newItems current candidate x).trans and_comm
  rw [← hnew]
  by_cases h : newItems current candidate = [] <;> simp [replacement,uniqueListItems,h]

theorem replacement_str_isSome {s : String} (hs : isUsefulValue (.str s) = true) (c : String) :
    (replacement (.str s) (.str c)).isSome ↔ strippedLength s < strippedLength c := by
  by_cases h : (Text.strip s).toList.length < (Text.strip c).toList.length <;>
    simp [replacement,isMoreComplete,hs,strippedLength,h]

/-- A value contributes exactly when it replaces what is there. -/
theorem contributes_iff {values : List Json} (hu : ∀ v ∈ values, isUsefulValue v = true) {current : Json}
    (hcurrent : values.foldl keep none = some current) (v : Json) :
    Contributes values v ↔ (replacement current v).isSome := by
  have hmerged := isMerged_foldl hu
  rw [hcurrent] at hmerged
  cases values with
  | nil => cases hcurrent
  | cons first later =>
    have hfirst := hu first List.mem_cons_self
    have hother : ∀ c, isUsefulValue c = true → ¬(isList c = true ∧ isList v = true) →
        (¬∃ a b, c = .str a ∧ v = .str b) → (False ↔ (replacement c v).isSome) := by
      intro c hc harr hstr
      rw [replacement_other hc harr hstr]
      exact iff_of_false id Bool.false_ne_true
    cases first with
    | arr items =>
      rw [IsMerged,← newItems_eq] at hmerged
      obtain rfl := Option.some.inj hmerged
      cases v with
      | arr candidate =>
        rw [replacement_arr_isSome]
        exact exists_congr fun x => and_congr_right fun _ =>
          not_congr (mem_append_newItems items (listItems later) x).symm
      | _ => exact hother _ (by simp_all [isUsefulValue]) (fun h => by cases h.2) (by simp)
    | str s =>
      obtain ⟨t,ht,hlongest⟩ := hmerged
      obtain rfl := Option.some.inj ht
      have htrue : isUsefulValue (.str t) = true := by
        obtain ⟨w,hw,huseful⟩ := foldl_keep_useful (fun w hw => hu w (List.mem_cons_of_mem _ hw)) hfirst
        cases hw.symm.trans hcurrent
        exact huseful
      cases v with
      | str c =>
        rw [replacement_str_isSome htrue]
        exact ⟨fun h => h t hlongest.mem,fun h t' ht' => (hlongest.le ht').trans_lt h⟩
      | _ => exact hother _ htrue (fun h => by cases h.1) (by simp)
    | _ =>
      obtain rfl := Option.some.inj hmerged
      exact hother _ hfirst (fun h => by cases h.1) (by simp)

end Values

section Provenance

/-- The value of a field and its pages when one more useful value comes. -/
def track (entry : Option (Json × List ℕ)) (p : Json × ℕ) : Option (Json × List ℕ) :=
  match entry with
  | none => some (p.1,[p.2])
  | some (current,pages) => match replacement current p.1 with
    | none => some (current,pages)
    | some v => some (v,appendSourcePage pages p.2)

namespace Merged

/-- What the two maps have for a field. -/
def entry (m : Merged) (name : String) : Option (Json × List ℕ) :=
  (m.merged.lookup name).bind fun v => (m.fieldSourcePages.lookup name).map fun pages => (v,pages)

/-- The two maps have the same keys, each once. -/
structure InStep (m : Merged) : Prop where
  keys : m.fieldSourcePages.map Prod.fst = m.merged.map Prod.fst
  nodup : (m.merged.map Prod.fst).Nodup

theorem InStep.pages {m : Merged} (h : m.InStep) {name : String} {v : Json} (hv : m.merged.lookup name = some v) :
    ∃ pages, m.fieldSourcePages.lookup name = some pages := by
  rw [← Option.isSome_iff_exists,Keyed.lookup_isSome_iff,h.keys,← Keyed.lookup_isSome_iff,hv]
  rfl

theorem InStep.value {m : Merged} (h : m.InStep) {name : String} {pages : List ℕ}
    (hpages : m.fieldSourcePages.lookup name = some pages) : ∃ v, m.merged.lookup name = some v := by
  rw [← Option.isSome_iff_exists,Keyed.lookup_isSome_iff,← h.keys,← Keyed.lookup_isSome_iff,hpages]
  rfl

theorem InStep.no_pages {m : Merged} (h : m.InStep) {name : String} (hv : m.merged.lookup name = none) :
    m.fieldSourcePages.lookup name = none := by
  rw [← Option.not_isSome_iff_eq_none,Keyed.lookup_isSome_iff,h.keys,← Keyed.lookup_isSome_iff,hv]
  exact Bool.false_ne_true

theorem InStep.entry_isSome {m : Merged} (h : m.InStep) {name : String} :
    (m.entry name).isSome ↔ name ∈ m.merged.map Prod.fst := by
  rw [← Keyed.lookup_isSome_iff,entry]
  cases hv : m.merged.lookup name with
  | none => rfl
  | some v =>
    obtain ⟨pages,hpages⟩ := h.pages hv
    simp [hpages]

theorem entry_eq_some {m : Merged} {name : String} {v : Json} {pages : List ℕ} :
    m.entry name = some (v,pages) ↔ m.merged.lookup name = some v ∧ m.fieldSourcePages.lookup name = some pages := by
  simp [entry,Option.bind_eq_some_iff,and_comm]

end Merged

/-- What one page does to the maps for one field. -/
theorem mergeField_cases (page : Dict) (i : ℕ) (m : Merged) (name : String) :
    ((page.lookup name).filter isUsefulValue = none ∧ mergeField page i m name = m) ∨
    ∃ v, (page.lookup name).filter isUsefulValue = some v ∧
      ((m.merged.lookup name = none ∧
        mergeField page i m name = ⟨m.merged ++ [(name,v)],m.fieldSourcePages ++ [(name,[i])]⟩) ∨
      ∃ current, m.merged.lookup name = some current ∧
        ((replacement current v = none ∧ mergeField page i m name = m) ∨
        ∃ w, replacement current v = some w ∧
          mergeField page i m name = ⟨Keyed.modify name (fun _ => w) m.merged,
            Keyed.modify name (appendSourcePage · i) m.fieldSourcePages⟩)) := by
  unfold mergeField
  cases page.lookup name with
  | none => exact .inl ⟨rfl,rfl⟩
  | some v =>
    cases hu : isUsefulValue v with
    | false => exact .inl ⟨by simp [Option.filter,hu],by simp [hu]⟩
    | true =>
      refine .inr ⟨v,by simp [Option.filter,hu],?_⟩
      cases hm : m.merged.lookup name with
      | none => exact .inl ⟨rfl,by simp [hu]⟩
      | some current =>
        refine .inr ⟨current,rfl,?_⟩
        cases hr : replacement current v with
        | none => exact .inl ⟨rfl,by simp [hu,hr]⟩
        | some w => exact .inr ⟨w,rfl,by simp [hu,hr]⟩

theorem inStep_mergeField {m : Merged} (h : m.InStep) (page : Dict) (i : ℕ) (name : String) :
    (mergeField page i m name).InStep := by
  obtain ⟨-,hm⟩ | ⟨v,-,⟨hnone,hm⟩ | ⟨current,-,⟨-,hm⟩ | ⟨w,-,hm⟩⟩⟩ := mergeField_cases page i m name
  · rwa [hm]
  · have hnew : name ∉ m.merged.map Prod.fst := by
      rw [← Keyed.lookup_isSome_iff,hnone]
      exact Bool.false_ne_true
    rw [hm]
    constructor
    · simp [h.keys]
    · dsimp only
      rw [List.map_append]
      exact List.nodup_append_comm.mp (List.nodup_cons.mpr ⟨hnew,h.nodup⟩)
  · rwa [hm]
  · rw [hm]
    constructor
    · rw [Keyed.keys_modify,Keyed.keys_modify,h.keys]
    · rw [Keyed.keys_modify]
      exact h.nodup

theorem entry_mergeField {m : Merged} (h : m.InStep) (page : Dict) (i : ℕ) (name key : String) :
    (mergeField page i m name).entry key =
      if key = name then ((page.lookup name).filter isUsefulValue).elim (m.entry key) fun v => track (m.entry key) (v,i)
      else m.entry key := by
  obtain ⟨hp,hm⟩ | ⟨v,hp,⟨hnone,hm⟩ | ⟨current,hsome,⟨hr,hm⟩ | ⟨w,hr,hm⟩⟩⟩ := mergeField_cases page i m name <;>
    rw [hm,hp]
  · simp
  · by_cases hk : key = name
    · subst hk
      simp [Merged.entry,track,Keyed.lookup_append_new,hnone,h.no_pages hnone]
    · simp [hk,Merged.entry,Keyed.lookup_append_new,hnone,h.no_pages hnone]
  · obtain ⟨pages,hpages⟩ := h.pages hsome
    by_cases hk : key = name
    · subst hk
      simp [Merged.entry,track,hsome,hpages,hr]
    · simp [hk]
  · obtain ⟨pages,hpages⟩ := h.pages hsome
    by_cases hk : key = name
    · subst hk
      simp [Merged.entry,track,Keyed.lookup_modify,hsome,hpages,hr]
    · simp [hk,Merged.entry,Keyed.lookup_modify]

theorem mergeFields_spec (page : Dict) (i : ℕ) {names : List String} (hn : names.Nodup) {m : Merged}
    (h : m.InStep) : (names.foldl (mergeField page i) m).InStep ∧
      ∀ key, (names.foldl (mergeField page i) m).entry key =
        if key ∈ names then ((page.lookup key).filter isUsefulValue).elim (m.entry key) fun v => track (m.entry key) (v,i)
        else m.entry key := by
  induction names generalizing m with
  | nil => exact ⟨h,fun key => (if_neg List.not_mem_nil).symm⟩
  | cons name names ih =>
    obtain ⟨hname,hn⟩ := List.nodup_cons.mp hn
    obtain ⟨hstep,hentry⟩ := ih hn (inStep_mergeField h page i name)
    refine ⟨hstep,fun key => ?_⟩
    rw [List.foldl_cons,hentry,entry_mergeField h]
    by_cases hk : key = name
    · subst hk
      simp [hname]
    · simp [hk]

/-- Both maps, from the useful values of each field with their pages. -/
theorem mergePages_spec {s : Schema} (hn : (s.fields.map FieldInfo.name).Nodup) (perPage : List (Dict × ℕ))
    {m : Merged} (h : m.InStep) : (perPage.foldl (mergePage s) m).InStep ∧
      ∀ key, (perPage.foldl (mergePage s) m).entry key =
        if key ∈ s.fields.map FieldInfo.name then (usefulPages perPage key).foldl track (m.entry key)
        else m.entry key := by
  induction perPage generalizing m with
  | nil => exact ⟨h,fun key => by simp [usefulPages]⟩
  | cons p perPage ih =>
    obtain ⟨hpage,hkeys⟩ := mergeFields_spec p.1 p.2 hn h
    obtain ⟨hstep,hentry⟩ := ih hpage
    refine ⟨hstep,fun key => ?_⟩
    rw [List.foldl_cons,mergePage,hentry,hkeys]
    by_cases hk : key ∈ s.fields.map FieldInfo.name
    · rw [if_pos hk,if_pos hk]
      cases huseful : (p.1.lookup key).filter isUsefulValue <;> simp [usefulPages,huseful,hk]
    · rw [if_neg hk,if_neg hk,if_neg hk]

/-- The pages of some useful values whose value set, replaced or extended what was there. -/
def Sources (values : List (Json × ℕ)) (n : ℕ) : Prop :=
  ∃ before v after, values = before ++ (v,n) :: after ∧ Contributes (before.map Prod.fst) v

theorem sources_append (values : List (Json × ℕ)) (v : Json) (i n : ℕ) :
    Sources (values ++ [(v,i)]) n ↔ Sources values n ∨ n = i ∧ Contributes (values.map Prod.fst) v := by
  constructor
  · rintro ⟨before,w,after,hsplit,hw⟩
    rcases List.eq_nil_or_concat after with rfl | ⟨after,last,rfl⟩
    · obtain ⟨rfl,hlast⟩ := List.append_inj' hsplit rfl
      cases hlast
      exact .inr ⟨rfl,hw⟩
    · rw [List.concat_eq_append,← List.cons_append,← List.append_assoc] at hsplit
      obtain ⟨rfl,-⟩ := List.append_inj' hsplit rfl
      exact .inl ⟨before,w,after,rfl,hw⟩
  · rintro (⟨before,w,after,rfl,hw⟩ | ⟨rfl,hv⟩)
    · exact ⟨before,w,after ++ [(v,i)],by simp,hw⟩
    · exact ⟨values,v,[],rfl,hv⟩

/-- A field that has useful values has what the merge keeps of them, and the pages of
those that set, replaced or extended it. -/
theorem foldl_track {values : List (Json × ℕ)} (hu : ∀ p ∈ values, isUsefulValue p.1 = true)
    (hinc : (values.map Prod.snd).Pairwise (· < ·)) :
    (values = [] ∧ values.foldl track none = none) ∨
      ∃ v pages, values.foldl track none = some (v,pages) ∧ (values.map Prod.fst).foldl keep none = some v ∧
        pages.Sublist (values.map Prod.snd) ∧ ∀ n, n ∈ pages ↔ Sources values n := by
  induction values using List.reverseRecOn with
  | nil => exact .inl ⟨rfl,rfl⟩
  | append_singleton values p ih =>
    obtain ⟨w,i⟩ := p
    refine .inr ?_
    rw [List.map_append,List.pairwise_append] at hinc
    have hbefore := fun p hp => hu p (List.mem_append_left _ hp)
    rw [List.map_append,List.map_append,List.foldl_append,List.foldl_append]
    rcases ih hbefore hinc.1 with ⟨rfl,-⟩ | ⟨v,pages,htrack,hkeep,hsub,hmem⟩
    · refine ⟨w,[i],rfl,rfl,List.Sublist.refl _,fun n => ?_⟩
      rw [sources_append,List.mem_singleton]
      constructor
      · intro hn
        exact .inr ⟨hn,trivial⟩
      · rintro (⟨before,_,_,hnil,-⟩ | ⟨hn,-⟩)
        · simp at hnil
        · exact hn
    · have hvalues : ∀ x ∈ values.map Prod.fst, isUsefulValue x = true := by
        intro x hx
        obtain ⟨p,hp,rfl⟩ := List.mem_map.mp hx
        exact hbefore p hp
      have hcontributes := contributes_iff hvalues hkeep w
      rw [htrack,hkeep]
      cases hr : replacement v w with
      | none =>
        rw [hr] at hcontributes
        refine ⟨v,pages,by simp [track,hr],by simp [keep,hr],hsub.trans (List.sublist_append_left _ _),fun n => ?_⟩
        rw [sources_append,hmem n]
        simp [hcontributes]
      | some x =>
        rw [hr] at hcontributes
        have hnew : i ∉ pages := fun hi => lt_irrefl i (hinc.2.2 i (hsub.subset hi) i (by simp))
        refine ⟨x,pages ++ [i],by simp [track,hr,appendSourcePage,hnew],by simp [keep,hr],
          hsub.append (List.Sublist.refl _),fun n => ?_⟩
        rw [sources_append,List.mem_append,hmem n,List.mem_singleton]
        simp [hcontributes]

theorem map_fst_usefulPages (perPage : List (Dict × ℕ)) (name : String) :
    (usefulPages perPage name).map Prod.fst = usefulValues perPage name := by
  rw [usefulPages,usefulValues,List.map_filterMap]
  refine List.filterMap_congr fun p _ => ?_
  cases (p.1.lookup name).filter isUsefulValue <;> rfl

theorem usefulPages_sublist (perPage : List (Dict × ℕ)) (name : String) :
    ((usefulPages perPage name).map Prod.snd).Sublist (perPage.map Prod.snd) := by
  induction perPage with
  | nil => exact List.Sublist.refl _
  | cons p perPage ih =>
    cases h : (p.1.lookup name).filter isUsefulValue with
    | none => simpa [usefulPages,h] using ih.cons p.2
    | some v => simpa [usefulPages,h] using ih.cons_cons p.2

theorem usefulPages_ne_nil {perPage : List (Dict × ℕ)} {name : String} : usefulPages perPage name ≠ [] ↔
    ∃ page ∈ perPage, ∃ v, page.1.lookup name = some v ∧ isUsefulValue v = true := by
  simp only [usefulPages,ne_eq,List.filterMap_eq_nil_iff,Option.map_eq_none_iff,not_forall,exists_prop]
  refine exists_congr fun page => and_congr_right fun _ => ?_
  rw [← ne_eq,Option.ne_none_iff_exists']
  exact exists_congr fun v => Option.filter_eq_some_iff

theorem useful_of_mem {perPage : List (Dict × ℕ)} {name : String} {p : Json × ℕ} (hp : p ∈ usefulPages perPage name) :
    isUsefulValue p.1 = true := by
  obtain ⟨q,-,hq⟩ := List.mem_filterMap.mp hp
  obtain ⟨v,hv,rfl⟩ := Option.map_eq_some_iff.mp hq
  exact (Option.filter_eq_some_iff.mp hv).2

end Provenance

section ClosedForm

/-- What the merge of some pages comes to, for the fields of a schema. -/
structure ClosedForm (s : Schema) (perPage : List (Dict × ℕ)) (m : Merged) : Prop where
  inStep : m.InStep
  keys : ∀ name, name ∈ m.merged.map Prod.fst ↔
    name ∈ s.fields.map FieldInfo.name ∧ ∃ page ∈ perPage, ∃ v, page.1.lookup name = some v ∧ isUsefulValue v = true
  values : ∀ name ∈ s.fields.map FieldInfo.name, IsMerged (usefulValues perPage name) (m.merged.lookup name)
  pages : ∀ name pages, m.fieldSourcePages.lookup name = some pages →
    pages.Pairwise (· < ·) ∧ ∀ n, n ∈ pages ↔ Sources (usefulPages perPage name) n

theorem closedForm {s : Schema} (hn : (s.fields.map FieldInfo.name).Nodup) {perPage : List (Dict × ℕ)}
    (hinc : (perPage.map Prod.snd).Pairwise (· < ·)) : ClosedForm s perPage (perPage.foldl (mergePage s) ⟨[],[]⟩) := by
  obtain ⟨hstep,hentry⟩ := mergePages_spec hn perPage (m := ⟨[],[]⟩) ⟨rfl,List.nodup_nil⟩
  have hincreasing := fun name => hinc.sublist (usefulPages_sublist perPage name)
  have huseful := fun name => foldl_track (fun _ => @useful_of_mem perPage name _) (hincreasing name)
  have hnone : ∀ name, Merged.entry ⟨[],[]⟩ name = none := fun _ => rfl
  constructor
  · exact hstep
  · intro name
    rw [← hstep.entry_isSome,hentry,hnone]
    by_cases hk : name ∈ s.fields.map FieldInfo.name
    · rw [if_pos hk,and_iff_right hk,← usefulPages_ne_nil]
      obtain ⟨hnil,htrack⟩ | ⟨v,pages,htrack,hkeep,-,-⟩ := huseful name
      · simp [hnil]
      · rw [htrack]
        refine iff_of_true rfl fun hnil => ?_
        rw [hnil] at hkeep
        cases hkeep
    · simp [hk]
  · intro name hname
    rw [lookup_mergePages hn hname]
    refine isMerged_foldl fun v hv => ?_
    rw [← map_fst_usefulPages] at hv
    obtain ⟨p,hp,rfl⟩ := List.mem_map.mp hv
    exact useful_of_mem hp
  · intro name pages hpages
    obtain ⟨v,hv⟩ := hstep.value hpages
    have hboth := Merged.entry_eq_some.mpr ⟨hv,hpages⟩
    rw [hentry,hnone] at hboth
    by_cases hk : name ∈ s.fields.map FieldInfo.name
    · rw [if_pos hk] at hboth
      obtain ⟨-,htrack⟩ | ⟨w,ns,htrack,-,hsub,hmem⟩ := huseful name
      · cases htrack.symm.trans hboth
      · cases htrack.symm.trans hboth
        exact ⟨(hincreasing name).sublist hsub,hmem⟩
    · rw [if_neg hk] at hboth
      cases hboth

end ClosedForm

section Run
open PageStrategyRunner

/-- The outputs come in the order of their pages, all before page `k`. -/
structure InOrder (perPage : List (Dict × ℕ)) (k : ℕ) : Prop where
  increasing : (perPage.map Prod.snd).Pairwise (· < ·)
  below : ∀ n ∈ perPage.map Prod.snd, n < k

theorem InOrder.mono {perPage : List (Dict × ℕ)} {k k' : ℕ} (h : InOrder perPage k) (hk : k ≤ k') :
    InOrder perPage k' := ⟨h.increasing,fun n hn => (h.below n hn).trans_le hk⟩

theorem InOrder.append {perPage : List (Dict × ℕ)} {k : ℕ} (h : InOrder perPage k) (d : Dict) :
    InOrder (perPage ++ [(d,k)]) (k + 1) := by
  constructor
  · rw [List.map_append]
    refine List.pairwise_append.mpr ⟨h.increasing,List.pairwise_singleton _ _,fun m hm n hn => ?_⟩
    obtain rfl := List.mem_singleton.mp hn
    exact h.below m hm
  · intro n hn
    rw [List.map_append,List.mem_append] at hn
    obtain hn | hn := hn
    · exact (h.below n hn).trans (Nat.lt_succ_self k)
    · obtain rfl := List.mem_singleton.mp hn
      exact Nat.lt_succ_self _

theorem inOrder_add {t t' : PageTotals} {k : ℕ} (h : InOrder t.perPage k) {x : Extracted}
    (hadd : t.add k x = .ok t') : InOrder t'.perPage (k + 1) := by
  unfold PageTotals.add at hadd
  split at hadd
  · cases hadd
    dsimp only
    split
    · exact h.append _
    · exact h.mono (Nat.le_succ k)
  · cases hadd

variable {V : (op : ModelOp) → Except Exc op.Reply → Prop} (extract : TextExtractor) (docType : String)

theorem given_pageStep {t : PageTotals} {page : String × ℕ} (h : InOrder t.perPage page.2) :
    (pageStep extract docType t page).Given V fun r => ∀ t', r = .ok t' → InOrder t'.perPage (page.2 + 1) := by
  have hlater : InOrder t.perPage (page.2 + 1) := h.mono (Nat.le_succ _)
  unfold pageStep
  split
  · rintro t' ⟨⟩
    exact hlater
  · refine Prog.given_bind (Prog.given_any _) (fun attempt _ => ?_) fun e _ t' he => by cases he
    cases attempt with
    | error e =>
      rintro t' ⟨⟩
      exact hlater
    | ok x => exact fun t' ht' => inOrder_add h ht'

theorem given_pages (pages : List String) (k : ℕ) {t : PageTotals} (h : InOrder t.perPage k) :
    ((pages.zipIdx k).foldlM (pageStep extract docType) t).Given V
      fun r => ∀ t', r = .ok t' → InOrder t'.perPage (k + pages.length) := by
  induction pages generalizing k t with
  | nil =>
    rintro t' ⟨⟩
    exact h
  | cons page pages ih =>
    rw [List.zipIdx_cons,List.foldlM_cons,List.length_cons,← Nat.add_assoc,Nat.add_right_comm]
    exact Prog.given_bind (given_pageStep extract docType h) (fun t' ht' => ih (k + 1) (ht' t' rfl))
      fun e _ t' he => by cases he

/-- The pages of the result are those that some field came from, in order. -/
theorem sourcePagesOf_spec {count : ℕ} {sources : List (String × List ℕ)} (hlt : ∀ p ∈ sources, ∀ n ∈ p.2, n < count) :
    (sourcePagesOf count sources).Pairwise (· < ·) ∧ ∀ n, n ∈ sourcePagesOf count sources ↔ ∃ p ∈ sources, n ∈ p.2 := by
  constructor
  · exact List.pairwise_lt_range.filter _
  · intro n
    simp only [sourcePagesOf,List.mem_filter,List.mem_range,List.any_eq_true,decide_eq_true_eq]
    exact ⟨fun h => h.2,fun ⟨p,hp,hn⟩ => ⟨hlt p hp n hn,p,hp,hn⟩⟩

theorem closedForm_finish {s : Schema} (hs : SchemaRegistry.getSchema docType = .ok s) {pages : List String}
    {t : PageTotals} (ht : InOrder t.perPage pages.length) {r : StrategyExtractionResult}
    (hr : finish pages docType t = .ok r) : ∃ m, mergeResults t.perPage docType = .ok m ∧ ClosedForm s t.perPage m ∧
      r.rawOutput = .obj m.merged ∧ r.fieldSourcePages = some m.fieldSourcePages ∧
      r.sourcePages.Pairwise (· < ·) ∧ ∀ n, n ∈ r.sourcePages ↔ ∃ p ∈ m.fieldSourcePages, n ∈ p.2 := by
  have hform := closedForm (SchemaRegistry.names_nodup hs) ht.increasing
  have hmerge : mergeResults t.perPage docType = .ok (t.perPage.foldl (mergePage s) ⟨[],[]⟩) := by
    rw [mergeResults,hs]
    rfl
  rw [finish,hmerge] at hr
  split at hr
  · cases hr
  · cases hr
    refine ⟨_,hmerge,hform,rfl,rfl,sourcePagesOf_spec fun p hp n hn => ?_⟩
    have hlook := (Keyed.mem_iff_lookup (hform.inStep.keys ▸ hform.inStep.nodup) p).mp hp
    obtain ⟨before,v,after,hsplit,-⟩ := ((hform.pages p.1 p.2 hlook).2 n).mp hn
    refine ht.below n ((usefulPages_sublist t.perPage p.1).subset ?_)
    rw [hsplit]
    simp

/-- **The merge of the pages has its closed form**, and a run of the page strategy returns
the merge of outputs in the order of their pages, with the pages that its fields came from. -/
theorem merge_closed_form {docType : String} {s : Schema} (hs : SchemaRegistry.getSchema docType = .ok s) :
    (∀ perPage : List (Dict × ℕ), (perPage.map Prod.snd).Pairwise (· < ·) →
      ∃ m, mergeResults perPage docType = .ok m ∧ ClosedForm s perPage m) ∧
    ∀ (σ : Type) (h : Handler ModelOp.Reply Exc σ) (extract : TextExtractor) (pages : List String) (st : σ) (r),
      ((extractPageByPage extract pages docType).run h st).1 = .ok r →
      ∃ perPage m, InOrder perPage pages.length ∧ mergeResults perPage docType = .ok m ∧ ClosedForm s perPage m ∧
        r.rawOutput = .obj m.merged ∧ r.fieldSourcePages = some m.fieldSourcePages ∧
        r.sourcePages.Pairwise (· < ·) ∧ ∀ n, n ∈ r.sourcePages ↔ ∃ p ∈ m.fieldSourcePages, n ∈ p.2 := by
  constructor
  · intro perPage hinc
    refine ⟨_,?_,closedForm (SchemaRegistry.names_nodup hs) hinc⟩
    rw [mergeResults,hs]
    rfl
  · intro σ h extract pages st r hr
    have hgiven : (extractPageByPage extract pages docType).Given (fun _ _ => True) fun o => ∀ r, o = .ok r →
        ∃ t : PageTotals, InOrder t.perPage pages.length ∧ finish pages docType t = .ok r := by
      refine Prog.given_bind (given_pages extract docType pages 0 ⟨List.Pairwise.nil,by simp [PageTotals.init]⟩)
        (fun t ht r hr => ⟨t,?_,hr⟩) fun e _ r he => by cases he
      have hin := ht t rfl
      rwa [Nat.zero_add] at hin
    obtain ⟨t,ht,hfinish⟩ := hgiven.run (fun _ _ => trivial) st r hr
    obtain ⟨m,hm⟩ := closedForm_finish docType hs ht hfinish
    exact ⟨t.perPage,m,ht,hm⟩

/-- A list that a later page extends, and a text that a later page replaces. -/
def itemPages : List (Dict × ℕ) :=
  [([("currency",.str "USD"),("line_items",.arr [.int 1,.int 1])],0),([("currency",.str " ")],2),
    ([("currency",.str " dollar "),("line_items",.arr [.int 2,.int 1,.int 2])],5)]

/-- The closed form on an invoice of three pages, and on a run of one page. -/
theorem merge_closed_form_invoice :
    (∃ m, mergeResults itemPages "invoice" = .ok m ∧ ClosedForm Documents.invoiceSchema itemPages m) ∧
      ∃ perPage m, InOrder perPage 1 ∧ mergeResults perPage "invoice" = .ok m ∧
        ClosedForm Documents.invoiceSchema perPage m ∧ Json.obj m.merged = .obj [("currency",.str "USD")] := by
  have hs : SchemaRegistry.getSchema "invoice" = .ok Documents.invoiceSchema := rfl
  have h := merge_closed_form hs
  refine ⟨h.1 itemPages (by decide),?_⟩
  obtain ⟨perPage,m,hin,hm,hform,hraw,-⟩ := h.2 Unit (fun _ s => (.error .keyError,s))
    (fun _ _ => pure ⟨.obj [("currency",.str "USD")],0,0⟩) ["USD"] () _ rfl
  exact ⟨perPage,m,hin,hm,hform,hraw.symm.trans rfl⟩

end Run

end StructuredExtractor.Merge
