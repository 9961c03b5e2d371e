import StructuredExtractor.Library.JsonSchema
import StructuredExtractor.Extraction.SchemaKeys

/-! # What a simplified schema says

The schema that a provider is sent says the same of a value as that of the model when
every union is read as the type that stands for it and patterns and formats count for
nothing. So an answer that is valid under what was sent is valid under the schema of the
model wherever the type of a union is enough for one of its branches.
-/
namespace StructuredExtractor.SimplifySchema
open JsonSchema

/-- Where a `$ref` leads. -/
def referenceOf (defs : Dict) : Json → Option Json
  | .str refPath => definition defs refPath
  | _ => none

/-- A schema as it stands; `A` is what its other keywords assert. -/
def asStated (A : String → Json → Json → Prop) (defs : Dict) : Reading where
  asserts := A
  refers := referenceOf defs
  branches := id

/-- Every union is read as the type that stands for it. -/
def byType (A : String → Json → Json → Prop) (defs : Dict) : Reading where
  asserts := A
  refers := referenceOf defs
  branches subs := [.obj [("type",primaryType subs)]]

/-- The keyword asserts nothing. -/
def AssertsNothing (A : String → Json → Json → Prop) (key : String) : Prop := ∀ arg v, A key arg v

/-- No property is named like a keyword that is dropped, nor is the value of a keyword that asserts
something rewritten; a union states no type beside its branches, and what stands beside a reference
is asserted as well or counts for nothing. -/
structure Plain (A : String → Json → Json → Prop) (defs node : Dict) : Prop where
  unions : ∀ subs, ("anyOf",.arr subs) ∈ node → "type" ∉ node.map Prod.fst
  properties : ∀ props, ("properties",.obj props) ∈ node →
    IsPropertyMap props ∧ ∀ key ∈ forbidden, key ∉ props.map Prod.fst
  others : ∀ p ∈ node, p.1 ∉ combining → p.2.objects = [] ∨ AssertsNothing A p.1
  beside : ∀ d, reference defs node = some d → ∀ p ∈ node, p.1 ≠ "$ref" →
    p.1 ∉ combining ∧ (HasKey defs p.1 d → AssertsNothing A p.1)

variable {A : String → Json → Json → Prop} {defs : Dict}

section Entries
variable {node : Dict}

/-- Without a type beside a union every keyword has its place in the result. -/
theorem lastWritten_of_mem (hn : (node.map Prod.fst).Nodup)
    (hunions : ∀ subs, ("anyOf",.arr subs) ∈ node → "type" ∉ node.map Prod.fst) {p : String × Json} (hp : p ∈ node) :
    LastWritten (written p) node p := by
  obtain ⟨q,hq⟩ := LastWritten.exists_iff.mpr (List.mem_map_of_mem (f := written) hp)
  obtain ⟨hmem,hwritten⟩ := hq.mem
  have htype : ∀ p q, p ∈ node → q ∈ node → isUnion p = true → written q = written p → q.1 = p.1 := by
    intro p q hp hq hunion hpq
    obtain ⟨subs,rfl,-⟩ := entry_of_union hunion
    cases hu : isUnion q with
    | true =>
      obtain ⟨subs',rfl,-⟩ := entry_of_union hu
      rfl
    | false =>
      have hkey : q.1 = "type" := by simpa [written,hu,hunion] using hpq
      exact absurd (List.mem_map.mpr ⟨q,hq,hkey⟩) (hunions subs hp)
  have hkey : q.1 = p.1 := by
    cases hu : isUnion p with
    | true => exact htype p q hp hmem hu hwritten
    | false =>
      cases hv : isUnion q with
      | true => exact (htype q p hmem hp hv hwritten.symm).symm
      | false =>
        rw [written,written,hu,hv] at hwritten
        exact hwritten
  have hlookup := (Keyed.mem_iff_lookup hn p).mp hp
  have hlookup' := (Keyed.mem_iff_lookup hn q).mp hmem
  rw [hkey,hlookup] at hlookup'
  obtain rfl : q = p := Prod.ext hkey (Option.some.inj hlookup').symm
  exact hq

theorem rebuilt_forall {f : Json → Except Exc Json} {fields : Dict} (h : rebuild f node = .ok (.obj fields))
    (hn : (node.map Prod.fst).Nodup) (hunions : ∀ subs, ("anyOf",.arr subs) ∈ node → "type" ∉ node.map Prod.fst)
    (K : String × Json → Prop) :
    (∀ q ∈ fields, K q) ↔ ∀ p ∈ node, ∀ q, entry f p = .ok q → q.1 ∉ forbidden → K q := by
  have hmem : ∀ q, q ∈ fields ↔ q.1 ∉ forbidden ∧ ∃ p, LastWritten q.1 node p ∧ entry f p = .ok q := fun q => by
    rw [Keyed.mem_iff_lookup (rebuilt_nodup h),rebuilt_lookup h]
  constructor
  · intro hall p hp q hq hkey
    refine hall q ((hmem q).mpr ⟨hkey,p,?_,hq⟩)
    rw [entry_written hq]
    exact lastWritten_of_mem hn hunions hp
  · intro hall q hq
    obtain ⟨hkey,p,hlast,he⟩ := (hmem q).mp hq
    exact hall p hlast.mem.1 q he hkey

end Entries

section Meaning
variable (hdefs : Definitions defs)
include hdefs

theorem simplification_scalar {v w : Json} (hv : v.objects = []) (h : simplification defs v = .ok w) : w = v := by
  induction acc hdefs.acyclic v generalizing w with
  | intro v _ ih =>
    cases v with
    | obj fields => cases hv
    | arr items =>
      rw [simplification_arr hdefs.acyclic] at h
      obtain ⟨ws,hws,rfl⟩ := map_eq_ok h
      congr 1
      refine List.ext_getElem (mapM_eq_ok.mp hws).length_eq.symm fun n hn hn' => ?_
      have hitem := (List.forall₂_iff_get.mp (mapM_eq_ok.mp hws)).2 n hn' hn
      refine ih _ (.item (List.getElem_mem hn')) ?_ hitem
      exact List.eq_nil_iff_forall_not_mem.mpr fun node hnode => by
        have hmem := Json.mem_objects_arr.mpr ⟨_,List.getElem_mem hn',hnode⟩
        rw [hv] at hmem
        cases hmem
    | _ =>
      rw [simplification_eq hdefs.acyclic] at h
      exact (Except.ok.inj h).symm

/-- Lists and only lists are simplified to lists. -/
theorem simplification_list {v : Json} {ws : List Json} (hv : Resolvable defs v)
    (h : simplification defs v = .ok (.arr ws)) : ∃ items, v = .arr items ∧
      items.mapM (simplification defs) = .ok ws := by
  cases v with
  | arr items =>
    rw [simplification_arr hdefs.acyclic] at h
    obtain ⟨ws',hws,heq⟩ := map_eq_ok h
    cases heq
    exact ⟨items,rfl,hws⟩
  | obj node =>
    obtain ⟨fields,hfields,-⟩ := keepsShape hdefs hv h
    cases hfields
  | _ => cases keepsShape hdefs hv h

omit hdefs in
theorem propertyMap_plain {props : Dict} (hprops : IsPropertyMap props) : ∀ p ∈ props, isUnion p = false := fun p hp => by
  cases hu : isUnion p with
  | false => rfl
  | true =>
    obtain ⟨subs,rfl,-⟩ := entry_of_union hu
    obtain ⟨d,hd⟩ | ⟨b,hb⟩ := hprops _ hp
    · cases hd
    · cases hb

omit hdefs in
theorem propertyMap_absent {props : Dict} (hv : Resolvable defs (.obj props)) (hprops : IsPropertyMap props) :
    "$ref" ∉ props.map Prod.fst := fun hmem => by
  obtain ⟨d,hd⟩ := hv.exists_reference hmem
  obtain ⟨refPath,hr,-⟩ := reference_eq_some.mp hd
  obtain ⟨d,hd⟩ | ⟨b,hb⟩ := hprops _ (Keyed.mem_of_lookup hr)
  · cases hd
  · cases hb

/-- The schemas of properties are simplified one by one. -/
theorem propertyMap_lookup {props props' : Dict} (hv : Resolvable defs (.obj props)) (hprops : IsPropertyMap props)
    (hnames : ∀ key ∈ forbidden, key ∉ props.map Prod.fst) (h : simplification defs (.obj props) = .ok (.obj props'))
    {name : String} {w : Json} : props'.lookup name = some w ↔
      ∃ s, props.lookup name = some s ∧ simplification defs s = .ok w := by
  have hschema := propertyMap_plain hprops
  rw [simplification_absent hdefs.acyclic (propertyMap_absent hv hprops)] at h
  rw [rebuilt_lookup h]
  constructor
  · rintro ⟨-,p,hlast,he⟩
    rw [entry_of_field (hschema p hlast.mem.1)] at he
    obtain ⟨w',hw',hp⟩ := map_eq_ok he
    cases hp
    exact ⟨p.2,(Keyed.mem_iff_lookup hv.nodup p).mp hlast.mem.1,hw'⟩
  · rintro ⟨s,hs,hw⟩
    have hp := Keyed.mem_of_lookup hs
    refine ⟨fun hkey => hnames name hkey (List.mem_map_of_mem hp),(name,s),?_,?_⟩
    · have hwritten : written (name,s) = name := by rw [written,hschema _ hp]; rfl
      have hlast := lastWritten_of_mem hv.nodup (fun subs hsub => by cases hschema _ hsub) hp
      rwa [hwritten] at hlast
    · rw [entry_of_field (hschema _ hp),hw]
      rfl

omit hdefs in
/-- What a schema applies, simplification comes to. -/
theorem applies_calls {node : Dict} (hs : Resolvable defs (.obj node)) (hplain : Plain A defs node) {t : Json}
    (ht : Applies (byType A defs) (.obj node) t) : Relation.TransGen (fun w v => Calls defs v w) t (.obj node) := by
  have hfield : ∀ {key arg}, (key,arg) ∈ node → key ∈ combining → key ≠ "$ref" → isUnion (key,arg) = false →
      Calls defs (.obj node) arg := fun {key arg} hp hkey href hunion => by
    cases hr : reference defs node with
    | none => exact .field hr hp hunion
    | some d => exact absurd hkey (hplain.beside d hr _ hp href).1
  cases ht with
  | @ref _ arg d hp hd =>
    cases arg with
    | str refPath =>
      exact .single (.ref (reference_eq_some.mpr ⟨refPath,(Keyed.mem_iff_lookup hs.nodup _).mp hp,hd⟩))
    | _ => cases hd
  | @allOf _ subs s hp hmem => exact .head (.item hmem) (.single (hfield hp (by decide) (by decide) rfl))
  | @property _ props name s hp hmem =>
    obtain ⟨hmap,-⟩ := hplain.properties props hp
    have habsent : reference defs props = none := by
      cases hr : reference defs props with
      | none => rfl
      | some d =>
        obtain ⟨refPath,hlookup,-⟩ := reference_eq_some.mp hr
        obtain ⟨d,hd⟩ | ⟨b,hb⟩ := hmap _ (Keyed.mem_of_lookup hlookup)
        · cases hd
        · cases hb
    exact .head (.field habsent hmem (propertyMap_plain hmap _ hmem)) (.single (hfield hp (by decide) (by decide) rfl))
  | @additional _ s hp => exact .single (hfield hp (by decide) (by decide) rfl)
  | @items _ s hp => exact .single (hfield hp (by decide) (by decide) rfl)

omit hdefs in
theorem applies_objects {s t : Json} (h : Applies (byType A defs) s t) {p : Dict → Prop} (hs : ∀ node ∈ s.objects, p node)
    (hdefs : ∀ name d, defs.lookup name = some d → ∀ node ∈ d.objects, p node) : ∀ node ∈ t.objects, p node := by
  have hfield : ∀ {node : Dict} {key arg}, s = .obj node → (key,arg) ∈ node → ∀ d ∈ arg.objects, p d :=
    fun {node} {key} {arg} hnode hp d hd => hs d (hnode ▸ Json.mem_objects_obj.mpr (.inr ⟨_,hp,hd⟩))
  cases h with
  | @ref _ arg _ hp hd =>
    cases arg with
    | str refPath => exact hdefs _ t (definition_lookup hd)
    | _ => cases hd
  | allOf hp hmem => exact fun d hd => hfield rfl hp d (Json.mem_objects_arr.mpr ⟨_,hmem,hd⟩)
  | property hp hmem => exact fun d hd => hfield rfl hp d (Json.mem_objects_obj.mpr (.inr ⟨_,hmem,hd⟩))
  | additional hp => exact hfield rfl hp
  | items hp => exact hfield rfl hp

theorem resolvable_calls {v w : Json} (hv : Resolvable defs v)
    (hw : Relation.TransGen (fun w v => Calls defs v w) w v) : Resolvable defs w := by
  induction hw using Relation.TransGen.head_induction_on with
  | single h => exact hdefs.calls hv h
  | head h _ ih => exact hdefs.calls ih h

/-- What simplification says of the schemas in a node, as far as they are known to be simplified. -/
def Agree (A : String → Json → Json → Prop) (defs : Dict) (s : Json) : Prop :=
  ∀ w, simplification defs s = .ok w → ∀ x, Valid (asStated A []) w x ↔ Valid (byType A defs) s x

section Keywords
variable {node : Dict} (hs : Resolvable defs (.obj node))
  (ih : ∀ t, Applies (byType A defs) (.obj node) t → Agree A defs t) {names names' : List String} {x : Json}
include hs ih

theorem keyword_allOf {arg arg' : Json} (hp : ("allOf",arg) ∈ node) (h : simplification defs arg = .ok arg') :
    Keyword (asStated A []) (Valid (asStated A [])) names' x ("allOf",arg') ↔
      Keyword (byType A defs) (Valid (byType A defs)) names x ("allOf",arg) := by
  have harg : Resolvable defs arg := hs.of_objects fun d hd => Json.mem_objects_obj.mpr (.inr ⟨_,hp,hd⟩)
  constructor
  · rintro ⟨ws,rfl,hall⟩
    obtain ⟨items,rfl,hitems⟩ := simplification_list hdefs harg h
    refine ⟨items,rfl,fun s hmem => ?_⟩
    obtain ⟨s',hs'⟩ := mapM_returns.mp ⟨ws,hitems⟩ s hmem
    exact (ih s (.allOf hp hmem) s' hs' x).mp ((mapM_forall hitems _).mp hall s hmem s' hs')
  · rintro ⟨items,rfl,hall⟩
    rw [simplification_arr hdefs.acyclic] at h
    obtain ⟨ws,hws,rfl⟩ := map_eq_ok h
    refine ⟨ws,rfl,(mapM_forall hws _).mpr fun s hmem w hw => ?_⟩
    exact (ih s (.allOf hp hmem) w hw x).mpr (hall s hmem)

variable (hplain : Plain A defs node)
include hplain

theorem keyword_properties {arg arg' : Json} (hp : ("properties",arg) ∈ node)
    (h : simplification defs arg = .ok arg') :
    Keyword (asStated A []) (Valid (asStated A [])) names' x ("properties",arg') ↔
      Keyword (byType A defs) (Valid (byType A defs)) names x ("properties",arg) := by
  have harg : Resolvable defs arg := hs.of_objects fun d hd => Json.mem_objects_obj.mpr (.inr ⟨_,hp,hd⟩)
  constructor
  · rintro ⟨props',rfl,hall⟩
    obtain ⟨props,rfl⟩ := (simplification_obj hdefs.acyclic h).mp ⟨_,rfl⟩
    obtain ⟨hmap,hnames⟩ := hplain.properties props hp
    refine ⟨props,rfl,fun name s w hlookup hw => ?_⟩
    have hmem := Keyed.mem_of_lookup hlookup
    have hrebuild := (simplification_absent hdefs.acyclic (propertyMap_absent harg hmap)).symm.trans h
    obtain ⟨s',hs'⟩ := rebuild_returns.mp ⟨_,hrebuild⟩ _ hmem (propertyMap_plain hmap _ hmem)
    refine (ih s (.property hp hmem) s' hs' w).mp (hall name s' w ?_ hw)
    exact (propertyMap_lookup hdefs harg hmap hnames h).mpr ⟨s,hlookup,hs'⟩
  · rintro ⟨props,rfl,hall⟩
    obtain ⟨props',rfl⟩ := (simplification_obj hdefs.acyclic h).mpr ⟨_,rfl⟩
    obtain ⟨hmap,hnames⟩ := hplain.properties props hp
    refine ⟨props',rfl,fun name s' w hlookup hw => ?_⟩
    obtain ⟨s,hlookup,hs'⟩ := (propertyMap_lookup hdefs harg hmap hnames h).mp hlookup
    exact (ih s (.property hp (Keyed.mem_of_lookup hlookup)) s' hs' w).mpr (hall name s w hlookup hw)

/-- A keyword and what it is simplified to demand the same. -/
theorem keyword_entry (habsent : "$ref" ∉ node.map Prod.fst)
    (hnames : ∀ name, name ∈ names' ↔ name ∈ names) {p q : String × Json} (hp : p ∈ node)
    (h : entry (simplification defs) p = .ok q) :
    Keyword (asStated A []) (Valid (asStated A [])) names' x q ↔
      Keyword (byType A defs) (Valid (byType A defs)) names x p := by
  have hcombining : "type" ∉ combining := by decide
  cases hu : isUnion p with
  | true =>
    obtain ⟨subs,rfl,hok⟩ := entry_of_union hu
    cases (hok _).symm.trans h
    rw [keyword_other hcombining]
    constructor
    · intro htype
      exact ⟨subs,rfl,_,List.mem_singleton_self _,(valid_single hcombining _).mpr htype⟩
    · rintro ⟨_,hsubs,s,hmem,hvalid⟩
      cases hsubs
      obtain rfl := List.mem_singleton.mp hmem
      exact (valid_single (R := byType A defs) hcombining _).mp hvalid
  | false =>
    rw [entry_of_field hu] at h
    obtain ⟨arg',harg',rfl⟩ := map_eq_ok h
    obtain ⟨key,arg⟩ := p
    by_cases hkey : key ∈ combining
    · obtain rfl | rfl | rfl | rfl | rfl | rfl := mem_combining.mp hkey
      · exact absurd (List.mem_map_of_mem hp) habsent
      · refine iff_of_false ?_ ?_
        · rintro ⟨ws,rfl,-⟩
          have harg : Resolvable defs arg := hs.of_objects fun d hd => Json.mem_objects_obj.mpr (.inr ⟨_,hp,hd⟩)
          obtain ⟨items,rfl,-⟩ := simplification_list hdefs harg harg'
          cases hu
        · rintro ⟨items,rfl,-⟩
          cases hu
      · exact keyword_allOf hdefs hs ih hp harg'
      · exact keyword_properties hdefs hs ih hplain hp harg'
      · have hsub := ih arg (.additional hp) arg' harg'
        exact forall₃_congr fun name w _ => imp_congr (not_congr (hnames name)) (hsub w)
      · exact forall₂_congr fun w _ => ih arg (.items hp) arg' harg' w
    · rw [keyword_other hkey,keyword_other hkey]
      obtain hscalar | hignored := hplain.others _ hp hkey
      · rw [simplification_scalar hdefs hscalar harg']
        rfl
      · exact iff_of_true (hignored _ _) (hignored _ _)

end Keywords

section Names
variable {node fields : Dict} (hs : Resolvable defs (.obj node)) (hplain : Plain A defs node)
  (habsent : "$ref" ∉ node.map Prod.fst) (h : simplification defs (.obj node) = .ok (.obj fields))
include hs hplain habsent h

/-- No name of a property is lost. -/
theorem propertyNames_simplified (name : String) : name ∈ propertyNames fields ↔ name ∈ propertyNames node := by
  have hrebuild := (simplification_absent hdefs.acyclic habsent).symm.trans h
  have hother : "properties" ≠ "type" := by decide
  have hfield : ∀ w, fields.lookup "properties" = some w ↔
      ∃ v, node.lookup "properties" = some v ∧ simplification defs v = .ok w := fun w => by
    rw [rebuilt_lookup hrebuild]
    constructor
    · rintro ⟨-,p,hlast,he⟩
      have hu : isUnion p = false := by
        cases hu : isUnion p with
        | false => rfl
        | true =>
          obtain ⟨subs,rfl,-⟩ := entry_of_union hu
          exact absurd hlast.mem.2.symm hother
      rw [entry_of_field hu] at he
      obtain ⟨w',hw',hp⟩ := map_eq_ok he
      obtain ⟨hkey,rfl⟩ := Prod.mk.inj hp
      exact ⟨p.2,hkey ▸ (Keyed.mem_iff_lookup hs.nodup p).mp hlast.mem.1,hw'⟩
    · rintro ⟨v,hv,hw⟩
      refine ⟨by decide,_,LastWritten.of_mem hs.nodup (Keyed.mem_of_lookup hv) rfl hother,?_⟩
      rw [entry_of_field rfl,hw]
      rfl
  unfold propertyNames
  cases hv : node.lookup "properties" with
  | none =>
    have hnone : fields.lookup "properties" = none := Option.eq_none_iff_forall_ne_some.mpr fun w hw => by
      obtain ⟨v,hv',-⟩ := (hfield w).mp hw
      cases hv.symm.trans hv'
    rw [hnone]
  | some v =>
    have hmem := Keyed.mem_of_lookup hv
    obtain ⟨w,hw⟩ := rebuild_returns.mp ⟨_,hrebuild⟩ _ hmem rfl
    have hv' : Resolvable defs v := hs.of_objects fun d hd => Json.mem_objects_obj.mpr (.inr ⟨_,hmem,hd⟩)
    rw [(hfield w).mpr ⟨v,hv,hw⟩]
    have hobj := simplification_obj hdefs.acyclic hw
    cases v with
    | obj props =>
      obtain ⟨props',rfl⟩ := hobj.mpr ⟨props,rfl⟩
      obtain ⟨hmap,hforbidden⟩ := hplain.properties props hmem
      simp only [← Keyed.lookup_isSome_iff,Option.isSome_iff_exists,propertyMap_lookup hdefs hv' hmap hforbidden hw]
      constructor
      · rintro ⟨w,s,hlookup,-⟩
        exact ⟨s,hlookup⟩
      · rintro ⟨s,hlookup⟩
        have hmem := Keyed.mem_of_lookup hlookup
        have hrebuild := (simplification_absent hdefs.acyclic (propertyMap_absent hv' hmap)).symm.trans hw
        obtain ⟨s',hs'⟩ := rebuild_returns.mp ⟨_,hrebuild⟩ _ hmem (propertyMap_plain hmap _ hmem)
        exact ⟨s',s,hlookup,hs'⟩
    | _ =>
      cases w with
      | obj props' =>
        obtain ⟨_,hv⟩ := hobj.mp ⟨props',rfl⟩
        cases hv
      | _ => rfl

end Names

section Nodes
variable {node : Dict} (hs : Resolvable defs (.obj node)) (hplain : Plain A defs node)
  (ih : ∀ t, Applies (byType A defs) (.obj node) t → Agree A defs t)
include hs hplain ih

theorem agree_inline (hA : ∀ key ∈ forbidden, AssertsNothing A key) (habsent : "$ref" ∉ node.map Prod.fst) :
    Agree A defs (.obj node) := by
  intro w h x
  obtain ⟨fields,rfl⟩ := (simplification_obj hdefs.acyclic h).mpr ⟨node,rfl⟩
  have hrebuild := (simplification_absent hdefs.acyclic habsent).symm.trans h
  have hnames := propertyNames_simplified hdefs hs hplain habsent h
  rw [valid_obj,valid_obj,rebuilt_forall hrebuild hs.nodup hplain.unions]
  refine forall₂_congr fun p hp => ?_
  obtain ⟨entries,hentries,-⟩ := rebuild_eq_ok.mp hrebuild
  obtain ⟨q,hq⟩ : ∃ q, entry (simplification defs) p = .ok q := mapM_returns.mp ⟨entries,mapM_eq_ok.mpr hentries⟩ p hp
  have hkeyword := keyword_entry hdefs hs ih hplain habsent hnames (x := x) hp hq
  rw [← hkeyword]
  constructor
  · intro hall
    by_cases hkey : q.1 ∈ forbidden
    · have hother : q.1 ∉ combining := by
        simp only [forbidden,List.mem_cons,List.not_mem_nil,or_false] at hkey
        obtain hkey | hkey := hkey <;> rw [hkey] <;> decide
      exact (keyword_other hother q.2).mpr (hA _ hkey _ _)
    · exact hall q hq hkey
  · intro hp' q' hq' _
    cases hq.symm.trans hq'
    exact hp'

theorem agree_reference {d : Json} (hd : reference defs node = some d) : Agree A defs (.obj node) := by
  intro w h x
  obtain ⟨resolved,hresolved,rfl⟩ := simplification_ref_ok hdefs.acyclic hd h
  obtain ⟨refPath,hr,hdefinition⟩ := reference_eq_some.mp hd
  have hmem := Keyed.mem_of_lookup hr
  have hv : Resolvable defs d := hdefs.calls hs (.ref hd)
  have hkeys : ∀ key, key ∈ resolved.map Prod.fst ↔ HasKey defs key d := fun key => hasKey_iff hdefs hv hresolved
  have hnodup := simplification_nodup hdefs hv hresolved
  have hbeside : ((node.filter fun p => p.1 ≠ "$ref").map Prod.fst).Nodup := Keyed.nodup_filter hs.nodup _
  have hlookup : ∀ key, (update (node.filter fun p => p.1 ≠ "$ref") resolved).lookup key =
      (resolved.lookup key).or ((node.filter fun p => p.1 ≠ "$ref").lookup key) := fun key => by
    rw [update_lookup,Keyed.lookup_reverse hnodup]
  have hnames : propertyNames (update (node.filter fun p => p.1 ≠ "$ref") resolved) = propertyNames resolved := by
    have hnone : (node.filter fun p => p.1 ≠ "$ref").lookup "properties" = none :=
      Option.eq_none_iff_forall_ne_some.mpr fun v hv => by
        obtain ⟨hp,hkey⟩ := List.mem_filter.mp (Keyed.mem_of_lookup hv)
        have hother := (hplain.beside d hd _ hp (of_decide_eq_true hkey)).1
        exact hother (mem_combining.mpr (by simp))
    unfold propertyNames
    rw [hlookup,hnone,Option.or_none]
  have happlies : Applies (byType A defs) (.obj node) d := .ref hmem hdefinition
  have hiff := ih d happlies (.obj resolved) hresolved x
  rw [valid_obj,valid_obj,hnames]
  constructor
  · rintro hall ⟨key,arg⟩ hp
    by_cases hkey : key = "$ref"
    · subst hkey
      obtain rfl := Option.some.inj (hr.symm.trans ((Keyed.mem_iff_lookup hs.nodup _).mp hp))
      refine ⟨d,hdefinition,hiff.mp (valid_obj.mpr fun p hp => hall p ?_)⟩
      have hmerged : (update (node.filter fun p => p.1 ≠ "$ref") resolved).lookup p.1 = some p.2 := by
        rw [hlookup,(Keyed.mem_iff_lookup hnodup p).mp hp]
        rfl
      exact Keyed.mem_of_lookup hmerged
    · obtain ⟨hother,hignored⟩ := hplain.beside d hd _ hp hkey
      rw [keyword_other hother]
      by_cases hnew : key ∈ resolved.map Prod.fst
      · exact hignored ((hkeys key).mp hnew) arg x
      · have hkept : (update (node.filter fun p => p.1 ≠ "$ref") resolved).lookup key = some arg := by
          rw [hlookup,Keyed.lookup_eq_none hnew,Option.none_or]
          exact (Keyed.mem_iff_lookup hbeside _).mp (List.mem_filter.mpr ⟨hp,decide_eq_true hkey⟩)
        have hasserts := hall _ (Keyed.mem_of_lookup hkept)
        rw [keyword_other hother] at hasserts
        exact hasserts
  · rintro hall ⟨key,arg⟩ hp
    obtain ⟨d',hd',hvalid⟩ := hall _ hmem
    obtain rfl := Option.some.inj (hdefinition.symm.trans hd')
    have hfields := valid_obj.mp (hiff.mpr hvalid)
    have hentry := (Keyed.mem_iff_lookup (update_nodup hbeside resolved) _).mp hp
    rw [hlookup] at hentry
    cases hold : resolved.lookup key with
    | some w =>
      rw [hold] at hentry
      cases hentry
      exact hfields _ (Keyed.mem_of_lookup hold)
    | none =>
      rw [hold,Option.none_or] at hentry
      obtain ⟨hp,hkey⟩ := List.mem_filter.mp (Keyed.mem_of_lookup hentry)
      have hother := (hplain.beside d hd _ hp (of_decide_eq_true hkey)).1
      have hasserts := hall _ hp
      rw [keyword_other hother] at hasserts ⊢
      exact hasserts

end Nodes

/-- What is known of every schema that a schema applies is known of what it is simplified to. -/
theorem agree (hA : ∀ key ∈ forbidden, AssertsNothing A key) {s : Json} (hs : Resolvable defs s)
    (hplain : ∀ node, Relation.ReflTransGen (Applies (byType A defs)) s (.obj node) → Plain A defs node) :
    Agree A defs s := by
  induction (acc hdefs.acyclic s).transGen with
  | intro s _ ih =>
    cases s with
    | obj node =>
      have happlied : ∀ t, Applies (byType A defs) (.obj node) t → Agree A defs t := fun t ht => by
        have hcalls := applies_calls hs (hplain node .refl) ht
        exact ih t hcalls (resolvable_calls hdefs hs hcalls) fun node' hnode' => hplain node' (.head ht hnode')
      by_cases hmem : "$ref" ∈ node.map Prod.fst
      · obtain ⟨d,hd⟩ := hs.exists_reference hmem
        exact agree_reference hdefs hs (hplain node .refl) happlied hd
      · exact agree_inline hdefs hs (hplain node .refl) happlied hA hmem
    | arr items =>
      intro w h x
      rw [simplification_arr hdefs.acyclic] at h
      obtain ⟨ws,-,rfl⟩ := map_eq_ok h
      rw [valid_iff,valid_iff]
      rfl
    | bool b =>
      intro w h x
      rw [simplification_eq hdefs.acyclic] at h
      cases h
      rw [valid_bool,valid_bool]
    | _ =>
      intro w h x
      rw [simplification_eq hdefs.acyclic] at h
      cases h
      rw [valid_iff,valid_iff]
      rfl

end Meaning

/-- What has to hold of a schema for its simplification to say the same by types. -/
structure Readable (A : String → Json → Json → Prop) (schema : Dict) : Prop where
  referenced : WellReferenced schema
  dropped : ∀ key ∈ ["$defs","pattern","format"], AssertsNothing A key
  plain : ∀ node, Relation.ReflTransGen (Applies (byType A (defsOf schema))) (.obj (rootOf schema)) (.obj node) →
    Plain A (defsOf schema) node

section Root
variable {schema : Dict}

/-- The definitions themselves say nothing of a value. -/
theorem valid_root {R : Reading} (hR : ∀ arg v, R.asserts "$defs" arg v) {x : Json} :
    Valid R (.obj (rootOf schema)) x ↔ Valid R (.obj schema) x := by
  have hnames : propertyNames (rootOf schema) = propertyNames schema := by
    unfold propertyNames
    rw [rootOf,Keyed.lookup_filter_keys fun name => decide (name ≠ "$defs")]
    rfl
  rw [valid_obj,valid_obj,hnames]
  constructor
  · rintro hall ⟨key,arg⟩ hp
    by_cases hkey : key = "$defs"
    · subst hkey
      have hother : "$defs" ∉ combining := by decide
      exact (keyword_other hother arg).mpr (hR arg x)
    · exact hall _ (List.mem_filter.mpr ⟨hp,decide_eq_true hkey⟩)
  · intro hall p hp
    exact hall p (List.mem_of_mem_filter hp)

theorem Readable.valid_iff (h : Readable A schema) {out : Json}
    (hout : simplification (defsOf schema) (.obj (rootOf schema)) = .ok out) (x : Json) :
    Valid (asStated A []) out x ↔ Valid (byType A (defsOf schema)) (.obj schema) x := by
  have hA : ∀ key ∈ forbidden, AssertsNothing A key := fun key hkey => h.dropped key (List.mem_cons_of_mem _ hkey)
  have hagree : Agree A (defsOf schema) (.obj (rootOf schema)) :=
    agree h.referenced.definitions hA h.referenced.root h.plain
  rw [hagree out hout x]
  exact valid_root (R := byType A (defsOf schema)) (h.dropped _ List.mem_cons_self)

end Root

/-- **A simplified schema says what the schema says by types.** A value is valid under what a readable
schema is simplified to exactly when it is valid under the schema, unions read as the type that stands
for them. -/
theorem simplified_meaning {schema : Dict} (h : Readable A schema) {out : Json}
    (hout : Recursion.Settled dereferenceAndSimplifySchema (.obj schema) (.ok out)) (x : Json) :
    Valid (asStated A []) out x ↔ Valid (byType A (defsOf schema)) (.obj schema) x :=
  h.valid_iff (h.referenced.settled_iff.mp hout) x

section Sample

def typeName : Json → String
  | .null => "null"
  | .bool _ => "boolean"
  | .int _ => "integer"
  | .float _ => "number"
  | .str _ => "string"
  | .arr _ => "array"
  | .obj _ => "object"

/-- Only types are asserted. -/
def typed (key : String) (arg v : Json) : Prop := key = "type" → arg = .str (typeName v)

theorem typed_nothing {key : String} (h : key ≠ "type") : AssertsNothing typed key := fun _ _ hkey => absurd hkey h

def isObject : Json → Bool
  | .obj _ => true
  | _ => false

/-- Property schemas under names that are kept. -/
def keptProperties : Json → Bool
  | .obj props => props.all fun p => isObject p.2 && !forbidden.contains p.1
  | _ => true

theorem keptProperties_obj {props : Dict} (h : keptProperties (.obj props) = true) :
    IsPropertyMap props ∧ ∀ key ∈ forbidden, key ∉ props.map Prod.fst := by
  have hkept : ∀ p ∈ props, isObject p.2 = true ∧ p.1 ∉ forbidden := fun p hp => by
    simpa using List.all_eq_true.mp h p hp
  constructor
  · intro p hp
    have hobject := (hkept p hp).1
    revert hobject
    cases p.2 with
    | obj fields => exact fun _ => .inl ⟨fields,rfl⟩
    | _ => exact fun hobject => by cases hobject
  · rintro key hkey hname
    obtain ⟨p,hp,rfl⟩ := List.mem_map.mp hname
    exact (hkept p hp).2 hkey

theorem sampleSchema_reached {s : Json}
    (h : Relation.ReflTransGen (Applies (byType typed (defsOf sampleSchema))) (.obj (rootOf sampleSchema)) s) :
    ∀ node ∈ s.objects, node ∈ (Json.obj (rootOf sampleSchema)).objects ++ partySchema.objects := by
  induction h with
  | refl => exact fun node hnode => List.mem_append_left _ hnode
  | tail _ happlies ih =>
    refine applies_objects happlies ih fun name d hd node hnode => List.mem_append_right _ ?_
    obtain hp := List.mem_singleton.mp (Keyed.mem_of_lookup hd)
    cases hp
    exact hnode

theorem sampleSchema_readable : Readable typed sampleSchema where
  referenced := sampleSchema_wellReferenced
  dropped key hkey := typed_nothing fun h => by
    subst h
    revert hkey
    decide
  plain node hnode := by
    have hmem := sampleSchema_reached hnode node (Json.self_mem_objects node)
    have hunions : ∀ node ∈ (Json.obj (rootOf sampleSchema)).objects ++ partySchema.objects,
        "anyOf" ∈ node.map Prod.fst → "type" ∉ node.map Prod.fst := by decide
    have hproperties : ∀ node ∈ (Json.obj (rootOf sampleSchema)).objects ++ partySchema.objects,
        ∀ p ∈ node, p.1 = "properties" → keptProperties p.2 = true := by decide
    have htypes : ∀ node ∈ (Json.obj (rootOf sampleSchema)).objects ++ partySchema.objects,
        ∀ p ∈ node, p.1 = "type" → p.2.objects = [] := by decide
    refine ⟨fun subs hsub => hunions node hmem (List.mem_map_of_mem hsub),fun props hprops => ?_,fun p hp _ => ?_,
      fun d hd p hp hkey => ?_⟩
    · exact keptProperties_obj (hproperties node hmem _ hprops rfl)
    · by_cases hkey : p.1 = "type"
      · exact .inl (htypes node hmem p hp hkey)
      · exact .inr (typed_nothing hkey)
    · have href : "$ref" ∈ node.map Prod.fst := by
        by_contra habsent
        cases (reference_absent habsent).symm.trans hd
      exact absurd ((sampleSchema_bare node hmem).2.1 href p hp) hkey

def sampleValue : Json := .obj [("vendor",.obj [("name",.str "ACME")]),("due",.str "2026-01-01")]

theorem sampleSchema_meaning : ∃ out, Recursion.Settled dereferenceAndSimplifySchema (.obj sampleSchema) (.ok out) ∧
    (Valid (asStated typed []) out sampleValue ↔
      Valid (byType typed (defsOf sampleSchema)) (.obj sampleSchema) sampleValue) := by
  obtain ⟨out,hout⟩ := (returns_iff sampleSchema_wellReferenced.definitions sampleSchema_wellReferenced.root).mpr
    fun v _ => refersToObject_of_objects sampleSchema_objects v
  have hsettled := sampleSchema_wellReferenced.settled_iff.mpr hout
  exact ⟨out,hsettled,simplified_meaning sampleSchema_readable hsettled sampleValue⟩

end Sample

/-- The type that stands for a union is enough for one of its branches. -/
def EnoughTypes (A : String → Json → Json → Prop) (schema : Dict) : Prop :=
  ∀ node subs, Relation.ReflTransGen (Applies (byType A (defsOf schema))) (.obj (rootOf schema)) (.obj node) →
    ("anyOf",.arr subs) ∈ node → ∀ v, A "type" (primaryType subs) v → ∃ s ∈ subs, Valid (asStated A (defsOf schema)) s v

theorem EnoughTypes.narrower {schema : Dict} (h : EnoughTypes A schema) :
    Narrower (byType A (defsOf schema)) (asStated A (defsOf schema)) (.obj (rootOf schema)) where
  asserts := rfl
  refers := rfl
  unions node subs hnode hunion v := by
    rintro ⟨s,hs,hvalid⟩
    obtain rfl := List.mem_singleton.mp hs
    have htype : "type" ∉ combining := by decide
    exact h node subs hnode hunion v ((valid_single (R := byType A (defsOf schema)) htype _).mp hvalid)

section Depth
variable {defs : Dict}

/-- A call that returns has had an answer from every call that it makes. -/
theorem step_calls {f : Json → Except Exc Json} {v w : Json} (h : step defs f v = .ok w) {u : Json}
    (hu : Calls defs v u) : ∃ w', f u = .ok w' := by
  cases hu with
  | @ref node _ hd =>
    rw [step_of_reference hd] at h
    cases hf : f u with
    | ok w' => exact ⟨w',rfl⟩
    | error c =>
      rw [hf] at h
      cases h
  | @field node key _ hr hmem hunion =>
    obtain hstep | hstep := step_of_none hr
    · rw [hstep] at h
      exact rebuild_returns.mp ⟨w,h⟩ _ hmem hunion
    · rw [hstep] at h
      cases h
  | @item items _ hmem =>
    obtain ⟨ws,hws,-⟩ := map_eq_ok h
    exact mapM_returns.mp ⟨ws,hws⟩ u hmem

/-- A deeper recursion returns the same. -/
theorem resolveAndSimplify_deeper {depth : ℕ} {v w : Json} (h : resolveAndSimplify defs depth v = .ok w) :
    resolveAndSimplify defs (depth + 1) v = .ok w := by
  induction depth generalizing v w with
  | zero => cases h
  | succ depth ih =>
    rw [resolveAndSimplify_succ] at h ⊢
    rw [← h]
    refine step_congr v _ _ fun u hu => ?_
    obtain ⟨w',hw'⟩ := step_calls h hu
    rw [hw',ih hw']

theorem settled_of_ok {depth : ℕ} {v w : Json} (h : resolveAndSimplify defs depth v = .ok w) :
    Recursion.Settled (resolveAndSimplify defs) v (.ok w) := by
  refine ⟨depth,fun deeper hdeeper => ?_⟩
  induction deeper, hdeeper using Nat.le_induction with
  | base => exact h
  | succ deeper _ ih => exact resolveAndSimplify_deeper ih

end Depth

end StructuredExtractor.SimplifySchema

namespace StructuredExtractor.LiteLLMClient
open SimplifySchema JsonSchema

/-- **An answer to the schema that was sent answers the schema of the model.** -/
theorem toolFor_sound (L : Libraries) {model toolName : String} {tool sent : Tool} {choice : ToolChoice} {schema : Dict}
    {A : String → Json → Json → Prop} (hmodel : Text.contains "gemini" (L.unicode.lower model) = true)
    (hparameters : tool.parameters = .obj schema) (hreadable : Readable A schema) (htypes : EnoughTypes A schema)
    (h : toolFor L model tool toolName = .ok (sent,choice)) {x : Json} (hx : Valid (asStated A []) sent.parameters x) :
    Valid (asStated A (defsOf schema)) tool.parameters x := by
  unfold toolFor at h
  rw [if_pos hmodel,hparameters,dereference_eq] at h
  cases hresult : resolveAndSimplify (defsOf schema) L.recursionDepth (.obj (rootOf schema)) with
  | error c =>
    rw [hresult] at h
    cases h
  | ok out =>
    rw [hresult] at h
    cases h
    have hout := (settled_of_ok hresult).unique (simplification_settled hreadable.referenced.acyclic _)
    have hdropped : AssertsNothing A "$defs" := hreadable.dropped _ List.mem_cons_self
    have hvalid := (valid_root (R := byType A (defsOf schema)) hdropped).mpr ((hreadable.valid_iff hout.symm x).mp hx)
    rw [hparameters]
    exact (valid_root (R := asStated A (defsOf schema)) hdropped).mp (htypes.narrower.valid hvalid)

section Sample

def sampleTool : Tool := ⟨"extract_invoice","Extract structured invoice data from document text",.obj sampleSchema⟩

theorem sampleValue_valid : Valid (byType typed (defsOf sampleSchema)) (.obj sampleSchema) sampleValue := by
  have href : (byType typed (defsOf sampleSchema)).refers (.str "#/$defs/Party") = some partySchema := by
    obtain ⟨_,hr,hd⟩ := reference_eq_some.mp (@reference_party partyRef rfl)
    cases hr
    exact hd
  have hname : ∀ s, Valid (byType typed (defsOf sampleSchema)) (.obj [("type",.str "string")]) (.str s) := fun s =>
    (valid_single (by decide) _).mpr fun _ => rfl
  have hparty : Valid (byType typed (defsOf sampleSchema)) partySchema (.obj [("name",.str "ACME")]) := by
    refine valid_obj.mpr fun p hp => ?_
    simp only [List.mem_cons,List.not_mem_nil,or_false] at hp
    obtain rfl | rfl := hp
    · exact (keyword_other (by decide) _).mpr fun _ => rfl
    · refine ⟨_,rfl,fun name s w hs hw => ?_⟩
      obtain hs := List.mem_singleton.mp (Keyed.mem_of_lookup hs)
      obtain hw := List.mem_singleton.mp (Json.mem_of_field hw)
      cases hs
      cases hw
      exact hname _
  refine valid_obj.mpr fun p hp => ?_
  simp only [sampleSchema,List.mem_cons,List.not_mem_nil,or_false] at hp
  obtain rfl | rfl | rfl := hp
  · exact (keyword_other (by decide) _).mpr (typed_nothing (by decide) _ _)
  · exact (keyword_other (by decide) _).mpr fun _ => rfl
  · refine ⟨_,rfl,fun name s w hs hw => ?_⟩
    have hs := Keyed.mem_of_lookup hs
    have hw := Json.mem_of_field hw
    simp only [List.mem_cons,List.not_mem_nil,or_false,Prod.mk.injEq] at hs hw
    obtain ⟨rfl,rfl⟩ | ⟨rfl,rfl⟩ := hs
    · obtain ⟨-,rfl⟩ | ⟨hdue,-⟩ := hw
      · refine valid_obj.mpr fun p hp => ?_
        obtain rfl := List.mem_singleton.mp hp
        exact ⟨partySchema,href,hparty⟩
      · exact absurd hdue (by decide)
    · obtain ⟨hvendor,-⟩ | ⟨-,rfl⟩ := hw
      · exact absurd hvendor (by decide)
      · refine valid_obj.mpr fun p hp => ?_
        obtain rfl := List.mem_singleton.mp hp
        exact ⟨_,rfl,_,List.mem_singleton_self _,hname _⟩

theorem sampleSchema_enough : EnoughTypes typed sampleSchema := by
  intro node subs hnode hunion v hv
  have hlist : ∀ node ∈ (Json.obj (rootOf sampleSchema)).objects ++ partySchema.objects, ∀ p ∈ node, p.1 = "anyOf" →
      p = ("anyOf",.arr optionalDate) := by decide
  have hp := hlist node (sampleSchema_reached hnode node (Json.self_mem_objects node)) _ hunion rfl
  cases hp
  refine ⟨_,List.mem_cons_self,valid_obj.mpr fun p hp => ?_⟩
  simp only [List.mem_cons,List.not_mem_nil,or_false] at hp
  obtain rfl | rfl := hp
  · exact (keyword_other (by decide) _).mpr hv
  · exact (keyword_other (by decide) _).mpr (typed_nothing (by decide) _ _)

/-- With a recursion that is deep enough the sample is sent, and an answer to it answers the schema. -/
theorem sampleTool_sound : ∃ L sent choice,
    toolFor L "gemini/gemini-2.0-flash" sampleTool "extract_invoice" = .ok (sent,choice) ∧
    Valid (asStated typed []) sent.parameters sampleValue ∧
    Valid (asStated typed (defsOf sampleSchema)) (.obj sampleSchema) sampleValue := by
  obtain ⟨out,hout⟩ := (returns_iff sampleSchema_wellReferenced.definitions sampleSchema_wellReferenced.root).mpr
    fun v _ => refersToObject_of_objects sampleSchema_objects v
  obtain ⟨depth,hdepth⟩ := sampleSchema_wellReferenced.settled_iff.mpr hout
  let L : Libraries := { Libraries.basic with recursionDepth := depth }
  have hmodel : Text.contains "gemini" (Libraries.basic.unicode.lower "gemini/gemini-2.0-flash") = true := by decide
  have hsent : toolFor L "gemini/gemini-2.0-flash" sampleTool "extract_invoice" =
      .ok ({ sampleTool with parameters := out },.auto) := by
    unfold toolFor
    rw [if_pos hmodel,sampleTool,hdepth depth le_rfl]
    rfl
  have hvalid := (sampleSchema_readable.valid_iff hout sampleValue).mpr sampleValue_valid
  exact ⟨L,_,_,hsent,hvalid,toolFor_sound L hmodel rfl sampleSchema_readable sampleSchema_enough hsent hvalid⟩

end Sample

end StructuredExtractor.LiteLLMClient
