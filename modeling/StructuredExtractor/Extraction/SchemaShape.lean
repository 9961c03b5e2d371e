import StructuredExtractor.Extraction.SchemaCalls

/-! # What simplification keeps of a schema

A node is rebuilt keyword by keyword, and the last keyword that writes a key has its
value in the result. So the property names stay, except those that are taken for
keywords, and a union becomes the type that stands for it.
-/
namespace StructuredExtractor.SimplifySchema

section Update

theorem update_cons (d : Dict) (k : String) (v : Json) (rest : Dict) : ∃ d', update d ((k,v) :: rest) = update d' rest ∧
    (∀ key, d'.lookup key = if key = k then some v else d.lookup key) ∧
    ((d.map Prod.fst).Nodup → (d'.map Prod.fst).Nodup) ∧
    (d.lookup k = none → d' = d ++ [(k,v)]) := by
  cases hk : d.lookup k with
  | some w =>
    refine ⟨Keyed.modify k (fun _ => v) d,?_,?_,?_,fun h => by cases h⟩
    · rw [update,hk]
      congr 1
      refine List.map_congr_left fun p _ => ?_
      by_cases hp : p.1 = k <;> simp [hp]
    · intro key
      rw [Keyed.lookup_modify]
      by_cases hkey : key = k
      · subst hkey
        rw [hk]
        simp
      · rw [if_neg hkey,if_neg hkey]
    · intro hd
      have hkeys : (Keyed.modify k (fun _ => v) d).map Prod.fst = d.map Prod.fst := by
        rw [Keyed.modify,List.map_map]
        refine List.map_congr_left fun p _ => ?_
        by_cases hp : p.1 = k <;> simp [hp]
      rwa [hkeys]
  | none =>
    refine ⟨d ++ [(k,v)],by rw [update,hk]; rfl,Keyed.lookup_append_new v hk,fun hd => ?_,fun _ => rfl⟩
    rw [List.map_append]
    refine List.nodup_append'.mpr ⟨hd,List.nodup_singleton k,?_⟩
    rintro key hmem hkey
    obtain rfl := List.mem_singleton.mp hkey
    exact Keyed.lookup_eq_none_iff.mp hk hmem

/-- The last value for a key is found, or that of before. -/
theorem update_lookup (d rest : Dict) (key : String) :
    (update d rest).lookup key = (rest.reverse.lookup key).or (d.lookup key) := by
  induction rest generalizing d with
  | nil => rfl
  | cons p rest ih =>
    obtain ⟨k,v⟩ := p
    obtain ⟨d',hd',hlookup,-⟩ := update_cons d k v rest
    rw [hd',ih,hlookup,List.reverse_cons,List.lookup_append,Option.or_assoc,Keyed.lookup_singleton]
    by_cases hk : key = k <;> simp [hk]

theorem update_keys {d rest : Dict} {key : String} :
    key ∈ (update d rest).map Prod.fst ↔ key ∈ d.map Prod.fst ∨ key ∈ rest.map Prod.fst := by
  rw [← Keyed.lookup_isSome_iff,update_lookup,Option.isSome_or,Bool.or_eq_true,Keyed.lookup_isSome_iff,
    Keyed.lookup_isSome_iff,List.map_reverse,List.mem_reverse,or_comm]

theorem update_nodup {d : Dict} (hd : (d.map Prod.fst).Nodup) (rest : Dict) :
    ((update d rest).map Prod.fst).Nodup := by
  induction rest generalizing d with
  | nil => exact hd
  | cons p rest ih =>
    obtain ⟨d',hd',-,hnodup,-⟩ := update_cons d p.1 p.2 rest
    rw [hd']
    exact ih (hnodup hd)

/-- New keys come at the end. -/
theorem update_append {d rest : Dict} (h : ((d ++ rest).map Prod.fst).Nodup) : update d rest = d ++ rest := by
  induction rest generalizing d with
  | nil => exact (List.append_nil d).symm
  | cons p rest ih =>
    have hnew : d.lookup p.1 = none := Keyed.lookup_eq_none fun hmem => by
      rw [List.map_append] at h
      exact (List.nodup_append'.mp h).2.2 hmem List.mem_cons_self
    obtain ⟨d',hd',-,-,happend⟩ := update_cons d p.1 p.2 rest
    obtain rfl := happend hnew
    have hsplit : d ++ p :: rest = (d ++ [p]) ++ rest := by rw [List.append_assoc,List.singleton_append]
    rw [hsplit] at h ⊢
    exact hd'.trans (ih h)

end Update

/-- The key that a keyword is written to. -/
def written (p : String × Json) : String := if isUnion p then "type" else p.1

/-- Only the type is written by another keyword than its own. -/
theorem mem_written {node : Dict} {key : String} (htype : key ≠ "type") (hunion : key ≠ "anyOf") :
    key ∈ node.map written ↔ key ∈ node.map Prod.fst := by
  have hwritten : ∀ p : String × Json, written p = key ↔ p.1 = key := fun p => by
    cases hu : isUnion p with
    | false => rw [written,hu]; rfl
    | true =>
      obtain ⟨subschemas,rfl,-⟩ := entry_of_union hu
      exact iff_of_false htype.symm hunion.symm
  rw [List.mem_map,List.mem_map]
  exact exists_congr fun p => and_congr_right fun _ => hwritten p

/-- The keyword of a node that writes a key last. -/
inductive LastWritten (key : String) : Dict → String × Json → Prop
  | here {p node} : written p = key → key ∉ node.map written → LastWritten key (p :: node) p
  | later {p q node} : LastWritten key node p → LastWritten key (q :: node) p

namespace LastWritten
variable {key : String} {node : Dict} {p : String × Json}

theorem mem (h : LastWritten key node p) : p ∈ node ∧ written p = key := by
  induction h with
  | here hkey _ => exact ⟨List.mem_cons_self,hkey⟩
  | later _ ih => exact ⟨List.mem_cons_of_mem _ ih.1,ih.2⟩

theorem exists_iff : (∃ p, LastWritten key node p) ↔ key ∈ node.map written := by
  constructor
  · rintro ⟨p,hp⟩
    exact List.mem_map.mpr ⟨p,hp.mem⟩
  · intro hmem
    induction node with
    | nil => cases hmem
    | cons q node ih =>
      by_cases hlater : key ∈ node.map written
      · obtain ⟨p,hp⟩ := ih hlater
        exact ⟨p,.later hp⟩
      · obtain hkey | hkey := List.mem_cons.mp hmem
        · exact ⟨q,.here hkey.symm hlater⟩
        · exact absurd hkey hlater

/-- With distinct keys only the type can be written twice. -/
theorem of_mem (hn : (node.map Prod.fst).Nodup) (hp : p ∈ node) (hunion : isUnion p = false) (htype : p.1 ≠ "type") :
    LastWritten p.1 node p := by
  have hwritten : ∀ q : String × Json, written q = p.1 → q.1 = p.1 := fun q hq => by
    unfold written at hq
    split at hq
    · exact absurd hq.symm htype
    · exact hq
  induction node with
  | nil => cases hp
  | cons q node ih =>
    obtain ⟨hnew,hn⟩ := List.nodup_cons.mp hn
    obtain rfl | hp := List.mem_cons.mp hp
    · refine .here (by rw [written,hunion]; rfl) fun hmem => hnew ?_
      obtain ⟨q,hq,hkey⟩ := List.mem_map.mp hmem
      exact hwritten q hkey ▸ List.mem_map_of_mem hq
    · exact .later (ih hn hp)

end LastWritten

section Entries
variable {f : Json → Except Exc Json} {node entries : Dict}

theorem entry_written {p q : String × Json} (h : entry f p = .ok q) : q.1 = written p := by
  cases hu : isUnion p with
  | true =>
    obtain ⟨_,rfl,hok⟩ := entry_of_union hu
    cases (hok f).symm.trans h
    rfl
  | false =>
    rw [entry_of_field hu] at h
    obtain ⟨w,-,rfl⟩ := map_eq_ok h
    rw [written,hu]
    rfl

theorem entries_written (h : List.Forall₂ (fun p q => entry f p = .ok q) node entries) :
    entries.map Prod.fst = node.map written := by
  induction h with
  | nil => rfl
  | cons hq _ ih => rw [List.map_cons,List.map_cons,entry_written hq,ih]

/-- The last entry for a key is that of the keyword that writes it last. -/
theorem entries_lookup (h : List.Forall₂ (fun p q => entry f p = .ok q) node entries) {key : String} {w : Json} :
    entries.reverse.lookup key = some w ↔ ∃ p, LastWritten key node p ∧ entry f p = .ok (key,w) := by
  induction h with
  | nil => exact iff_of_false (fun h => by cases h) fun ⟨_,h,_⟩ => by cases h
  | @cons p q node entries hq htail ih =>
    have hnone : entries.reverse.lookup key = none ↔ key ∉ node.map written := by
      rw [← entries_written htail,Keyed.lookup_eq_none_iff,List.map_reverse,List.mem_reverse]
    rw [List.reverse_cons,List.lookup_append,Option.or_eq_some_iff,ih,hnone,Keyed.lookup_singleton]
    constructor
    · rintro (⟨p',hp',he⟩ | ⟨hnew,hkey⟩)
      · exact ⟨p',.later hp',he⟩
      · split at hkey
        · next heq =>
          subst heq
          cases hkey
          exact ⟨p,.here (entry_written hq).symm hnew,hq⟩
        · cases hkey
    · rintro ⟨p',hp' | hp',he⟩
      · cases hq.symm.trans he
        exact .inr ⟨‹_›,by simp⟩
      · exact .inl ⟨p',hp',he⟩

end Entries

section Rebuilt
variable {f : Json → Except Exc Json} {node fields : Dict}

theorem rebuilt_lookup (h : rebuild f node = .ok (.obj fields)) {key : String} {w : Json} :
    fields.lookup key = some w ↔ key ∉ forbidden ∧ ∃ p, LastWritten key node p ∧ entry f p = .ok (key,w) := by
  obtain ⟨entries,hentries,hw⟩ := rebuild_eq_ok.mp h
  cases hw
  rw [Keyed.lookup_filter_keys fun key => !forbidden.contains key,update_lookup,List.lookup_nil,Option.or_none,
    ← entries_lookup hentries]
  by_cases hkey : key ∈ forbidden <;> simp [hkey]

theorem rebuilt_field (h : rebuild f node = .ok (.obj fields)) {key : String} {v w : Json}
    (hlast : LastWritten key node (key,v)) (hunion : isUnion (key,v) = false) (hkey : key ∉ forbidden)
    (hw : f v = .ok w) : fields.lookup key = some w := by
  refine (rebuilt_lookup h).mpr ⟨hkey,_,hlast,?_⟩
  rw [entry_of_field hunion,hw]
  rfl

theorem rebuilt_nodup (h : rebuild f node = .ok (.obj fields)) : (fields.map Prod.fst).Nodup := by
  obtain ⟨entries,-,hw⟩ := rebuild_eq_ok.mp h
  cases hw
  exact Keyed.nodup_filter (update_nodup (d := []) List.nodup_nil entries) _

/-- The keys of the result are those that were written, without the forbidden ones. -/
theorem rebuilt_keys (h : rebuild f node = .ok (.obj fields)) (key : String) :
    key ∈ fields.map Prod.fst ↔ key ∉ forbidden ∧ key ∈ node.map written := by
  rw [← Keyed.lookup_isSome_iff,Option.isSome_iff_exists,← LastWritten.exists_iff]
  constructor
  · rintro ⟨w,hw⟩
    obtain ⟨hkey,p,hp,-⟩ := (rebuilt_lookup h).mp hw
    exact ⟨hkey,p,hp⟩
  · rintro ⟨hkey,p,hp⟩
    obtain ⟨entries,hentries,-⟩ := rebuild_eq_ok.mp h
    obtain ⟨q,hq⟩ : ∃ q, entry f p = .ok q := mapM_returns.mp ⟨entries,mapM_eq_ok.mpr hentries⟩ p hp.mem.1
    refine ⟨q.2,(rebuilt_lookup h).mpr ⟨hkey,p,hp,?_⟩⟩
    rw [hq,← hp.mem.2,← entry_written hq]

/-- Where there is no union the keys keep their order. -/
theorem rebuilt_order (h : rebuild f node = .ok (.obj fields)) (hn : (node.map Prod.fst).Nodup)
    (hunion : ∀ p ∈ node, isUnion p = false) :
    fields.map Prod.fst = (node.map Prod.fst).filter fun key => !forbidden.contains key := by
  obtain ⟨entries,hentries,hw⟩ := rebuild_eq_ok.mp h
  cases hw
  have hkeys : entries.map Prod.fst = node.map Prod.fst := by
    rw [entries_written hentries]
    exact List.map_congr_left fun p hp => by rw [written,hunion p hp]; rfl
  rw [update_append (by rwa [List.nil_append,hkeys]),List.nil_append,← hkeys,List.filter_map]
  rfl

end Rebuilt

/-- A type other than null that one of the schemas states itself. -/
def LiteralType (subschemas : List Json) (t : Json) : Prop :=
  ∃ d, .obj d ∈ subschemas ∧ d.lookup "type" = some t ∧ truthy t = true ∧ t ≠ .str "null"

/-- What stands for a union: one of the types that its schemas state, a number, an integer
or a boolean first, and a string if they state none. -/
structure StandsFor (subschemas : List Json) (t : Json) : Prop where
  literal : (∃ t', LiteralType subschemas t') → LiteralType subschemas t
  fallback : (¬ ∃ t', LiteralType subschemas t') → t = .str "string"
  number : LiteralType subschemas (.str "number") → t = .str "number"
  integer : ¬ LiteralType subschemas (.str "number") → LiteralType subschemas (.str "integer") → t = .str "integer"
  boolean : ¬ LiteralType subschemas (.str "number") → ¬ LiteralType subschemas (.str "integer") →
    LiteralType subschemas (.str "boolean") → t = .str "boolean"

/-- The types that the code collects. -/
def literalTypes (subschemas : List Json) : List Json :=
  (subschemas.filterMap fun sub => match sub with
    | .obj d => (d.lookup "type").filter truthy
    | _ => none).filter (· ≠ .str "null")

theorem mem_literalTypes {subschemas : List Json} {t : Json} :
    t ∈ literalTypes subschemas ↔ LiteralType subschemas t := by
  rw [literalTypes,List.mem_filter,List.mem_filterMap,decide_eq_true_eq]
  constructor
  · rintro ⟨⟨sub,hsub,ht⟩,hnull⟩
    cases sub with
    | obj d =>
      obtain ⟨hlookup,htruthy⟩ := Option.filter_eq_some_iff.mp ht
      exact ⟨d,hsub,hlookup,htruthy,hnull⟩
    | _ => cases ht
  · rintro ⟨d,hd,hlookup,htruthy,hnull⟩
    exact ⟨⟨.obj d,hd,Option.filter_eq_some_iff.mpr ⟨hlookup,htruthy⟩⟩,hnull⟩

theorem primaryType_nil {subschemas : List Json} (htypes : literalTypes subschemas = []) :
    primaryType subschemas = .str "string" := by
  simp only [primaryType]
  split
  · rfl
  · next h => cases htypes.symm.trans h

theorem primaryType_cons {subschemas ts : List Json} {t : Json} (htypes : literalTypes subschemas = t :: ts) :
    primaryType subschemas =
      if .str "number" ∈ t :: ts then .str "number"
      else if .str "integer" ∈ t :: ts then .str "integer"
      else if .str "boolean" ∈ t :: ts then .str "boolean"
      else t := by
  simp only [primaryType]
  split
  · next h => cases htypes.symm.trans h
  · next h =>
    obtain ⟨rfl,rfl⟩ := List.cons.inj (htypes.symm.trans h)
    rfl

theorem primaryType_standsFor (subschemas : List Json) : StandsFor subschemas (primaryType subschemas) := by
  have hmem : ∀ t, t ∈ literalTypes subschemas ↔ LiteralType subschemas t := fun t => mem_literalTypes
  cases htypes : literalTypes subschemas with
  | nil =>
    rw [primaryType_nil htypes]
    have hnone : ∀ t, ¬ LiteralType subschemas t := fun t ht => by
      rw [← hmem,htypes] at ht
      cases ht
    exact ⟨fun ⟨t,ht⟩ => absurd ht (hnone t),fun _ => rfl,fun ht => absurd ht (hnone _),
      fun _ ht => absurd ht (hnone _),fun _ _ ht => absurd ht (hnone _)⟩
  | cons t ts =>
    rw [primaryType_cons htypes]
    rw [htypes] at hmem
    refine ⟨fun _ => ?_,fun h => ?_,fun hn => ?_,fun hn hi => ?_,fun hn hi hb => ?_⟩
    · rw [← hmem]
      split_ifs with hn hi hb
      · exact hn
      · exact hi
      · exact hb
      · exact List.mem_cons_self
    · exact absurd ⟨t,(hmem t).mp List.mem_cons_self⟩ h
    · rw [if_pos ((hmem _).mpr hn)]
    · rw [if_neg (mt (hmem _).mp hn),if_pos ((hmem _).mpr hi)]
    · rw [if_neg (mt (hmem _).mp hn),if_neg (mt (hmem _).mp hi),if_pos ((hmem _).mpr hb)]

/-- The schemas of properties, by their names. -/
def IsPropertyMap (props : Dict) : Prop := ∀ p ∈ props, (∃ d, p.2 = .obj d) ∨ ∃ b, p.2 = .bool b

/-- The names that are not taken for a pattern or a format. -/
def ordinary (names : List String) : List String := names.filter fun name => !forbidden.contains name

/-- What a node and the object that it is rebuilt to have in common, apart from the forbidden keys. -/
structure SameShape (node fields : Dict) : Prop where
  keys : ∀ key, key ∉ forbidden → (key ∈ fields.map Prod.fst ↔ key ∈ node.map written)
  names : ∀ props, ("properties",.obj props) ∈ node → IsPropertyMap props →
    ∃ props', fields.lookup "properties" = some (.obj props') ∧
      ordinary (props'.map Prod.fst) = ordinary (props.map Prod.fst)
  unions : ∀ subschemas, LastWritten "type" node ("anyOf",.arr subschemas) →
    ∃ t, fields.lookup "type" = some t ∧ StandsFor subschemas t

/-- The shape of any value: nodes that are no references keep theirs, lists their length, and
other values stay. -/
def KeepsShape : Json → Json → Prop
  | .obj node, w => ∃ fields, w = .obj fields ∧ ("$ref" ∉ node.map Prod.fst → SameShape node fields)
  | .arr items, w => ∃ ws, w = .arr ws ∧ ws.length = items.length
  | v, w => w = v

section Shape
variable {defs : Dict} (hdefs : Definitions defs)
include hdefs

/-- In a property map nothing is taken for a reference or a union. -/
theorem propertyMap_names {props : Dict} {w : Json} (hv : Resolvable defs (.obj props)) (hprops : IsPropertyMap props)
    (h : simplification defs (.obj props) = .ok w) : ∃ props', w = .obj props' ∧
      ordinary (props'.map Prod.fst) = ordinary (props.map Prod.fst) := by
  have habsent : "$ref" ∉ props.map Prod.fst := fun hmem => by
    obtain ⟨d,hd⟩ := hv.exists_reference hmem
    obtain ⟨refPath,hr,-⟩ := reference_eq_some.mp hd
    obtain ⟨d,hd⟩ | ⟨b,hb⟩ := hprops _ (Keyed.mem_of_lookup hr)
    · cases hd
    · cases hb
  have hunion : ∀ p ∈ props, isUnion p = false := fun p hp => by
    cases hu : isUnion p with
    | false => rfl
    | true =>
      obtain ⟨subschemas,rfl,-⟩ := entry_of_union hu
      obtain ⟨d,hd⟩ | ⟨b,hb⟩ := hprops _ hp
      · cases hd
      · cases hb
  obtain ⟨props',rfl⟩ := (simplification_obj hdefs.acyclic h).mpr ⟨props,rfl⟩
  rw [simplification_absent hdefs.acyclic habsent] at h
  refine ⟨props',rfl,?_⟩
  rw [rebuilt_order h hv.nodup hunion,ordinary,ordinary,List.filter_filter]
  exact List.filter_congr fun name _ => Bool.and_self _

theorem rebuilt_shape {node : Dict} {w : Json} (hv : Resolvable defs (.obj node)) (habsent : "$ref" ∉ node.map Prod.fst)
    (h : simplification defs (.obj node) = .ok w) : ∃ fields, w = .obj fields ∧ SameShape node fields := by
  obtain ⟨fields,rfl⟩ := (simplification_obj hdefs.acyclic h).mpr ⟨node,rfl⟩
  rw [simplification_absent hdefs.acyclic habsent] at h
  refine ⟨fields,rfl,fun key hkey => ?_,fun props hprops hmap => ?_,fun subschemas hlast => ?_⟩
  · rw [rebuilt_keys h,and_iff_right hkey]
  · obtain ⟨v,hv'⟩ := rebuild_returns.mp ⟨_,h⟩ _ hprops rfl
    have hprops' : Resolvable defs (.obj props) := hv.of_objects fun node' hnode' =>
      Json.mem_objects_obj.mpr (.inr ⟨_,hprops,hnode'⟩)
    obtain ⟨props',rfl,hnames⟩ := propertyMap_names hdefs hprops' hmap hv'
    have hother : "properties" ≠ "type" := by decide
    have hlast := LastWritten.of_mem hv.nodup hprops rfl hother
    exact ⟨props',rebuilt_field h hlast rfl (by decide) hv',hnames⟩
  · have hkey : "type" ∉ forbidden := by decide
    exact ⟨_,(rebuilt_lookup h).mpr ⟨hkey,_,hlast,rfl⟩,primaryType_standsFor subschemas⟩

theorem keepsShape {v w : Json} (hv : Resolvable defs v) (h : simplification defs v = .ok w) : KeepsShape v w := by
  cases v with
  | obj node =>
    obtain ⟨fields,rfl⟩ := (simplification_obj hdefs.acyclic h).mpr ⟨node,rfl⟩
    refine ⟨fields,rfl,fun habsent => ?_⟩
    obtain ⟨_,hw,hshape⟩ := rebuilt_shape hdefs hv habsent h
    cases hw
    exact hshape
  | arr items =>
    rw [simplification_arr hdefs.acyclic] at h
    obtain ⟨ws,hws,rfl⟩ := map_eq_ok h
    exact ⟨ws,rfl,(mapM_eq_ok.mp hws).length_eq.symm⟩
  | _ =>
    rw [simplification_eq hdefs.acyclic] at h
    exact (Except.ok.inj h).symm

end Shape

/-- Where in a result that stands which a value of the schema was simplified to. What a reference
names stands in its place. -/
inductive Placed (defs : Dict) (root out : Json) : Json → Json → Prop
  | root : Placed defs root out root out
  | ref {node d part} : Placed defs root out (.obj node) part → reference defs node = some d →
    Placed defs root out d part
  | field {node part key v w} : Placed defs root out (.obj node) (.obj part) → "$ref" ∉ node.map Prod.fst →
    LastWritten key node (key,v) → isUnion (key,v) = false → key ∉ forbidden → part.lookup key = some w →
    Placed defs root out v w
  | item {items parts : List Json} {n : ℕ} {v w : Json} : Placed defs root out (.arr items) (.arr parts) →
    items[n]? = some v → parts[n]? = some w → Placed defs root out v w

/-- The same value, or an object with more keys. -/
def Extends (part w : Json) : Prop :=
  part = w ∨ ∃ more fields, part = .obj more ∧ w = .obj fields ∧
    ∀ key v, fields.lookup key = some v → more.lookup key = some v

theorem Extends.trans {a b c : Json} (hab : Extends a b) (hbc : Extends b c) : Extends a c := by
  obtain rfl | ⟨more,fields,rfl,rfl,hmore⟩ := hab
  · exact hbc
  · obtain rfl | ⟨_,fields',hb,rfl,hfields⟩ := hbc
    · exact .inr ⟨more,fields,rfl,rfl,hmore⟩
    · cases hb
      exact .inr ⟨more,fields',rfl,rfl,fun key v h => hmore key v (hfields key v h)⟩

theorem Extends.lookup {more fields : Dict} (h : Extends (.obj more) (.obj fields)) {key : String} {v : Json}
    (hv : fields.lookup key = some v) : more.lookup key = some v := by
  obtain h | ⟨_,_,hmore,hfields,hall⟩ := h
  · cases h
    exact hv
  · cases hmore
    cases hfields
    exact hall key v hv

section Placed
variable {defs : Dict} (hdefs : Definitions defs)
include hdefs

theorem simplification_nodup {v : Json} {fields : Dict} (hv : Resolvable defs v)
    (h : simplification defs v = .ok (.obj fields)) : (fields.map Prod.fst).Nodup := by
  obtain ⟨node,rfl⟩ := (simplification_obj hdefs.acyclic h).mp ⟨fields,rfl⟩
  by_cases hmem : "$ref" ∈ node.map Prod.fst
  · obtain ⟨d,hd⟩ := hv.exists_reference hmem
    obtain ⟨resolved,-,hw⟩ := simplification_ref_ok hdefs.acyclic hd h
    cases hw
    exact update_nodup (Keyed.nodup_filter hv.nodup _) resolved
  · rw [simplification_absent hdefs.acyclic hmem] at h
    exact rebuilt_nodup h

/-- What a reference names keeps all its keywords beside those of the reference. -/
theorem merged_extends {node : Dict} {d w : Json} (hv : Resolvable defs (.obj node)) (hd : reference defs node = some d)
    (h : simplification defs (.obj node) = .ok w) : ∃ resolved, simplification defs d = .ok (.obj resolved) ∧
      Extends w (.obj resolved) := by
  obtain ⟨resolved,hresolved,rfl⟩ := simplification_ref_ok hdefs.acyclic hd h
  refine ⟨resolved,hresolved,.inr ⟨_,resolved,rfl,rfl,fun key v hkey => ?_⟩⟩
  rw [update_lookup,Keyed.lookup_reverse (simplification_nodup hdefs (hdefs.calls hv (.ref hd)) hresolved),hkey]
  rfl

theorem placed_simplification {root out : Json} (hroot : Resolvable defs root)
    (h : simplification defs root = .ok out) {v part : Json} (hplaced : Placed defs root out v part) :
    Resolvable defs v ∧ ∃ w, simplification defs v = .ok w ∧ Extends part w := by
  induction hplaced with
  | root => exact ⟨hroot,out,h,.inl rfl⟩
  | @ref node d part _ hd ih =>
    obtain ⟨hv,w,hw,hpart⟩ := ih
    obtain ⟨resolved,hresolved,hextends⟩ := merged_extends hdefs hv hd hw
    exact ⟨hdefs.calls hv (.ref hd),_,hresolved,hpart.trans hextends⟩
  | @field node part key v w _ habsent hlast hunion hkey hw ih =>
    obtain ⟨hv,_,hnode,hpart⟩ := ih
    refine ⟨hdefs.calls hv (.field (reference_absent habsent) hlast.mem.1 hunion),?_⟩
    obtain ⟨fields,rfl⟩ := (simplification_obj hdefs.acyclic hnode).mpr ⟨node,rfl⟩
    rw [simplification_absent hdefs.acyclic habsent] at hnode
    obtain ⟨u,hu⟩ := rebuild_returns.mp ⟨_,hnode⟩ _ hlast.mem.1 hunion
    have hfields : fields.lookup key = some u := rebuilt_field hnode hlast hunion hkey hu
    obtain rfl := Option.some.inj (hw.symm.trans (hpart.lookup hfields))
    exact ⟨w,hu,.inl rfl⟩
  | @item items parts n v w _ hv hw ih =>
    obtain ⟨hitems,_,harr,hpart⟩ := ih
    refine ⟨hdefs.calls hitems (.item (List.mem_of_getElem? hv)),?_⟩
    rw [simplification_arr hdefs.acyclic] at harr
    obtain ⟨ws,hws,rfl⟩ := map_eq_ok harr
    obtain hpart | ⟨_,_,hpart,-⟩ := hpart
    · cases hpart
      obtain ⟨hn,rfl⟩ := List.getElem?_eq_some_iff.mp hv
      obtain ⟨hm,rfl⟩ := List.getElem?_eq_some_iff.mp hw
      exact ⟨_,(List.forall₂_iff_get.mp (mapM_eq_ok.mp hws)).2 n hn hm,.inl rfl⟩
    · cases hpart

end Placed

/-- **Simplification keeps the shape.** Of a schema whose references can be resolved without circles
it ends; it returns exactly when each reference that it comes to names an object; and then what
stands in the place of a value has its shape, where unions are replaced by a type. -/
theorem simplified_shape {schema : Dict} (hschema : WellReferenced schema) :
    (∃ r, r ≠ .error .recursionError ∧ Recursion.Settled dereferenceAndSimplifySchema (.obj schema) r) ∧
    ((∃ out, Recursion.Settled dereferenceAndSimplifySchema (.obj schema) (.ok out)) ↔
      ∀ v, Relation.ReflTransGen (Calls (defsOf schema)) (.obj (rootOf schema)) v → RefersToObject (defsOf schema) v) ∧
    ∀ out, Recursion.Settled dereferenceAndSimplifySchema (.obj schema) (.ok out) →
      ∀ v part, Placed (defsOf schema) (.obj (rootOf schema)) out v part → ∃ w, Extends part w ∧ KeepsShape v w := by
  refine ⟨hschema.terminates,?_,fun out hout v part hplaced => ?_⟩
  · rw [← returns_iff hschema.definitions hschema.root]
    exact exists_congr fun out => hschema.settled_iff
  · obtain ⟨hv,w,hw,hpart⟩ :=
      placed_simplification hschema.definitions hschema.root (hschema.settled_iff.mp hout) hplaced
    exact ⟨w,hpart,keepsShape hschema.definitions hv hw⟩

def partySchema : Json := .obj [("type",.str "object"),("properties",.obj [("name",.obj [("type",.str "string")])])]

def partyRef : Dict := [("$ref",.str "#/$defs/Party")]

/-- A list and a reference lose what they are beside null, and a property its place by its name. -/
theorem union_loses_branch :
    Recursion.Settled dereferenceAndSimplifySchema
      (.obj [("anyOf",.arr [.obj [("type",.str "array"),("items",.obj [("type",.str "string")])],
        .obj [("type",.str "null")]])]) (.ok (.obj [("type",.str "array")])) ∧
    Recursion.Settled dereferenceAndSimplifySchema
      (.obj [("$defs",.obj [("Party",partySchema)]),("anyOf",.arr [.obj partyRef,.obj [("type",.str "null")]])])
      (.ok (.obj [("type",.str "string")])) ∧
    Recursion.Settled dereferenceAndSimplifySchema
      (.obj [("properties",.obj [("pattern",.obj [("type",.str "string")]),("name",.obj [("type",.str "string")])])])
      (.ok (.obj [("properties",.obj [("name",.obj [("type",.str "string")])])])) := by
  refine ⟨⟨4,fun depth h => ?_⟩,⟨4,fun depth h => ?_⟩,⟨4,fun depth h => ?_⟩⟩ <;>
  · obtain ⟨k,rfl⟩ := Nat.exists_eq_add_of_le' h
    rfl

section Sample

theorem refName_party : refName "#/$defs/Party" = "Party" := by
  have hsplit : "#/$defs/Party".splitOn "/" = ["#","$defs","Party"] := by
    rw [String.splitOn,if_neg (by decide)]
    simp +decide [String.splitOnAux]
  rw [refName,hsplit]
  rfl

def optionalDate : List Json := [.obj [("type",.str "string"),("format",.str "date")],.obj [("type",.str "null")]]

/-- A schema of a party and an optional date. -/
def sampleSchema : Dict :=
  [("$defs",.obj [("Party",partySchema)]),("type",.str "object"),
    ("properties",.obj [("vendor",.obj partyRef),("due",.obj [("anyOf",.arr optionalDate)])])]

theorem reference_party {node : Dict} (h : node.lookup "$ref" = some (.str "#/$defs/Party")) :
    reference [("Party",partySchema)] node = some partySchema := by
  refine reference_eq_some.mpr ⟨_,h,?_⟩
  rw [definition,if_pos (by decide),← refName,refName_party]
  rfl

theorem sampleSchema_wellReferenced : WellReferenced sampleSchema where
  acyclic := acyclic_of_flat (by decide)
  resolvable := by
    refine ⟨by decide,fun node hnode hmem => ?_⟩
    have hparty : ∀ node ∈ (Json.obj sampleSchema).objects, "$ref" ∈ node.map Prod.fst →
        node.lookup "$ref" = some (.str "#/$defs/Party") := by decide
    rw [show defsOf sampleSchema = [("Party",partySchema)] from rfl,reference_party (hparty node hnode hmem)]
    rfl

theorem sampleSchema_objects : ∀ p ∈ defsOf sampleSchema, ∃ fields, p.2 = .obj fields := fun p hp => by
  obtain rfl := List.mem_singleton.mp hp
  exact ⟨_,rfl⟩

theorem sampleSchema_shape : ∃ out, Recursion.Settled dereferenceAndSimplifySchema (.obj sampleSchema) (.ok out) ∧
    ∀ v part, Placed (defsOf sampleSchema) (.obj (rootOf sampleSchema)) out v part →
      ∃ w, Extends part w ∧ KeepsShape v w := by
  obtain ⟨-,hreturns,hshape⟩ := simplified_shape sampleSchema_wellReferenced
  obtain ⟨out,hout⟩ := hreturns.mpr fun v _ => refersToObject_of_objects sampleSchema_objects v
  exact ⟨out,hout,hshape out hout⟩

end Sample

end StructuredExtractor.SimplifySchema
