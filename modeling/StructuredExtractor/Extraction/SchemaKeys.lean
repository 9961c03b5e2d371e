import StructuredExtractor.Extraction.SchemaShape

/-! # What simplification leaves in a schema

A node that is rebuilt loses the keys that the provider rejects. One with a reference
does not: what stands beside the reference is taken over as it is, except where the
definition has the same key.
-/
namespace StructuredExtractor.SimplifySchema

/-- The keys that the provider rejects. -/
def rejected : List String := ["$ref","$defs","anyOf","pattern","format"]

/-- No object in a value has a rejected key. -/
def Clean (v : Json) : Prop := ∀ node ∈ v.objects, ∀ key ∈ rejected, key ∉ node.map Prod.fst

instance (v : Json) : Decidable (Clean v) := inferInstanceAs (Decidable (∀ node ∈ v.objects, _))

section Clean

theorem clean_arr {items : List Json} : Clean (.arr items) ↔ ∀ v ∈ items, Clean v := by
  constructor
  · exact fun h v hv node hnode => h node (Json.mem_objects_arr.mpr ⟨v,hv,hnode⟩)
  · intro h node hnode
    obtain ⟨v,hv,hnode⟩ := Json.mem_objects_arr.mp hnode
    exact h v hv node hnode

theorem clean_obj {fields : Dict} : Clean (.obj fields) ↔ ∀ p ∈ fields, p.1 ∉ rejected ∧ Clean p.2 := by
  constructor
  · intro h p hp
    refine ⟨fun hkey => ?_,fun node hnode => h node (Json.mem_objects_obj.mpr (.inr ⟨p,hp,hnode⟩))⟩
    exact h fields (Json.self_mem_objects fields) p.1 hkey (List.mem_map_of_mem hp)
  · intro h node hnode key hkey hmem
    obtain rfl | ⟨p,hp,hnode⟩ := Json.mem_objects_obj.mp hnode
    · obtain ⟨p,hp,rfl⟩ := List.mem_map.mp hmem
      exact (h p hp).1 hkey
    · exact (h p hp).2 node hnode key hkey hmem

/-- The same by what is found under the keys. -/
theorem clean_lookup {fields : Dict} (hn : (fields.map Prod.fst).Nodup) :
    Clean (.obj fields) ↔ ∀ key w, fields.lookup key = some w → key ∉ rejected ∧ Clean w := by
  rw [clean_obj]
  constructor
  · exact fun h key w hw => h (key,w) ((Keyed.mem_iff_lookup hn (key,w)).mpr hw)
  · exact fun h p hp => h p.1 p.2 ((Keyed.mem_iff_lookup hn p).mp hp)

end Clean

/-- The values that have their part in the result. -/
inductive Keeps (defs : Dict) : Json → Json → Prop
  | ref {node d} : reference defs node = some d → Keeps defs (.obj node) d
  | field {node key v} : "$ref" ∉ node.map Prod.fst → LastWritten key node (key,v) → isUnion (key,v) = false →
    key ∉ forbidden → Keeps defs (.obj node) v
  | item {items v} : v ∈ items → Keeps defs (.arr items) v

theorem Keeps.calls {defs : Dict} {v w : Json} (h : Keeps defs v w) : Calls defs v w := by
  cases h with
  | ref hd => exact .ref hd
  | field habsent hlast hunion _ =>
    exact .field (reference_absent habsent) hlast.mem.1 hunion
  | item hmem => exact .item hmem

/-- The keys that an object has when it was simplified. -/
inductive HasKey (defs : Dict) (key : String) : Json → Prop
  | rebuilt {node} : "$ref" ∉ node.map Prod.fst → key ∉ forbidden → key ∈ node.map written → HasKey defs key (.obj node)
  | beside {node d} : reference defs node = some d → key ∈ node.map Prod.fst → key ≠ "$ref" → HasKey defs key (.obj node)
  | resolved {node d} : reference defs node = some d → HasKey defs key d → HasKey defs key (.obj node)

section Keys
variable {defs : Dict} (hdefs : Definitions defs)
include hdefs

theorem hasKey_iff {v : Json} {fields : Dict} {key : String} (hv : Resolvable defs v)
    (h : simplification defs v = .ok (.obj fields)) : key ∈ fields.map Prod.fst ↔ HasKey defs key v := by
  induction acc hdefs.acyclic v generalizing fields with
  | intro v _ ih =>
    obtain ⟨node,rfl⟩ := (simplification_obj hdefs.acyclic h).mp ⟨fields,rfl⟩
    by_cases hmem : "$ref" ∈ node.map Prod.fst
    · obtain ⟨d,hd⟩ := hv.exists_reference hmem
      obtain ⟨resolved,hresolved,hw⟩ := simplification_ref_ok hdefs.acyclic hd h
      cases hw
      have hbeside : key ∈ (node.filter fun p => p.1 ≠ "$ref").map Prod.fst ↔ key ∈ node.map Prod.fst ∧ key ≠ "$ref" := by
        rw [← Keyed.lookup_isSome_iff,Keyed.lookup_filter_keys fun name => decide (name ≠ "$ref"),
          ← Keyed.lookup_isSome_iff]
        by_cases hkey : key = "$ref" <;> simp [hkey]
      rw [update_keys,hbeside,ih d (.ref hd) (hdefs.calls hv (.ref hd)) hresolved]
      constructor
      · rintro (⟨hnode,hkey⟩ | hkey)
        · exact .beside hd hnode hkey
        · exact .resolved hd hkey
      · rintro (⟨habsent,-,-⟩ | ⟨-,hnode,hkey⟩ | ⟨hd',hkey⟩)
        · exact absurd hmem habsent
        · exact .inl ⟨hnode,hkey⟩
        · obtain rfl := Option.some.inj (hd.symm.trans hd')
          exact .inr hkey
    · rw [simplification_absent hdefs.acyclic hmem] at h
      have hnone : reference defs node = none := reference_absent hmem
      rw [rebuilt_keys h]
      constructor
      · exact fun ⟨hkey,hwritten⟩ => .rebuilt hmem hkey hwritten
      · rintro (⟨-,hkey,hwritten⟩ | ⟨hd,-,-⟩ | ⟨hd,-⟩)
        · exact ⟨hkey,hwritten⟩
        · cases hnone.symm.trans hd
        · cases hnone.symm.trans hd

/-- The union keywords of a value are lists. -/
def ListUnions (v : Json) : Prop := ∀ node ∈ v.objects, ∀ sub, ("anyOf",sub) ∈ node → ∃ items, sub = .arr items

/-- What a call itself adds to the result has no rejected key: a node that is rebuilt has no
definitions of its own and no odd type in a union, and what stands beside a reference is clean
where the definition does not overwrite it. -/
def CleanHere (defs : Dict) (v : Json) : Prop :=
  ∀ node, v = .obj node →
    ("$ref" ∉ node.map Prod.fst → "$defs" ∉ node.map Prod.fst ∧
      ∀ subschemas, LastWritten "type" node ("anyOf",.arr subschemas) → Clean (primaryType subschemas)) ∧
    ∀ d, reference defs node = some d → ∀ p ∈ node, p.1 ≠ "$ref" → ¬ HasKey defs p.1 d → p.1 ∉ rejected ∧ Clean p.2

omit hdefs in
/-- A keyword that is kept is rejected only where a node has definitions of its own. -/
theorem kept_not_rejected {node : Dict} (hunions : ∀ sub, ("anyOf",sub) ∈ node → ∃ items, sub = .arr items)
    (habsent : "$ref" ∉ node.map Prod.fst) (hdefs : "$defs" ∉ node.map Prod.fst) {p : String × Json} (hp : p ∈ node)
    (hunion : isUnion p = false) (hkey : p.1 ∉ forbidden) : p.1 ∉ rejected := by
  intro hmem
  have hnode : p.1 ∈ node.map Prod.fst := List.mem_map_of_mem hp
  obtain hr | hd | ha : p.1 = "$ref" ∨ p.1 = "$defs" ∨ p.1 = "anyOf" := by
    simp only [rejected,forbidden,List.mem_cons,List.not_mem_nil] at hmem hkey
    tauto
  · exact habsent (hr ▸ hnode)
  · exact hdefs (hd ▸ hnode)
  · obtain ⟨key,v⟩ := p
    obtain rfl := ha
    obtain ⟨items,rfl⟩ := hunions v hp
    cases hunion

omit hdefs in
theorem rebuilt_clean {f : Json → Except Exc Json} {node fields : Dict}
    (hunions : ∀ sub, ("anyOf",sub) ∈ node → ∃ items, sub = .arr items) (habsent : "$ref" ∉ node.map Prod.fst)
    (h : rebuild f node = .ok (.obj fields)) : Clean (.obj fields) ↔
      ("$defs" ∉ node.map Prod.fst ∧
        ∀ subschemas, LastWritten "type" node ("anyOf",.arr subschemas) → Clean (primaryType subschemas)) ∧
      ∀ key v, LastWritten key node (key,v) → isUnion (key,v) = false → key ∉ forbidden → ∀ w, f v = .ok w → Clean w := by
  have hlookup := clean_lookup (rebuilt_nodup h)
  constructor
  · intro hclean
    refine ⟨⟨fun hdefs => ?_,fun subschemas hlast => ?_⟩,fun key v hlast hunion hkey w hw => ?_⟩
    · have hkept : "$defs" ∈ fields.map Prod.fst :=
        (rebuilt_keys h "$defs").mpr ⟨by decide,(mem_written (by decide) (by decide)).mpr hdefs⟩
      exact hclean fields (Json.self_mem_objects fields) "$defs" (by decide) hkept
    · exact (hlookup.mp hclean "type" _ ((rebuilt_lookup h).mpr ⟨by decide,_,hlast,rfl⟩)).2
    · exact (hlookup.mp hclean key w (rebuilt_field h hlast hunion hkey hw)).2
  · rintro ⟨⟨hdefs,htype⟩,hvalues⟩
    refine hlookup.mpr fun key w hw => ?_
    obtain ⟨hkey,p,hlast,he⟩ := (rebuilt_lookup h).mp hw
    cases hu : isUnion p with
    | true =>
      obtain ⟨subschemas,rfl,hok⟩ := entry_of_union hu
      cases (hok f).symm.trans he
      exact ⟨by decide,htype subschemas hlast⟩
    | false =>
      rw [entry_of_field hu] at he
      obtain ⟨_,hw',hp⟩ := map_eq_ok he
      cases hp
      exact ⟨kept_not_rejected hunions habsent hdefs hlast.mem.1 hu hkey,hvalues p.1 p.2 hlast hu hkey _ hw'⟩

omit hdefs in
/-- Beside a reference only what is overwritten may be unclean. -/
theorem merged_clean {node resolved : Dict} (hn : (node.map Prod.fst).Nodup) (hresolved : (resolved.map Prod.fst).Nodup) :
    Clean (.obj (update (node.filter fun p => p.1 ≠ "$ref") resolved)) ↔
      (∀ p ∈ node, p.1 ≠ "$ref" → p.1 ∉ resolved.map Prod.fst → p.1 ∉ rejected ∧ Clean p.2) ∧
      Clean (.obj resolved) := by
  have hbeside : ((node.filter fun p => p.1 ≠ "$ref").map Prod.fst).Nodup :=
    Keyed.nodup_filter hn _
  have hlookup : ∀ key, (update (node.filter fun p => p.1 ≠ "$ref") resolved).lookup key =
      (resolved.lookup key).or ((node.filter fun p => p.1 ≠ "$ref").lookup key) := fun key => by
    rw [update_lookup,Keyed.lookup_reverse hresolved]
  rw [clean_lookup (update_nodup hbeside resolved),clean_lookup hresolved]
  constructor
  · intro h
    refine ⟨fun p hp hkey hnew => h p.1 p.2 ?_,fun key w hw => h key w ?_⟩
    · rw [hlookup,Keyed.lookup_eq_none hnew,Option.none_or]
      exact (Keyed.mem_iff_lookup hbeside p).mp (List.mem_filter.mpr ⟨hp,decide_eq_true hkey⟩)
    · rw [hlookup,hw]
      rfl
  · rintro ⟨hnode,hall⟩ key w hw
    rw [hlookup] at hw
    cases hr : resolved.lookup key with
    | some w' =>
      rw [hr] at hw
      cases hw
      exact hall key w hr
    | none =>
      rw [hr,Option.none_or] at hw
      obtain ⟨hp,hkey⟩ := List.mem_filter.mp ((Keyed.mem_iff_lookup hbeside (key,w)).mpr hw)
      exact hnode (key,w) hp (of_decide_eq_true hkey) (Keyed.lookup_eq_none_iff.mp hr)

omit hdefs in
theorem mapM_forall {f : Json → Except Exc Json} {items ws : List Json} (h : items.mapM f = .ok ws) (p : Json → Prop) :
    (∀ w ∈ ws, p w) ↔ ∀ v ∈ items, ∀ w, f v = .ok w → p w := by
  have hforall := mapM_eq_ok.mp h
  clear h
  induction hforall with
  | nil => simp
  | @cons v w items ws hw _ ih =>
    rw [List.forall_mem_cons,List.forall_mem_cons,hw]
    exact and_congr ⟨fun hp w' hw' => Except.ok.inj hw' ▸ hp,fun hp => hp w rfl⟩ ih

theorem clean_reference {node : Dict} {d : Json} (hv : Resolvable defs (.obj node)) (hd : reference defs node = some d)
    {w : Json} (h : simplification defs (.obj node) = .ok w) : Clean w ↔ CleanHere defs (.obj node) ∧
      ∀ u, Keeps defs (.obj node) u → ∀ w', simplification defs u = .ok w' → Clean w' := by
  have hmem : "$ref" ∈ node.map Prod.fst := by
    by_contra habsent
    cases (reference_absent habsent).symm.trans hd
  obtain ⟨resolved,hresolved,hw⟩ := simplification_ref_ok hdefs.acyclic hd h
  cases hw
  have hv' := hdefs.calls hv (.ref hd)
  rw [merged_clean hv.nodup (simplification_nodup hdefs hv' hresolved)]
  constructor
  · rintro ⟨hbeside,hclean⟩
    refine ⟨fun _ hnode => ?_,fun u hu w' hw' => ?_⟩
    · cases hnode
      refine ⟨fun habsent => absurd hmem habsent,fun d' hd' p hp hkey hnew => hbeside p hp hkey ?_⟩
      obtain rfl := Option.some.inj (hd.symm.trans hd')
      rwa [hasKey_iff hdefs hv' hresolved]
    · cases hu with
      | ref hd' =>
        obtain rfl := Option.some.inj (hd.symm.trans hd')
        cases hresolved.symm.trans hw'
        exact hclean
      | field habsent => exact absurd hmem habsent
  · rintro ⟨hhere,hkeeps⟩
    refine ⟨fun p hp hkey hnew => (hhere node rfl).2 d hd p hp hkey ?_,hkeeps d (.ref hd) _ hresolved⟩
    rwa [← hasKey_iff hdefs hv' hresolved]

theorem clean_inline {node : Dict} (hunions : ListUnions (.obj node)) (habsent : "$ref" ∉ node.map Prod.fst)
    {w : Json} (h : simplification defs (.obj node) = .ok w) : Clean w ↔ CleanHere defs (.obj node) ∧
      ∀ u, Keeps defs (.obj node) u → ∀ w', simplification defs u = .ok w' → Clean w' := by
  obtain ⟨fields,rfl⟩ := (simplification_obj hdefs.acyclic h).mpr ⟨node,rfl⟩
  rw [simplification_absent hdefs.acyclic habsent] at h
  have hnone : reference defs node = none := reference_absent habsent
  rw [rebuilt_clean (hunions node (Json.self_mem_objects node)) habsent h]
  constructor
  · rintro ⟨hhere,hvalues⟩
    refine ⟨fun _ hnode => ?_,fun u hu => ?_⟩
    · cases hnode
      exact ⟨fun _ => hhere,fun d hd => by cases hnone.symm.trans hd⟩
    · cases hu with
      | ref hd => cases hnone.symm.trans hd
      | field _ hlast hunion hkey => exact hvalues _ u hlast hunion hkey
  · rintro ⟨hhere,hkeeps⟩
    exact ⟨(hhere node rfl).1 habsent,fun key v hlast hunion hkey => hkeeps v (.field habsent hlast hunion hkey)⟩

/-- The result of one call is clean when that call adds nothing rejected and the results of those
that it keeps are clean. -/
theorem clean_step {v w : Json} (hv : Resolvable defs v) (hunions : ListUnions v) (h : simplification defs v = .ok w) :
    Clean w ↔ CleanHere defs v ∧ ∀ u, Keeps defs v u → ∀ w', simplification defs u = .ok w' → Clean w' := by
  cases v with
  | obj node =>
    by_cases hmem : "$ref" ∈ node.map Prod.fst
    · obtain ⟨d,hd⟩ := hv.exists_reference hmem
      exact clean_reference hdefs hv hd h
    · exact clean_inline hdefs hunions hmem h
  | arr items =>
    rw [simplification_arr hdefs.acyclic] at h
    obtain ⟨ws,hws,rfl⟩ := map_eq_ok h
    rw [clean_arr,mapM_forall hws]
    constructor
    · refine fun hitems => ⟨fun _ hnode => (by cases hnode),fun u hu => ?_⟩
      cases hu with
      | item hmem => exact hitems u hmem
    · exact fun h v hv => h.2 v (.item hv)
  | _ =>
    rw [simplification_eq hdefs.acyclic] at h
    cases h
    refine iff_of_true (fun node hnode => by cases hnode) ⟨fun _ hnode => (by cases hnode),fun u hu => ?_⟩
    cases hu

/-- The result is clean when no call that has its part in it adds anything rejected. -/
theorem clean_iff (hlists : ∀ name d, defs.lookup name = some d → ListUnions d) {v w : Json} (hv : Resolvable defs v)
    (hunions : ListUnions v) (h : simplification defs v = .ok w) :
    Clean w ↔ ∀ u, Relation.ReflTransGen (Keeps defs) v u → CleanHere defs u := by
  induction acc hdefs.acyclic v generalizing w with
  | intro v _ ih =>
    rw [clean_step hdefs hv hunions h,Recursion.forall_reachable_iff]
    refine and_congr_right fun _ => forall₂_congr fun u hu => ?_
    obtain ⟨w',hw'⟩ := ((returns_step hdefs hv).mp ⟨w,h⟩).2 u hu.calls
    have hu' := ih u hu.calls (hdefs.calls hv hu.calls) (hu.calls.objects hunions hlists) hw'
    refine ⟨fun hclean => hu'.mp (hclean w' hw'),fun hall w'' hw'' => ?_⟩
    cases hw'.symm.trans hw''
    exact hu'.mpr hall

end Keys

/-- What a schema has to be for its simplification to be clean: every reference that simplification
comes to names an object, and no call that has its part in the result adds a rejected key. -/
structure Simplifiable (defs : Dict) (root : Json) : Prop where
  refers : ∀ v, Relation.ReflTransGen (Calls defs) root v → RefersToObject defs v
  clean : ∀ v, Relation.ReflTransGen (Keeps defs) root v → CleanHere defs v

/-- **Simplification ends, and what it leaves.** Of a schema whose references can be resolved without
circles and whose unions are lists it ends. It returns a schema without the rejected keys exactly
when the schema is simplifiable. -/
theorem simplified_clean_iff {schema : Dict} (hschema : WellReferenced schema) (hunions : ListUnions (.obj schema)) :
    (∃ r, r ≠ .error .recursionError ∧ Recursion.Settled dereferenceAndSimplifySchema (.obj schema) r) ∧
    ((∃ out, Recursion.Settled dereferenceAndSimplifySchema (.obj schema) (.ok out) ∧ Clean out) ↔
      Simplifiable (defsOf schema) (.obj (rootOf schema))) := by
  have hroot : ListUnions (.obj (rootOf schema)) := fun node hnode sub hsub => by
    obtain rfl | hnode := rootOf_objects hnode
    · exact hunions schema (Json.self_mem_objects schema) sub (List.mem_of_mem_filter hsub)
    · exact hunions node hnode sub hsub
  have hlists : ∀ name d, (defsOf schema).lookup name = some d → ListUnions d := fun name d hd node hnode =>
    hunions node (defsOf_objects hd hnode)
  refine ⟨hschema.terminates,?_⟩
  constructor
  · rintro ⟨out,hout,hclean⟩
    rw [hschema.settled_iff] at hout
    exact ⟨(returns_iff hschema.definitions hschema.root).mp ⟨out,hout⟩,
      (clean_iff hschema.definitions hlists hschema.root hroot hout).mp hclean⟩
  · rintro ⟨hrefers,hclean⟩
    obtain ⟨out,hout⟩ := (returns_iff hschema.definitions hschema.root).mpr hrefers
    exact ⟨out,hschema.settled_iff.mpr hout,
      (clean_iff hschema.definitions hlists hschema.root hroot hout).mpr hclean⟩

section Fixed
variable {defs : Dict}

/-- A clean value with distinct keys is its own simplification. -/
theorem simplification_of_clean (hacyclic : Acyclic defs) {v : Json} (hclean : Clean v)
    (hdistinct : ∀ node ∈ v.objects, (node.map Prod.fst).Nodup) : simplification defs v = .ok v := by
  induction acc hacyclic v with
  | intro v _ ih =>
    cases v with
    | obj node =>
      have hkeys : ∀ key ∈ rejected, key ∉ node.map Prod.fst := hclean node (Json.self_mem_objects node)
      have hnodup := hdistinct node (Json.self_mem_objects node)
      have hsub : ∀ p ∈ node, ∀ d ∈ p.2.objects, d ∈ (Json.obj node).objects := fun p hp d hd =>
        Json.mem_objects_obj.mpr (.inr ⟨p,hp,hd⟩)
      have habsent : "$ref" ∉ node.map Prod.fst := hkeys _ (by decide)
      have hentry : ∀ p ∈ node, entry (simplification defs) p = .ok p := fun p hp => by
        have hunion : isUnion p = false := by
          cases hu : isUnion p with
          | false => rfl
          | true =>
            obtain ⟨subs,rfl,-⟩ := entry_of_union hu
            exact absurd (List.mem_map_of_mem hp) (hkeys "anyOf" (by decide))
        have hvalue : simplification defs p.2 = .ok p.2 :=
          ih p.2 (.field (reference_absent habsent) hp hunion) (fun d hd => hclean d (hsub p hp d hd))
            fun d hd => hdistinct d (hsub p hp d hd)
        rw [entry_of_field hunion,hvalue]
        rfl
      have hentries : node.mapM (entry (simplification defs)) = .ok node :=
        mapM_eq_ok.mpr (List.forall₂_same.mpr hentry)
      have hkept : node.filter (fun p => !forbidden.contains p.1) = node := by
        refine List.filter_eq_self.mpr fun p hp => ?_
        have hforbidden : p.1 ∉ forbidden := fun hkey => by
          have hrejected : p.1 ∈ rejected := by
            simp only [forbidden,rejected,List.mem_cons,List.not_mem_nil,or_false] at hkey ⊢
            tauto
          exact hkeys _ hrejected (List.mem_map_of_mem hp)
        simpa using hforbidden
      rw [simplification_absent hacyclic habsent]
      refine rebuild_eq_ok.mpr ⟨node,mapM_eq_ok.mp hentries,?_⟩
      rw [update_append (by simpa using hnodup),List.nil_append,hkept]
    | arr items =>
      have hitem : ∀ v ∈ items, simplification defs v = .ok v := fun v hv =>
        ih v (.item hv) (fun d hd => hclean d (Json.mem_objects_arr.mpr ⟨v,hv,hd⟩))
          fun d hd => hdistinct d (Json.mem_objects_arr.mpr ⟨v,hv,hd⟩)
      have hitems : items.mapM (simplification defs) = .ok items := mapM_eq_ok.mpr (List.forall₂_same.mpr hitem)
      rw [simplification_arr hacyclic,hitems]
      rfl
    | _ => exact simplification_eq hacyclic _

/-- The type that stands for a union stood in it. -/
theorem primaryType_objects {subschemas : List Json} {node : Dict} (h : node ∈ (primaryType subschemas).objects) :
    node ∈ (Json.arr subschemas).objects := by
  have hstands := primaryType_standsFor subschemas
  by_cases hliteral : ∃ t, LiteralType subschemas t
  · obtain ⟨d,hd,htype,-⟩ := hstands.literal hliteral
    refine Json.mem_objects_arr.mpr ⟨_,hd,Json.mem_objects_obj.mpr (.inr ⟨_,Keyed.mem_of_lookup htype,h⟩)⟩
  · rw [hstands.fallback hliteral] at h
    cases h

/-- No object in the result has a key twice. -/
theorem simplification_distinct (hdefs : Definitions defs) {v w : Json} (hv : Resolvable defs v)
    (h : simplification defs v = .ok w) : ∀ node ∈ w.objects, (node.map Prod.fst).Nodup := by
  induction acc hdefs.acyclic v generalizing w with
  | intro v _ ih =>
    cases v with
    | obj node =>
      obtain ⟨fields,rfl⟩ := (simplification_obj hdefs.acyclic h).mpr ⟨node,rfl⟩
      intro inner hinner
      obtain rfl | ⟨⟨key,value⟩,hp,hin⟩ := Json.mem_objects_obj.mp hinner
      · exact simplification_nodup hdefs hv h
      by_cases hmem : "$ref" ∈ node.map Prod.fst
      · obtain ⟨d,hd⟩ := hv.exists_reference hmem
        obtain ⟨resolved,hresolved,hw⟩ := simplification_ref_ok hdefs.acyclic hd h
        cases hw
        have hfields := (Keyed.mem_iff_lookup (simplification_nodup hdefs hv h) _).mp hp
        rw [update_lookup] at hfields
        cases hold : resolved.reverse.lookup key with
        | some value' =>
          rw [hold] at hfields
          cases hfields
          have hresolved' := List.mem_reverse.mp (Keyed.mem_of_lookup hold)
          exact ih d (.ref hd) (hdefs.calls hv (.ref hd)) hresolved inner
            (Json.mem_objects_obj.mpr (.inr ⟨_,hresolved',hin⟩))
        | none =>
          rw [hold,Option.none_or] at hfields
          have hbeside := List.mem_of_mem_filter (Keyed.mem_of_lookup hfields)
          exact hv.distinct inner (Json.mem_objects_obj.mpr (.inr ⟨_,hbeside,hin⟩))
      · have hrebuild := (simplification_absent hdefs.acyclic hmem).symm.trans h
        obtain ⟨-,p,hlast,he⟩ := (rebuilt_lookup hrebuild).mp ((Keyed.mem_iff_lookup (rebuilt_nodup hrebuild) _).mp hp)
        cases hu : isUnion p with
        | true =>
          obtain ⟨subs,rfl,hok⟩ := entry_of_union hu
          cases (hok _).symm.trans he
          exact hv.distinct inner (Json.mem_objects_obj.mpr (.inr ⟨_,hlast.mem.1,primaryType_objects hin⟩))
        | false =>
          rw [entry_of_field hu] at he
          obtain ⟨value',hvalue,hp⟩ := map_eq_ok he
          cases hp
          have hcall : Calls defs (.obj node) p.2 := .field (reference_absent hmem) hlast.mem.1 hu
          exact ih p.2 hcall (hdefs.calls hv hcall) hvalue inner hin
    | arr items =>
      rw [simplification_arr hdefs.acyclic] at h
      obtain ⟨ws,hws,rfl⟩ := map_eq_ok h
      intro inner hinner
      obtain ⟨value,hvalue,hinner⟩ := Json.mem_objects_arr.mp hinner
      have hall := (mapM_forall hws fun w => ∀ node ∈ w.objects, (node.map Prod.fst).Nodup).mpr fun u hu w hw =>
        ih u (.item hu) (hdefs.calls hv (.item hu)) hw
      exact hall value hvalue inner hinner
    | _ =>
      rw [simplification_eq hdefs.acyclic] at h
      cases h
      exact fun node hnode => by cases hnode

end Fixed

/-- **A clean result is final.** What a schema is simplified to stays the same when it is simplified
again, if the provider would not reject it. -/
theorem simplified_again {schema : Dict} (hschema : WellReferenced schema) {out : Json}
    (hout : Recursion.Settled dereferenceAndSimplifySchema (.obj schema) (.ok out)) (hclean : Clean out) :
    Recursion.Settled dereferenceAndSimplifySchema out (.ok out) := by
  have hresult := hschema.settled_iff.mp hout
  obtain ⟨fields,rfl⟩ := (simplification_obj hschema.acyclic hresult).mpr ⟨_,rfl⟩
  have hnone : "$defs" ∉ fields.map Prod.fst := hclean fields (Json.self_mem_objects fields) _ (by decide)
  have hdefs : defsOf fields = [] := by
    unfold defsOf
    rw [Keyed.lookup_eq_none hnone]
  have hroot : rootOf fields = fields := by
    refine List.filter_eq_self.mpr fun p hp => decide_eq_true fun hkey => hnone ?_
    exact hkey ▸ List.mem_map_of_mem hp
  have hacyclic : Acyclic [] := acyclic_of_flat fun p hp => by cases hp
  have hfixed : simplification [] (.obj fields) = .ok (.obj fields) :=
    simplification_of_clean hacyclic hclean (simplification_distinct hschema.definitions hschema.root hresult)
  obtain ⟨least,hleast⟩ := simplification_settled hacyclic (.obj fields)
  refine ⟨least,fun depth hdepth => ?_⟩
  rw [dereference_eq,hdefs,hroot,hleast depth hdepth,hfixed]

/-- Nothing stands beside a reference, there are no definitions inside, and the type of a union
is clean. -/
def Bare (node : Dict) : Prop :=
  "$defs" ∉ node.map Prod.fst ∧ ("$ref" ∈ node.map Prod.fst → ∀ p ∈ node, p.1 = "$ref") ∧
    ∀ p ∈ node, ∀ subschemas, p = ("anyOf",.arr subschemas) → Clean (primaryType subschemas)

theorem cleanHere_of_bare {defs : Dict} {v : Json} (h : ∀ node ∈ v.objects, Bare node) : CleanHere defs v := by
  rintro node rfl
  obtain ⟨hdefs,hrefs,hunions⟩ := h node (Json.self_mem_objects node)
  refine ⟨fun _ => ⟨hdefs,fun subschemas hlast => hunions _ hlast.mem.1 subschemas rfl⟩,fun d hd p hp hkey => ?_⟩
  have hmem : "$ref" ∈ node.map Prod.fst := by
    by_contra habsent
    cases (reference_absent habsent).symm.trans hd
  exact absurd (hrefs hmem p hp) hkey

/-- A schema whose references stand alone and name objects is simplifiable. -/
theorem simplifiable_of_bare {defs : Dict} {root : Json} (hobjects : ∀ p ∈ defs, ∃ fields, p.2 = .obj fields)
    (hdefs : ∀ name d, defs.lookup name = some d → ∀ node ∈ d.objects, Bare node)
    (hroot : ∀ node ∈ root.objects, Bare node) : Simplifiable defs root where
  refers v _ := refersToObject_of_objects hobjects v
  clean v hv := by
    refine cleanHere_of_bare ?_
    induction hv with
    | refl => exact hroot
    | tail _ hkeeps ih => exact hkeeps.calls.objects ih hdefs

section Sample

/-- A reference with a pattern beside it. -/
def besideSchema : Dict :=
  [("$defs",.obj [("Party",partySchema)]),("$ref",.str "#/$defs/Party"),("pattern",.str "^A")]

/-- The pattern beside a reference stays. -/
theorem besideSchema_unclean : WellReferenced besideSchema ∧ ListUnions (.obj besideSchema) ∧
    ∀ out, Recursion.Settled dereferenceAndSimplifySchema (.obj besideSchema) (.ok out) → ¬ Clean out := by
  have hwell : WellReferenced besideSchema := by
    refine ⟨acyclic_of_flat (by decide),by decide,fun node hnode hmem => ?_⟩
    have hparty : ∀ node ∈ (Json.obj besideSchema).objects, "$ref" ∈ node.map Prod.fst →
        node.lookup "$ref" = some (.str "#/$defs/Party") := by decide
    rw [show defsOf besideSchema = [("Party",partySchema)] from rfl,reference_party (hparty node hnode hmem)]
    rfl
  have hsettled : Recursion.Settled dereferenceAndSimplifySchema (.obj besideSchema)
      (.ok (.obj (update [("pattern",.str "^A")] [("type",.str "object"),
        ("properties",.obj [("name",.obj [("type",.str "string")])])]))) := by
    refine ⟨5,fun depth h => ?_⟩
    obtain ⟨k,rfl⟩ := Nat.exists_eq_add_of_le' h
    have hroot : reference (defsOf besideSchema) (rootOf besideSchema) = some partySchema := reference_party rfl
    rw [dereference_eq,resolveAndSimplify_succ,step_of_reference hroot]
    rfl
  refine ⟨hwell,fun node hnode sub hsub => ?_,fun out hout => ?_⟩
  · have hnone : ∀ node ∈ (Json.obj besideSchema).objects, "anyOf" ∉ node.map Prod.fst := by decide
    exact absurd (List.mem_map_of_mem hsub) (hnone node hnode)
  · cases hout.unique hsettled
    decide

theorem sampleSchema_bare :
    ∀ node ∈ (Json.obj (rootOf sampleSchema)).objects ++ partySchema.objects, Bare node := by
  have hunion : ∀ node ∈ (Json.obj (rootOf sampleSchema)).objects ++ partySchema.objects, ∀ p ∈ node,
      p.1 = "anyOf" → p = ("anyOf",.arr optionalDate) := by decide
  have hkeys : ∀ node ∈ (Json.obj (rootOf sampleSchema)).objects ++ partySchema.objects,
      "$defs" ∉ node.map Prod.fst ∧ ("$ref" ∈ node.map Prod.fst → ∀ p ∈ node, p.1 = "$ref") := by decide
  refine fun node hnode => ⟨(hkeys node hnode).1,(hkeys node hnode).2,fun p hp subschemas heq => ?_⟩
  have hp := hunion node hnode p hp (by rw [heq])
  cases heq.symm.trans hp
  decide

theorem sampleSchema_clean :
    ∃ out, Recursion.Settled dereferenceAndSimplifySchema (.obj sampleSchema) (.ok out) ∧ Clean out := by
  have hunions : ListUnions (.obj sampleSchema) := fun node hnode sub hsub => by
    have hlist : ∀ node ∈ (Json.obj sampleSchema).objects, ∀ p ∈ node, p.1 = "anyOf" →
        p = ("anyOf",.arr optionalDate) := by decide
    cases hlist node hnode _ hsub rfl
    exact ⟨_,rfl⟩
  refine (simplified_clean_iff sampleSchema_wellReferenced hunions).2.mpr
    (simplifiable_of_bare sampleSchema_objects (fun name d hd node hnode => ?_) fun node hnode => ?_)
  · obtain hp := List.mem_singleton.mp (Keyed.mem_of_lookup hd)
    cases hp
    exact sampleSchema_bare node (List.mem_append_right _ hnode)
  · exact sampleSchema_bare node (List.mem_append_left _ hnode)

theorem sampleSchema_again : ∃ out, Recursion.Settled dereferenceAndSimplifySchema (.obj sampleSchema) (.ok out) ∧
    Recursion.Settled dereferenceAndSimplifySchema out (.ok out) := by
  have hunions : ∀ node ∈ (Json.obj (rootOf sampleSchema)).objects ++ partySchema.objects, ∀ sub, ("anyOf",sub) ∈ node →
      ∃ items, sub = .arr items := fun node hnode sub hsub => by
    have hlist : ∀ node ∈ (Json.obj (rootOf sampleSchema)).objects ++ partySchema.objects, ∀ p ∈ node,
        p.1 = "anyOf" → p = ("anyOf",.arr optionalDate) := by decide
    cases hlist node hnode _ hsub rfl
    exact ⟨_,rfl⟩
  have hdefinition : ∀ name d, (defsOf sampleSchema).lookup name = some d → d = partySchema := fun name d hd => by
    obtain hp := List.mem_singleton.mp (Keyed.mem_of_lookup hd)
    cases hp
    rfl
  have hsimplifiable : Simplifiable (defsOf sampleSchema) (.obj (rootOf sampleSchema)) := by
    refine simplifiable_of_bare sampleSchema_objects (fun name d hd node hnode => ?_) fun node hnode => ?_
    · obtain rfl := hdefinition name d hd
      exact sampleSchema_bare node (List.mem_append_right _ hnode)
    · exact sampleSchema_bare node (List.mem_append_left _ hnode)
  have hwell := sampleSchema_wellReferenced
  obtain ⟨out,hout⟩ := (returns_iff hwell.definitions hwell.root).mpr hsimplifiable.refers
  have hclean : Clean out := by
    refine (clean_iff hwell.definitions (fun name d hd node hnode => ?_) hwell.root (fun node hnode => ?_) hout).mpr
      hsimplifiable.clean
    · obtain rfl := hdefinition name d hd
      exact hunions node (List.mem_append_right _ hnode)
    · exact hunions node (List.mem_append_left _ hnode)
  have hsettled := hwell.settled_iff.mpr hout
  exact ⟨out,hsettled,simplified_again hwell hsettled hclean⟩

end Sample

end StructuredExtractor.SimplifySchema
