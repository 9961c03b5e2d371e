import StructuredExtractor.Extraction.Client
import StructuredExtractor.Library.Keyed
import StructuredExtractor.Library.Raises
import StructuredExtractor.Library.Recursion

/-! # The recursion of the schema simplification

Simplification calls itself on the parts of a node and on the definitions that its
references name. Where the definitions refer to each other without cycles the calls
come to an end, so it returns at every depth that is large enough, and its results
solve the equation of the recursion.
-/
namespace StructuredExtractor

namespace Json

mutual
/-- The objects in a value, at any depth. -/
def objects : Json → List Dict
  | .arr items => objectsItems items
  | .obj fields => fields :: objectsFields fields
  | _ => []

def objectsItems : List Json → List Dict
  | [] => []
  | v :: vs => objects v ++ objectsItems vs

def objectsFields : Dict → List Dict
  | [] => []
  | (_,v) :: rest => objects v ++ objectsFields rest
end

theorem mem_objects_arr {items : List Json} {node : Dict} :
    node ∈ (Json.arr items).objects ↔ ∃ v ∈ items, node ∈ v.objects := by
  have hitems : objectsItems items = items.flatMap objects := by
    induction items with
    | nil => rfl
    | cons v vs ih => rw [objectsItems,ih,List.flatMap_cons]
  rw [objects,hitems,List.mem_flatMap]

theorem mem_objects_obj {fields node : Dict} :
    node ∈ (Json.obj fields).objects ↔ node = fields ∨ ∃ p ∈ fields, node ∈ p.2.objects := by
  have hfields : objectsFields fields = fields.flatMap fun p => p.2.objects := by
    induction fields with
    | nil => rfl
    | cons p rest ih => rw [objectsFields,ih,List.flatMap_cons]
  rw [objects,List.mem_cons,hfields,List.mem_flatMap]

theorem self_mem_objects (fields : Dict) : fields ∈ (Json.obj fields).objects := mem_objects_obj.mpr (.inl rfl)

theorem sizeOf_field {fields : Dict} {key : String} {v : Json} (h : (key,v) ∈ fields) :
    sizeOf v < sizeOf (Json.obj fields) := by
  have hlt := List.sizeOf_lt_of_mem h
  rw [Prod.mk.sizeOf_spec] at hlt
  rw [Json.obj.sizeOf_spec]
  omega

theorem sizeOf_item {items : List Json} {v : Json} (h : v ∈ items) : sizeOf v < sizeOf (Json.arr items) := by
  have hlt := List.sizeOf_lt_of_mem h
  rw [Json.arr.sizeOf_spec]
  omega

end Json

namespace SimplifySchema
variable {defs : Dict}

/-- The name that a `$ref` ends in. -/
def refName (refPath : String) : String := (refPath.splitOn "/").getLastD ""

/-- The definition that a node refers to. -/
def reference (defs node : Dict) : Option Json :=
  match node.lookup "$ref" with
  | some (.str refPath) => definition defs refPath
  | _ => none

theorem reference_eq_some {node : Dict} {d : Json} : reference defs node = some d ↔
    ∃ refPath, node.lookup "$ref" = some (.str refPath) ∧ definition defs refPath = some d := by
  unfold reference
  constructor
  · intro h
    split at h
    · next refPath hr => exact ⟨refPath,hr,h⟩
    · cases h
  · rintro ⟨refPath,hr,hd⟩
    rw [hr]
    exact hd

theorem reference_absent {node : Dict} (h : "$ref" ∉ node.map Prod.fst) : reference defs node = none := by
  rw [reference,Keyed.lookup_eq_none h]

theorem definition_lookup {refPath : String} {d : Json} (h : definition defs refPath = some d) :
    defs.lookup (refName refPath) = some d := by
  unfold definition at h
  split at h
  · exact h
  · cases h

theorem reference_lookup {node : Dict} {d : Json} (h : reference defs node = some d) :
    ∃ name, defs.lookup name = some d := by
  obtain ⟨refPath,-,hd⟩ := reference_eq_some.mp h
  exact ⟨refName refPath,definition_lookup hd⟩

/-- The union that a keyword with a list of schemas is. -/
def isUnion : String × Json → Bool
  | ("anyOf",.arr _) => true
  | _ => false

/-- What `resolve_and_simplify` calls itself on. -/
inductive Calls (defs : Dict) : Json → Json → Prop
  | ref {node d} : reference defs node = some d → Calls defs (.obj node) d
  | field {node key v} : reference defs node = none → (key,v) ∈ node → isUnion (key,v) = false →
    Calls defs (.obj node) v
  | item {items v} : v ∈ items → Calls defs (.arr items) v

/-- A node with a reference, when what it refers to was simplified. -/
def merged (node : Dict) : Json → Except Exc Json
  | .obj resolved => .ok (.obj (update (node.filter fun p => p.1 ≠ "$ref") resolved))
  | _ => .error .typeError

/-- One call of `resolve_and_simplify`. -/
def step (defs : Dict) (resolve : Json → Except Exc Json) : Json → Except Exc Json
  | .obj node => match node.lookup "$ref" with
    | none => rebuild resolve node
    | some (.str refPath) => match definition defs refPath with
      | none => rebuild resolve node
      | some d => (resolve d).bind (merged node)
    | some _ => .error .attributeError
  | .arr items => (items.mapM resolve).map .arr
  | node => .ok node

theorem resolveAndSimplify_succ (depth : ℕ) (v : Json) :
    resolveAndSimplify defs (depth + 1) v = step defs (resolveAndSimplify defs depth) v := by
  cases v with
  | obj node =>
    unfold resolveAndSimplify step
    dsimp only
    cases hr : node.lookup "$ref" with
    | none => rfl
    | some v =>
      cases v with
      | str refPath =>
        dsimp only
        cases hd : definition defs refPath with
        | none => rfl
        | some d =>
          dsimp only
          cases resolveAndSimplify defs depth d with
          | error c => rfl
          | ok w => cases w <;> rfl
      | _ => rfl
  | arr items =>
    unfold resolveAndSimplify step
    dsimp only
    cases items.mapM (resolveAndSimplify defs depth) <;> rfl
  | _ => rfl

section Local
variable {node : Dict} {d : Json}

theorem step_of_reference (h : reference defs node = some d) (f : Json → Except Exc Json) :
    step defs f (.obj node) = (f d).bind (merged node) := by
  obtain ⟨refPath,hr,hd⟩ := reference_eq_some.mp h
  unfold step
  dsimp only
  rw [hr]
  dsimp only
  rw [hd]

/-- A node that refers to no definition is rebuilt, or its `$ref` is no text. -/
theorem step_of_none (h : reference defs node = none) :
    (∀ f, step defs f (.obj node) = rebuild f node) ∨ ∀ f, step defs f (.obj node) = .error .attributeError := by
  unfold reference at h
  unfold step
  dsimp only
  cases hr : node.lookup "$ref" with
  | none => exact .inl fun f => rfl
  | some v =>
    cases v with
    | str refPath =>
      rw [hr] at h
      dsimp only at h ⊢
      rw [h]
      exact .inl fun f => rfl
    | _ => exact .inr fun f => rfl

theorem step_of_absent (h : node.lookup "$ref" = none) (f : Json → Except Exc Json) :
    step defs f (.obj node) = rebuild f node := by
  unfold step
  dsimp only
  rw [h]

theorem mapM_congr {α β : Type} {f g : α → Except Exc β} {as : List α} (h : ∀ a ∈ as, f a = g a) :
    as.mapM f = as.mapM g := by
  induction as with
  | nil => rfl
  | cons a as ih =>
    rw [List.mapM_cons,List.mapM_cons,h a List.mem_cons_self,ih fun b hb => h b (List.mem_cons_of_mem a hb)]

theorem entry_of_union {p : String × Json} (h : isUnion p = true) :
    ∃ subschemas, p = ("anyOf",.arr subschemas) ∧ ∀ f, entry f p = .ok ("type",primaryType subschemas) := by
  unfold isUnion at h
  split at h
  · exact ⟨_,rfl,fun f => rfl⟩
  · cases h

theorem entry_of_field {p : String × Json} (h : isUnion p = false) (f : Json → Except Exc Json) :
    entry f p = (f p.2).map fun w => (p.1,w) := by
  unfold entry
  split
  · cases h
  · next k v _ => cases f v <;> rfl

theorem rebuild_congr {f g : Json → Except Exc Json} (h : ∀ p ∈ node, isUnion p = false → f p.2 = g p.2) :
    rebuild f node = rebuild g node := by
  have hentries : node.mapM (entry f) = node.mapM (entry g) := mapM_congr fun p hp => by
    cases hu : isUnion p with
    | true =>
      obtain ⟨subschemas,rfl,hf⟩ := entry_of_union hu
      rw [hf,hf]
    | false => rw [entry_of_field hu,entry_of_field hu,h p hp hu]
  rw [rebuild,rebuild,hentries]

/-- What a call computes depends on what it calls itself on. -/
theorem step_congr (v : Json) (f g : Json → Except Exc Json) (h : ∀ w, Calls defs v w → f w = g w) :
    step defs f v = step defs g v := by
  cases v with
  | obj node =>
    cases hr : reference defs node with
    | some d => rw [step_of_reference hr,step_of_reference hr,h d (.ref hr)]
    | none =>
      obtain hrebuild | herror := step_of_none hr
      · rw [hrebuild,hrebuild]
        exact rebuild_congr fun p hp hu => h p.2 (.field hr hp hu)
      · rw [herror,herror]
  | arr items => rw [step,step,mapM_congr fun w hw => h w (.item hw)]
  | _ => rfl

theorem finite_calls (v : Json) : {w | Calls defs v w}.Finite := by
  cases v with
  | obj node =>
    cases hr : reference defs node with
    | some d =>
      refine (Set.finite_singleton d).subset fun w hw => ?_
      cases hw with
      | ref h => exact Option.some.inj (h.symm.trans hr)
      | field h => cases h.symm.trans hr
    | none =>
      refine (List.finite_toSet (node.map Prod.snd)).subset fun w hw => ?_
      cases hw with
      | ref h => cases h.symm.trans hr
      | field _ hmem _ => exact List.mem_map.mpr ⟨_,hmem,rfl⟩
  | arr items =>
    refine (List.finite_toSet items).subset fun w hw => ?_
    cases hw with
    | item h => exact h
  | _ => exact Set.finite_empty.subset fun w hw => by cases hw

theorem rebuild_raises {E : Exc → Prop} {f : Json → Except Exc Json}
    (h : ∀ p ∈ node, isUnion p = false → Raises E (f p.2)) : Raises E (rebuild f node) := by
  refine Raises.bind (raises_mapM fun p hp => ?_) fun _ => raises_ok _
  cases hu : isUnion p with
  | true =>
    obtain ⟨_,-,hok⟩ := entry_of_union hu
    rw [hok]
    exact raises_ok _
  | false =>
    rw [entry_of_field hu]
    exact (h p hp hu).map _

/-- A call raises what those that it makes raise, or fails on a `$ref` that names no object. -/
theorem step_raises {E : Exc → Prop} (htype : E .typeError) (hattribute : E .attributeError)
    {f : Json → Except Exc Json} {v : Json} (h : ∀ w, Calls defs v w → Raises E (f w)) : Raises E (step defs f v) := by
  cases v with
  | obj node =>
    cases hr : reference defs node with
    | some d =>
      rw [step_of_reference hr]
      refine Raises.bind (h d (.ref hr)) fun resolved => ?_
      cases resolved with
      | obj resolved => exact raises_ok _
      | _ => exact raises_error htype
    | none =>
      obtain hstep | hstep := step_of_none hr
      · rw [hstep]
        exact rebuild_raises fun p hp hu => h p.2 (.field hr hp hu)
      · rw [hstep]
        exact raises_error hattribute
  | arr items => exact (raises_mapM fun w hw => h w (.item hw)).map _
  | _ => exact raises_ok _

theorem resolveAndSimplify_raises {E : Exc → Prop} (hrecursion : E .recursionError) (htype : E .typeError)
    (hattribute : E .attributeError) (depth : ℕ) (v : Json) : Raises E (resolveAndSimplify defs depth v) := by
  induction depth generalizing v with
  | zero => exact raises_error hrecursion
  | succ depth ih =>
    rw [resolveAndSimplify_succ]
    exact step_raises htype hattribute fun w _ => ih w

theorem level (defs : Dict) : Recursion.Level (resolveAndSimplify defs) (step defs) (Calls defs) where
  succ := resolveAndSimplify_succ
  congr v f g h := step_congr v f g h
  finite := finite_calls

end Local

/-- One definition refers to another. -/
def Refers (defs : Dict) (name name' : String) : Prop :=
  ∃ d, defs.lookup name = some d ∧ ∃ node ∈ d.objects, ∃ refPath, node.lookup "$ref" = some (.str refPath) ∧
    (definition defs refPath).isSome ∧ refName refPath = name'

/-- The definitions do not refer to each other in a circle. -/
def Acyclic (defs : Dict) : Prop := ∀ name, ¬ Relation.TransGen (Refers defs) name name

/-- Definitions that refer to nothing. -/
theorem acyclic_of_flat (h : ∀ p ∈ defs, ∀ node ∈ p.2.objects, "$ref" ∉ node.map Prod.fst) : Acyclic defs := by
  refine Recursion.acyclic_of_rank (fun _ => 0) fun name name' hrefers => ?_
  obtain ⟨d,hd,node,hnode,refPath,hr,-⟩ := hrefers
  exact absurd (Keyed.mem_keys_of_lookup hr) (h (name,d) (Keyed.mem_of_lookup hd) node hnode)

/-- The calls on a value end where those on the definitions that it refers to do. -/
theorem acc_of_references {v : Json}
    (h : ∀ node ∈ v.objects, ∀ d, reference defs node = some d → Acc (fun w v => Calls defs v w) d) :
    Acc (fun w v => Calls defs v w) v := by
  induction hsize : sizeOf v using Nat.strong_induction_on generalizing v with
  | _ size ih =>
    subst hsize
    refine Acc.intro v fun w hw => ?_
    cases hw with
    | ref hd => exact h _ (Json.self_mem_objects _) _ hd
    | field _ hmem _ =>
      refine ih _ (Json.sizeOf_field hmem) (fun node hnode => h node ?_) rfl
      exact Json.mem_objects_obj.mpr (.inr ⟨_,hmem,hnode⟩)
    | item hmem =>
      refine ih _ (Json.sizeOf_item hmem) (fun node hnode => h node ?_) rfl
      exact Json.mem_objects_arr.mpr ⟨_,hmem,hnode⟩

theorem acc_name (hacyclic : Acyclic defs) (name : String) : Acc (fun b a => Refers defs a b) name := by
  refine Recursion.acc_of_acyclic (fun a h => hacyclic a (Relation.transGen_swap.mp h)) ?_
  refine (List.finite_toSet (defs.map Prod.fst)).subset fun b hb => ?_
  obtain ⟨c,⟨d,-,node,-,refPath,-,hsome,rfl⟩,-⟩ := Relation.TransGen.head'_iff.mp hb
  obtain ⟨d,hd⟩ := Option.isSome_iff_exists.mp hsome
  exact Keyed.mem_keys_of_lookup (definition_lookup hd)

theorem acc_definition (hacyclic : Acyclic defs) {name : String} {d : Json} (hd : defs.lookup name = some d) :
    Acc (fun w v => Calls defs v w) d := by
  induction acc_name hacyclic name generalizing d with
  | intro name _ ih =>
    refine acc_of_references fun node hnode d' hd' => ?_
    obtain ⟨refPath,hr,hd'⟩ := reference_eq_some.mp hd'
    exact ih (refName refPath) ⟨d,hd,node,hnode,refPath,hr,by rw [hd']; rfl,rfl⟩ (definition_lookup hd')

/-- Without circles every call ends. -/
theorem acc (hacyclic : Acyclic defs) (v : Json) : Acc (fun w v => Calls defs v w) v := by
  refine acc_of_references fun node _ d hd => ?_
  obtain ⟨name,hname⟩ := reference_lookup hd
  exact acc_definition hacyclic hname

/-- No object in a value has a key twice, and every `$ref` in it names a definition. -/
structure Resolvable (defs : Dict) (v : Json) : Prop where
  distinct : ∀ node ∈ v.objects, (node.map Prod.fst).Nodup
  resolves : ∀ node ∈ v.objects, "$ref" ∈ node.map Prod.fst → (reference defs node).isSome

namespace Resolvable
variable {node : Dict}

theorem nodup (h : Resolvable defs (.obj node)) : (node.map Prod.fst).Nodup :=
  h.distinct node (Json.self_mem_objects node)

theorem exists_reference (h : Resolvable defs (.obj node)) (hmem : "$ref" ∈ node.map Prod.fst) :
    ∃ d, reference defs node = some d :=
  Option.isSome_iff_exists.mp (h.resolves node (Json.self_mem_objects node) hmem)

theorem absent (h : Resolvable defs (.obj node)) (hnone : reference defs node = none) : "$ref" ∉ node.map Prod.fst :=
  fun hmem => by
    obtain ⟨d,hd⟩ := h.exists_reference hmem
    cases hnone.symm.trans hd

end Resolvable

theorem Resolvable.of_objects {v w : Json} (h : Resolvable defs v) (hsub : ∀ node ∈ w.objects, node ∈ v.objects) :
    Resolvable defs w :=
  ⟨fun node hnode => h.distinct node (hsub node hnode),fun node hnode => h.resolves node (hsub node hnode)⟩

/-- Definitions without circles, in which every `$ref` names one of them. -/
structure Definitions (defs : Dict) : Prop where
  acyclic : Acyclic defs
  resolvable : ∀ name d, defs.lookup name = some d → Resolvable defs d

/-- The objects that a call comes to are those of the value and those of the definitions. -/
theorem Calls.objects {v w : Json} (h : Calls defs v w) {p : Dict → Prop} (hv : ∀ node ∈ v.objects, p node)
    (hdefs : ∀ name d, defs.lookup name = some d → ∀ node ∈ d.objects, p node) : ∀ node ∈ w.objects, p node := by
  cases h with
  | ref hd =>
    obtain ⟨name,hname⟩ := reference_lookup hd
    exact hdefs name _ hname
  | field _ hmem _ => exact fun node hnode => hv node (Json.mem_objects_obj.mpr (.inr ⟨_,hmem,hnode⟩))
  | item hmem => exact fun node hnode => hv node (Json.mem_objects_arr.mpr ⟨_,hmem,hnode⟩)

theorem Definitions.calls (hdefs : Definitions defs) {v w : Json} (hv : Resolvable defs v) (hw : Calls defs v w) :
    Resolvable defs w where
  distinct := hw.objects hv.distinct fun name d hd => (hdefs.resolvable name d hd).distinct
  resolves := hw.objects hv.resolves fun name d hd => (hdefs.resolvable name d hd).resolves

/-- What a value is simplified to, at any depth that is large enough. -/
noncomputable def simplification (defs : Dict) (v : Json) : Except Exc Json :=
  Recursion.limit (resolveAndSimplify defs) v

section Results
variable (hacyclic : Acyclic defs)
include hacyclic

theorem simplification_settled (v : Json) : Recursion.Settled (resolveAndSimplify defs) v (simplification defs v) :=
  Recursion.limit_settled ((level defs).settles (acc hacyclic v))

theorem simplification_eq (v : Json) : simplification defs v = step defs (simplification defs) v :=
  (level defs).limit_eq (acc hacyclic v)

theorem simplification_ref {node : Dict} {d : Json} (h : reference defs node = some d) :
    simplification defs (.obj node) = (simplification defs d).bind (merged node) := by
  rw [simplification_eq hacyclic,step_of_reference h]

theorem simplification_ref_ok {node : Dict} {d w : Json} (h : reference defs node = some d)
    (hw : simplification defs (.obj node) = .ok w) : ∃ resolved, simplification defs d = .ok (.obj resolved) ∧
      w = .obj (update (node.filter fun p => p.1 ≠ "$ref") resolved) := by
  rw [simplification_ref hacyclic h] at hw
  cases hd : simplification defs d with
  | error c =>
    rw [hd] at hw
    cases hw
  | ok resolved =>
    rw [hd] at hw
    cases resolved <;> cases hw
    exact ⟨_,rfl,rfl⟩

theorem simplification_absent {node : Dict} (h : "$ref" ∉ node.map Prod.fst) :
    simplification defs (.obj node) = rebuild (simplification defs) node := by
  rw [simplification_eq hacyclic,step_of_absent (Keyed.lookup_eq_none h)]

theorem simplification_arr (items : List Json) :
    simplification defs (.arr items) = (items.mapM (simplification defs)).map .arr := by
  rw [simplification_eq hacyclic,step]

theorem simplification_raises (v : Json) : Raises (· ≠ .recursionError) (simplification defs v) := by
  induction acc hacyclic v with
  | intro v _ ih =>
    rw [simplification_eq hacyclic]
    exact step_raises Exc.noConfusion Exc.noConfusion ih

end Results

theorem mapM_eq_ok {α β : Type} {f : α → Except Exc β} {as : List α} {bs : List β} :
    as.mapM f = .ok bs ↔ List.Forall₂ (fun a b => f a = .ok b) as bs := by
  induction as generalizing bs with
  | nil => cases bs <;> simp [pure,Except.pure]
  | cons a as ih =>
    rw [List.mapM_cons]
    constructor
    · intro h
      cases ha : f a with
      | error c =>
        rw [ha] at h
        cases h
      | ok b =>
        cases hs : as.mapM f with
        | error c =>
          rw [ha,hs] at h
          cases h
        | ok bs' =>
          rw [ha,hs] at h
          cases h
          exact .cons ha (ih.mp hs)
    · rintro (_ | ⟨ha,htail⟩)
      rw [ha,ih.mpr htail]
      rfl

theorem rebuild_eq_ok {f : Json → Except Exc Json} {node : Dict} {w : Json} :
    rebuild f node = .ok w ↔ ∃ entries, List.Forall₂ (fun p q => entry f p = .ok q) node entries ∧
      .obj ((update [] entries).filter fun p => !forbidden.contains p.1) = w := by
  unfold rebuild
  constructor
  · intro h
    cases hm : node.mapM (entry f) with
    | error c =>
      rw [hm] at h
      cases h
    | ok entries =>
      rw [hm] at h
      cases h
      exact ⟨entries,mapM_eq_ok.mp hm,rfl⟩
  · rintro ⟨entries,hentries,rfl⟩
    rw [mapM_eq_ok.mpr hentries]
    rfl

theorem mapM_returns {α β : Type} {f : α → Except Exc β} {as : List α} :
    (∃ bs, as.mapM f = .ok bs) ↔ ∀ a ∈ as, ∃ b, f a = .ok b := by
  constructor
  · rintro ⟨bs,hbs⟩
    rw [mapM_eq_ok] at hbs
    induction hbs with
    | nil => exact List.forall_mem_nil _
    | cons hab _ ih => exact List.forall_mem_cons.mpr ⟨⟨_,hab⟩,ih⟩
  · intro h
    induction as with
    | nil => exact ⟨[],rfl⟩
    | cons a as ih =>
      obtain ⟨b,hb⟩ := h a List.mem_cons_self
      obtain ⟨bs,hbs⟩ := ih fun a' ha' => h a' (List.mem_cons_of_mem a ha')
      exact ⟨b :: bs,mapM_eq_ok.mpr (.cons hb (mapM_eq_ok.mp hbs))⟩

theorem rebuild_returns {f : Json → Except Exc Json} {node : Dict} :
    (∃ w, rebuild f node = .ok w) ↔ ∀ p ∈ node, isUnion p = false → ∃ w, f p.2 = .ok w := by
  have hentries : (∃ w, rebuild f node = .ok w) ↔ ∃ entries, node.mapM (entry f) = .ok entries := by
    constructor
    · rintro ⟨w,hw⟩
      obtain ⟨entries,hentries,-⟩ := rebuild_eq_ok.mp hw
      exact ⟨entries,mapM_eq_ok.mpr hentries⟩
    · rintro ⟨entries,hentries⟩
      exact ⟨_,rebuild_eq_ok.mpr ⟨entries,mapM_eq_ok.mp hentries,rfl⟩⟩
  rw [hentries,mapM_returns]
  refine forall₂_congr fun p _ => ?_
  cases hu : isUnion p with
  | true =>
    obtain ⟨_,-,hok⟩ := entry_of_union hu
    exact iff_of_true ⟨_,hok f⟩ fun h => by cases h
  | false =>
    rw [entry_of_field hu,forall_prop_of_true rfl]
    cases f p.2 <;> simp [Except.map]

section Kinds
variable (hacyclic : Acyclic defs)
include hacyclic

/-- Objects and only objects are simplified to objects. -/
theorem simplification_obj {v w : Json} (h : simplification defs v = .ok w) :
    (∃ fields, w = .obj fields) ↔ ∃ node, v = .obj node := by
  rw [simplification_eq hacyclic] at h
  cases v with
  | obj node =>
    refine iff_of_true ?_ ⟨node,rfl⟩
    cases hr : reference defs node with
    | some d =>
      rw [← simplification_eq hacyclic] at h
      obtain ⟨_,-,rfl⟩ := simplification_ref_ok hacyclic hr h
      exact ⟨_,rfl⟩
    | none =>
      obtain hstep | hstep := step_of_none hr
      · rw [hstep] at h
        obtain ⟨entries,-,rfl⟩ := rebuild_eq_ok.mp h
        exact ⟨_,rfl⟩
      · rw [hstep] at h
        cases h
  | arr items =>
    rw [step] at h
    obtain ⟨ws,-,rfl⟩ := map_eq_ok h
    exact iff_of_false (fun ⟨_,h⟩ => by cases h) fun ⟨_,h⟩ => by cases h
  | _ =>
    cases h
    exact iff_of_false (fun ⟨_,h⟩ => by cases h) fun ⟨_,h⟩ => by cases h

end Kinds

/-- What a node refers to, if it refers to something, is an object. -/
def RefersToObject (defs : Dict) (v : Json) : Prop :=
  ∀ node d, v = .obj node → reference defs node = some d → ∃ fields, d = .obj fields

theorem refersToObject_of_objects (h : ∀ p ∈ defs, ∃ fields, p.2 = .obj fields) (v : Json) : RefersToObject defs v := by
  intro node d _ hd
  obtain ⟨name,hname⟩ := reference_lookup hd
  exact h _ (Keyed.mem_of_lookup hname)

section Returns
variable {v : Json} (hdefs : Definitions defs) (hv : Resolvable defs v)
include hdefs hv

/-- One call returns when those that it makes do and what it refers to is an object. -/
theorem returns_step : (∃ w, simplification defs v = .ok w) ↔
    RefersToObject defs v ∧ ∀ u, Calls defs v u → ∃ w, simplification defs u = .ok w := by
  cases v with
  | obj node =>
    cases hr : reference defs node with
    | some d =>
      constructor
      · rintro ⟨w,hw⟩
        obtain ⟨resolved,hd,-⟩ := simplification_ref_ok hdefs.acyclic hr hw
        constructor
        · rintro _ d' ⟨⟩ hd'
          obtain rfl := Option.some.inj (hr.symm.trans hd')
          exact (simplification_obj hdefs.acyclic hd).mp ⟨_,rfl⟩
        · rintro u (hu | ⟨hu,-⟩)
          · obtain rfl := Option.some.inj (hr.symm.trans hu)
            exact ⟨_,hd⟩
          · cases hr.symm.trans hu
      · rintro ⟨hobj,hcalls⟩
        obtain ⟨resolved,hd⟩ := hcalls d (.ref hr)
        obtain ⟨fields,rfl⟩ := (simplification_obj hdefs.acyclic hd).mpr (hobj node d rfl hr)
        rw [simplification_ref hdefs.acyclic hr,hd]
        exact ⟨_,rfl⟩
    | none =>
      rw [simplification_absent hdefs.acyclic (hv.absent hr),rebuild_returns]
      constructor
      · intro h
        refine ⟨fun _ d hnode hd => ?_,fun u hu => ?_⟩
        · cases hnode
          cases hr.symm.trans hd
        · cases hu with
          | ref hd => cases hr.symm.trans hd
          | field _ hmem hu => exact h _ hmem hu
      · exact fun h p hp hu => h.2 p.2 (.field hr hp hu)
  | arr items =>
    rw [simplification_arr hdefs.acyclic]
    have hitems : (∃ w, (items.mapM (simplification defs)).map Json.arr = .ok w) ↔
        ∃ ws, items.mapM (simplification defs) = .ok ws := by
      cases items.mapM (simplification defs) <;> simp [Except.map]
    rw [hitems,mapM_returns]
    constructor
    · intro h
      refine ⟨fun _ _ hnode _ => (by cases hnode),fun u hu => ?_⟩
      cases hu with
      | item hmem => exact h u hmem
    · exact fun h u hu => h.2 u (.item hu)
  | _ =>
    refine iff_of_true ⟨_,simplification_eq hdefs.acyclic _⟩ ⟨fun _ _ hnode _ => (by cases hnode),fun u hu => ?_⟩
    cases hu

/-- Simplification returns when every reference that it comes to names an object. -/
theorem returns_iff : (∃ w, simplification defs v = .ok w) ↔
    ∀ u, Relation.ReflTransGen (Calls defs) v u → RefersToObject defs u := by
  induction acc hdefs.acyclic v with
  | intro v _ ih =>
    rw [returns_step hdefs hv,Recursion.forall_reachable_iff]
    exact and_congr_right fun _ => forall₂_congr fun u hu => ih u hu (hdefs.calls hv hu)

end Returns

/-- The definitions of a schema, and the schema without them. -/
def defsOf (schema : Dict) : Dict :=
  match schema.lookup "$defs" with
  | some (.obj d) => d
  | _ => []

def rootOf (schema : Dict) : Dict := schema.filter fun p => p.1 ≠ "$defs"

theorem dereference_eq (depth : ℕ) (schema : Dict) : dereferenceAndSimplifySchema depth (.obj schema) =
    resolveAndSimplify (defsOf schema) depth (.obj (rootOf schema)) := rfl

/-- The objects in the definitions are objects in the schema. -/
theorem defsOf_objects {schema d : Dict} {name : String} {v : Json} (hv : (defsOf schema).lookup name = some v)
    (hd : d ∈ v.objects) : d ∈ (Json.obj schema).objects := by
  unfold defsOf at hv
  split at hv
  · next defs hdefs =>
    refine Json.mem_objects_obj.mpr (.inr ⟨_,Keyed.mem_of_lookup hdefs,Json.mem_objects_obj.mpr (.inr ?_)⟩)
    exact ⟨_,Keyed.mem_of_lookup hv,hd⟩
  · cases hv

theorem rootOf_objects {schema d : Dict} (hd : d ∈ (Json.obj (rootOf schema)).objects) :
    d = rootOf schema ∨ d ∈ (Json.obj schema).objects := by
  obtain rfl | ⟨p,hp,hd⟩ := Json.mem_objects_obj.mp hd
  · exact .inl rfl
  · exact .inr (Json.mem_objects_obj.mpr (.inr ⟨p,List.mem_of_mem_filter hp,hd⟩))

/-- A schema whose references can be resolved, without circles. -/
structure WellReferenced (schema : Dict) : Prop where
  acyclic : Acyclic (defsOf schema)
  resolvable : Resolvable (defsOf schema) (.obj schema)

namespace WellReferenced
variable {schema : Dict} (h : WellReferenced schema)
include h

theorem definitions : Definitions (defsOf schema) where
  acyclic := h.acyclic
  resolvable _ _ hv := h.resolvable.of_objects fun _ hd => defsOf_objects hv hd

theorem root : Resolvable (defsOf schema) (.obj (rootOf schema)) where
  distinct node hnode := by
    obtain rfl | hnode := rootOf_objects hnode
    · exact Keyed.nodup_filter h.resolvable.nodup _
    · exact h.resolvable.distinct node hnode
  resolves node hnode hmem := by
    obtain rfl | hnode := rootOf_objects hnode
    · have hschema : "$ref" ∈ schema.map Prod.fst := (List.filter_sublist.map Prod.fst).subset hmem
      have hsome := h.resolvable.resolves schema (Json.self_mem_objects schema) hschema
      unfold reference at hsome ⊢
      rwa [rootOf,Keyed.lookup_filter_keys fun name => decide (name ≠ "$defs")]
    · exact h.resolvable.resolves node hnode hmem

theorem dereference_settled : Recursion.Settled dereferenceAndSimplifySchema (.obj schema)
    (simplification (defsOf schema) (.obj (rootOf schema))) :=
  simplification_settled h.acyclic (.obj (rootOf schema))

theorem settled_iff {r : Except Exc Json} : Recursion.Settled dereferenceAndSimplifySchema (.obj schema) r ↔
    simplification (defsOf schema) (.obj (rootOf schema)) = r :=
  ⟨h.dereference_settled.unique,fun hr => hr ▸ h.dereference_settled⟩

/-- From some depth on the result is the same, and not that the recursion was too deep. -/
theorem terminates : ∃ r, r ≠ .error .recursionError ∧
    Recursion.Settled dereferenceAndSimplifySchema (.obj schema) r := by
  refine ⟨_,fun hr => ?_,h.dereference_settled⟩
  exact simplification_raises h.acyclic _ _ hr rfl

end WellReferenced

end SimplifySchema

namespace LiteLLMClient

theorem toolFor_raises {E : Exc → Prop} (hrecursion : E .recursionError) (htype : E .typeError)
    (hattribute : E .attributeError) (L : Libraries) (model : String) (tool : Tool) (toolName : String) :
    Raises E (toolFor L model tool toolName) := by
  unfold toolFor
  split
  · refine Raises.bind ?_ fun _ => raises_ok _
    unfold SimplifySchema.dereferenceAndSimplifySchema
    split
    · exact SimplifySchema.resolveAndSimplify_raises hrecursion htype hattribute _ _
    · exact raises_ok _
  · exact raises_ok _

end LiteLLMClient

end StructuredExtractor
