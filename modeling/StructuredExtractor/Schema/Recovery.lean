import StructuredExtractor.Library.Keyed
import StructuredExtractor.Schema.Validation

/-! # What validation makes of an object

An object is judged field by field. Its recovered record holds, for every field
that has an accepted value, that value, and null for the others; the status and
the data of a validation are functions of whether the object validates, of that
record, and of whether any value was accepted.
-/
namespace StructuredExtractor

namespace Pydantic
variable {P : Pydantic} {u : Unicode}

theorem subField_name {raw : Dict} {f : SubField} {p : String × Value} (h : P.subField raw f = .ok p) :
    p.1 = f.name := by
  unfold subField at h
  split at h
  · obtain ⟨x,-,rfl⟩ := map_eq_ok (mapError_ok h)
    rfl
  · split at h <;> cases h
    rfl

/-- A nested model has its fields in their order. -/
theorem model_names {raw : Dict} {fields : List SubField} {vs : Record}
    (h : collect (fields.map (P.subField raw)) = .ok vs) : vs.map Prod.fst = fields.map SubField.name := by
  have hread := collect.map_ok h
  clear h
  induction hread with
  | nil => rfl
  | cons hp _ ih => rw [List.map_cons,List.map_cons,subField_name hp,ih]

/-- A list that parses has parsed items. -/
theorem annotation_list {i : Item} {v : Json} {x : Value} (h : P.annotation (.list i) v = .ok x) :
    ∃ xs, x = .list xs ∧ ∀ y ∈ xs, ∃ w, P.item i w = .ok y := by
  unfold annotation at h
  cases v with
  | arr items =>
    obtain ⟨xs,hxs,rfl⟩ := map_eq_ok h
    refine ⟨xs,rfl,fun y hy => ?_⟩
    obtain ⟨n,hn,hitem⟩ := List.mem_mapIdx.mp (collect.eq_ok_iff.mp hxs ▸ List.mem_map.mpr ⟨y,hy,rfl⟩)
    exact ⟨_,mapError_ok hitem⟩
  | _ => cases h

/-- A scalar is never read as `None`. -/
theorem scalar_ne_none {s : Scalar} {v : Json} {x : Value} (h : P.scalar s v = .ok x) : x ≠ .none := by
  rintro rfl
  cases s <;> obtain ⟨a,_,ha⟩ := map_eq_ok (mapError_ok h) <;> cases ha

theorem scalar_error_ne_nil {s : Scalar} {v : Json} {es : List ErrorDetails}
    (h : P.scalar s v = .error es) : es ≠ [] := by
  cases s <;> obtain ⟨a,_,rfl⟩ := mapError_error h <;> simp

theorem leaf_error_ne_nil {l : Leaf} {v : Json} {es : List ErrorDetails}
    (h : P.leaf l v = .error es) : es ≠ [] := by
  unfold leaf at h
  split at h
  · cases h
  · exact scalar_error_ne_nil h

theorem under_ne_nil {l : Loc} {es : List ErrorDetails} (h : es ≠ []) : ErrorDetails.under l es ≠ [] := by
  simpa [ErrorDetails.under] using h

theorem subField_error_ne_nil {raw : Dict} {f : SubField} {es : List ErrorDetails}
    (h : P.subField raw f = .error es) : es ≠ [] := by
  unfold subField at h
  split at h
  · obtain ⟨e,he,rfl⟩ := mapError_error h
    exact under_ne_nil (leaf_error_ne_nil (map_error he))
  · split at h <;> cases h
    simp

theorem item_error_ne_nil {i : Item} {v : Json} {es : List ErrorDetails}
    (h : P.item i v = .error es) : es ≠ [] := by
  unfold item at h
  split at h
  · exact leaf_error_ne_nil h
  · refine collect.error_ne_nil (fun r hr e he => ?_) (map_error h)
    obtain ⟨f,_,rfl⟩ := List.mem_map.mp hr
    exact subField_error_ne_nil he
  · cases h; simp

theorem annotation_error_ne_nil {a : Annotation} {v : Json} {es : List ErrorDetails}
    (h : P.annotation a v = .error es) : es ≠ [] := by
  unfold annotation at h
  split at h
  · exact leaf_error_ne_nil h
  · refine collect.error_ne_nil (fun r hr e he => ?_) (map_error h)
    obtain ⟨n,hn,rfl⟩ := List.mem_mapIdx.mp hr
    obtain ⟨e',he',rfl⟩ := mapError_error he
    exact under_ne_nil (item_error_ne_nil he')
  · cases h; simp

theorem validateCurrencyCode_error_ne_nil {x : Value} {es : List ErrorDetails}
    (h : validateCurrencyCode u x = .error es) : es ≠ [] := by
  unfold validateCurrencyCode at h
  split at h
  · obtain ⟨e,_,rfl⟩ := mapError_error h
    simp
  · cases h

theorem field_error_ne_nil {f : FieldInfo} {v : Json} {es : List ErrorDetails}
    (h : P.field u f v = .error es) : es ≠ [] := by
  unfold field at h
  cases ha : P.annotation f.annotation v with
  | error e => simp only [ha,Except.error.injEq] at h; exact h ▸ annotation_error_ne_nil ha
  | ok x =>
    simp only [ha] at h
    split at h
    · exact validateCurrencyCode_error_ne_nil h
    · cases h

/-- Null is read as `None` by the annotations that take it, and by no other. -/
theorem annotation_none_iff {f : FieldInfo} {v : Json} {x : Value}
    (h : P.annotation f.annotation v = .ok x) : x = .none ↔ f.nullable = true ∧ v = .null := by
  unfold annotation at h
  split at h
  · next l _ ha =>
    unfold leaf at h
    split at h
    · next hn => cases h; simp [FieldInfo.nullable,ha,hn.1,hn.2]
    · next hn =>
      have hx := scalar_ne_none h
      simp only [FieldInfo.nullable,ha,hx,false_iff]
      exact hn
  · next i items ha =>
    obtain ⟨vs,_,rfl⟩ := map_eq_ok h
    simp [FieldInfo.nullable,ha]
  · cases h

theorem annotation_of_field {f : FieldInfo} {v : Json} {x : Value} (h : P.field u f v = .ok x) :
    ∃ y, P.annotation f.annotation v = .ok y ∧ (x = .none ↔ y = .none) := by
  unfold field at h
  cases ha : P.annotation f.annotation v with
  | error e => simp [ha] at h
  | ok y =>
    refine ⟨y,rfl,?_⟩
    simp only [ha] at h
    split at h
    · unfold validateCurrencyCode at h
      split at h
      · obtain ⟨c,_,rfl⟩ := map_eq_ok (mapError_ok h)
        simp
      · cases h; rfl
    · cases h; rfl

theorem field_none_iff {f : FieldInfo} {v : Json} {x : Value} (h : P.field u f v = .ok x) :
    x = .none ↔ f.nullable = true ∧ v = .null := by
  obtain ⟨y,hy,hxy⟩ := annotation_of_field h
  rw [hxy]
  exact annotation_none_iff hy

theorem isOk_iff {E α : Type} {r : Except E α} : r.isOk = true ↔ ∃ a, r = .ok a := by
  cases r <;> simp [Except.isOk,Except.toBool]

/-- Whether the field takes the value, by its annotation and its validator. -/
def accepts (P : Pydantic) (u : Unicode) (f : FieldInfo) (v : Json) : Bool := (P.field u f v).isOk

theorem accepts_iff {f : FieldInfo} {v : Json} : P.accepts u f v = true ↔ ∃ x, P.field u f v = .ok x := by
  unfold accepts
  exact isOk_iff

/-- The library converts no list to a scalar. -/
structure RefusesLists (P : Pydantic) : Prop where
  str : ∀ items, (P.str (.arr items)).isOk = false
  int : ∀ items, (P.int (.arr items)).isOk = false
  decimal : ∀ items, (P.decimal (.arr items)).isOk = false
  date : ∀ items, (P.date (.arr items)).isOk = false

theorem basic_refusesLists : basic.RefusesLists :=
  ⟨fun _ => rfl,fun _ => rfl,fun _ => rfl,fun _ => rfl⟩

theorem accepts_leaf_arr (hP : P.RefusesLists) {f : FieldInfo} {l : Leaf}
    (hf : f.annotation = .leaf l) (items : List Json) : P.accepts u f (.arr items) = false := by
  have hscalar : ∀ x, P.scalar l.scalar (.arr items) ≠ .ok x := by
    intro x h
    cases hl : l.scalar <;> rw [hl] at h <;> obtain ⟨a,ha,_⟩ := map_eq_ok (mapError_ok h)
    · exact absurd (isOk_iff.mpr ⟨a,ha⟩) (by simp [hP.str])
    · exact absurd (isOk_iff.mpr ⟨a,ha⟩) (by simp [hP.int])
    · exact absurd (isOk_iff.mpr ⟨a,ha⟩) (by simp [hP.decimal])
    · exact absurd (isOk_iff.mpr ⟨a,ha⟩) (by simp [hP.date])
  by_contra hacc
  obtain ⟨x,hx⟩ := accepts_iff.mp (by simpa using hacc)
  obtain ⟨y,hy,_⟩ := annotation_of_field hx
  rw [hf] at hy
  exact hscalar y (by simpa [leaf, annotation] using hy)

/-- A list field takes a list exactly when it takes every item. -/
theorem accepts_list_iff {f : FieldInfo} {i : Item} (hf : f.annotation = .list i) (items : List Json) :
    P.accepts u f (.arr items) = true ↔ ∀ x ∈ items, (P.item i x).isOk = true := by
  have hitems : P.accepts u f (.arr items) = true ↔
      ∃ vs, collect (items.mapIdx fun n v => (P.item i v).mapError (ErrorDetails.under (.index n))) =
        .ok vs := by
    rw [accepts_iff]
    unfold field
    rw [hf]
    unfold annotation
    cases hc : collect (items.mapIdx fun n v =>
        (P.item i v).mapError (ErrorDetails.under (.index n))) with
    | error es => simp [hc,Except.map]
    | ok vs => cases f.currency <;> simp [hc,Except.map,validateCurrencyCode]
  rw [hitems,collect.isOk_iff]
  constructor
  · intro h x hx
    obtain ⟨n,hn,rfl⟩ := List.getElem_of_mem hx
    obtain ⟨a,ha⟩ := h _ (List.mem_mapIdx.mpr ⟨n,hn,rfl⟩)
    exact isOk_iff.mpr ⟨a,mapError_ok ha⟩
  · intro h r hr
    obtain ⟨n,hn,rfl⟩ := List.mem_mapIdx.mp hr
    obtain ⟨a,ha⟩ := isOk_iff.mp (h _ (List.getElem_mem hn))
    exact ⟨a,by rw [ha]; rfl⟩

/-- The value of a field once the object validates. -/
def parsedValue (P : Pydantic) (u : Unicode) (d : Dict) (f : FieldInfo) : Value :=
  match d.lookup f.name with
  | some v => match P.field u f v with
    | .ok x => x
    | .error _ => .none
  | none => .none

/-- A field that model validation has nothing against. -/
def FieldOk (P : Pydantic) (u : Unicode) (d : Dict) (f : FieldInfo) : Prop :=
  match d.lookup f.name with
  | some v => P.accepts u f v = true
  | none => f.required = false

theorem fieldOf_ok_iff {d : Dict} {f : FieldInfo} {p : String × Value} :
    P.fieldOf u d f = .ok p ↔ P.FieldOk u d f ∧ p = (f.name,P.parsedValue u d f) := by
  unfold fieldOf FieldOk parsedValue
  cases d.lookup f.name with
  | none => cases f.required <;> simp [eq_comm]
  | some v =>
    simp only [accepts_iff]
    cases P.field u f v <;> simp [Except.map,Except.mapError,eq_comm]

theorem fieldOf_error {d : Dict} {f : FieldInfo} {es : List ErrorDetails}
    (h : P.fieldOf u d f = .error es) :
    es ≠ [] ∧ ∀ e ∈ es, ∃ rest, e.loc = .key f.name :: rest := by
  unfold fieldOf at h
  split at h
  · obtain ⟨e,he,rfl⟩ := mapError_error h
    refine ⟨under_ne_nil (field_error_ne_nil (map_error he)),fun x hx => ?_⟩
    obtain ⟨y,_,rfl⟩ := List.mem_map.mp hx
    exact ⟨_,rfl⟩
  · split at h <;> cases h
    refine ⟨by simp,fun e he => ?_⟩
    simp only [List.mem_singleton] at he
    subst he
    exact ⟨_,rfl⟩

end Pydantic

namespace Schema
variable {P : Pydantic} {u : Unicode} {s : Schema}

/-- The record of an object that validates. -/
def parsedRecord (P : Pydantic) (u : Unicode) (s : Schema) (d : Dict) : Record :=
  s.fields.map fun f => (f.name,P.parsedValue u d f)

theorem collect_fields_ok_iff {d : Dict} {r : Record} :
    collect (s.fields.map (P.fieldOf u d)) = .ok r ↔
      (∀ f ∈ s.fields, P.FieldOk u d f) ∧ r = s.parsedRecord P u d := by
  constructor
  · intro h
    have hall : ∀ f ∈ s.fields, P.FieldOk u d f := by
      intro f hf
      obtain ⟨p,hp⟩ := collect.isOk_iff.mp ⟨r,h⟩ _ (List.mem_map_of_mem hf)
      exact (Pydantic.fieldOf_ok_iff.mp hp).1
    refine ⟨hall,?_⟩
    have hmap : s.fields.map (P.fieldOf u d) = (s.parsedRecord P u d).map Except.ok := by
      unfold parsedRecord
      rw [List.map_map]
      exact List.map_congr_left fun f hf => Pydantic.fieldOf_ok_iff.mpr ⟨hall f hf,rfl⟩
    rw [collect.eq_ok_iff.mpr hmap] at h
    exact (Except.ok.inj h).symm
  · rintro ⟨hall,rfl⟩
    rw [collect.eq_ok_iff]
    unfold parsedRecord
    rw [List.map_map]
    exact List.map_congr_left fun f hf => Pydantic.fieldOf_ok_iff.mpr ⟨hall f hf,rfl⟩

theorem modelValidate_obj (d : Dict) : s.modelValidate P u (.obj d) =
    match collect (s.fields.map (P.fieldOf u d)) with
    | .error es => .error es
    | .ok r => (s.modelValidator r).map fun _ => r := rfl

/-- An object validates when every field does and then the model does. -/
theorem modelValidate_ok_iff {d : Dict} {r : Record} :
    s.modelValidate P u (.obj d) = .ok r ↔
      (∀ f ∈ s.fields, P.FieldOk u d f) ∧ r = s.parsedRecord P u d ∧ s.modelValidator r = .ok () := by
  rw [modelValidate_obj]
  cases hc : collect (s.fields.map (P.fieldOf u d)) with
  | error es =>
    simp only [reduceCtorEq,false_iff,not_and]
    intro hall
    cases hc.symm.trans (collect_fields_ok_iff.mpr ⟨hall,rfl⟩)
  | ok r' =>
    obtain ⟨hall,rfl⟩ := collect_fields_ok_iff.mp hc
    cases hv : s.modelValidator (s.parsedRecord P u d) with
    | error es =>
      simp only [hv,Except.map,reduceCtorEq,false_iff,not_and]
      rintro _ rfl h
      cases hv.symm.trans h
    | ok x =>
      simp only [hv,Except.map,Except.ok.injEq]
      constructor
      · rintro rfl; exact ⟨hall,rfl,hv⟩
      · rintro ⟨_,rfl,_⟩; rfl

/-- The model validators report their errors for the model as a whole. -/
theorem modelValidator_error {r : Record} {es : List ErrorDetails}
    (h : s.modelValidator r = .error es) : Validation.invalidFields es = [] := by
  have hordered : ∀ early late message, ordered r early late message = .error es →
      Validation.invalidFields es = [] := by
    intro early late message h
    unfold ordered at h
    split at h
    · split at h <;> cases h
      rfl
    · cases h
  unfold modelValidator at h
  split at h
  · exact hordered _ _ _ h
  · exact hordered _ _ _ h
  · exact hordered _ _ _ h
  · cases h

theorem mem_invalidFields {es : List ErrorDetails} {name : String} :
    name ∈ Validation.invalidFields es ↔ ∃ e ∈ es, ∃ rest, e.loc = .key name :: rest := by
  unfold Validation.invalidFields
  rw [List.mem_filterMap]
  refine exists_congr fun e => and_congr_right fun _ => ?_
  cases he : e.loc with
  | nil => simp
  | cons l rest => cases l <;> simp [eq_comm]

/-- Of the fields that are present, exactly those that are not accepted count as invalid. -/
theorem mem_invalidFields_iff (hn : (s.fields.map FieldInfo.name).Nodup) {d : Dict}
    {es : List ErrorDetails} (h : s.modelValidate P u (.obj d) = .error es) {f : FieldInfo}
    (hf : f ∈ s.fields) {v : Json} (hv : d.lookup f.name = some v) :
    f.name ∈ Validation.invalidFields es ↔ P.accepts u f v = false := by
  rw [modelValidate_obj] at h
  cases hc : collect (s.fields.map (P.fieldOf u d)) with
  | error es' =>
    simp only [hc,Except.error.injEq] at h
    subst h
    rw [mem_invalidFields]
    constructor
    · rintro ⟨e,he,rest,hloc⟩
      obtain ⟨fe,hfe,hefe⟩ := (collect.mem_errors hc e).mp he
      obtain ⟨f',hf',heq⟩ := List.mem_map.mp hfe
      obtain ⟨rest',hloc'⟩ := (Pydantic.fieldOf_error heq).2 e hefe
      have hname : f'.name = f.name := by
        rw [hloc] at hloc'
        simpa using (List.cons.inj hloc').1.symm
      obtain rfl := List.inj_on_of_nodup_map hn hf' hf hname
      by_contra hacc
      have hok : P.FieldOk u d f' := by simpa [Pydantic.FieldOk,hv] using hacc
      cases heq.symm.trans (Pydantic.fieldOf_ok_iff.mpr ⟨hok,rfl⟩)
    · intro hacc
      cases hfo : P.fieldOf u d f with
      | ok p =>
        have hok := (Pydantic.fieldOf_ok_iff.mp hfo).1
        simp [Pydantic.FieldOk,hv,hacc] at hok
      | error fe =>
        obtain ⟨hne,hlocs⟩ := Pydantic.fieldOf_error hfo
        obtain ⟨e,he⟩ := List.exists_mem_of_ne_nil fe hne
        exact ⟨e,(collect.mem_errors hc e).mpr ⟨fe,hfo ▸ List.mem_map_of_mem hf,he⟩,hlocs e he⟩
  | ok r =>
    have hok := (collect_fields_ok_iff.mp hc).1 f hf
    simp only [hc] at h
    rw [modelValidator_error (map_error h)]
    simp only [Pydantic.FieldOk,hv] at hok
    simp [hok]

end Schema

namespace Validation
variable {P : Pydantic} {u : Unicode} {s : Schema}

/-- A field that accepts a value has a value to recover, null exactly for null. -/
theorem validatedFieldValue_ok (hn : (s.fields.map FieldInfo.name).Nodup) {f : FieldInfo}
    (hf : f ∈ s.fields) {v : Json} (hv : P.accepts u f v = true) :
    ∃ x, validatedFieldValue P u s f v = .ok x ∧ (x = .none ↔ f.nullable = true ∧ v = .null) := by
  obtain ⟨x,hx⟩ := Pydantic.accepts_iff.mp hv
  unfold validatedFieldValue
  cases hm : s.modelValidate P u (.obj (candidate s f.name v)) with
  | error es =>
    obtain ⟨y,hy,hxy⟩ := Pydantic.annotation_of_field hx
    exact ⟨y,by simp [hy,Except.mapError],Pydantic.annotation_none_iff hy⟩
  | ok r =>
    have hlook : (candidate s f.name v).lookup f.name = some v := by
      unfold candidate
      rw [Keyed.lookup_map_of_mem hn hf fun g => if g.name = f.name then v else fallbackRawValue g]
      simp
    obtain ⟨_,rfl,_⟩ := Schema.modelValidate_ok_iff.mp hm
    have hparsed : P.parsedValue u (candidate s f.name v) f = x := by
      simp [Pydantic.parsedValue,hlook,hx]
    refine ⟨x,?_,Pydantic.field_none_iff hx⟩
    unfold Schema.parsedRecord
    simp only [Keyed.lookup_map_of_mem hn hf,hparsed]

/-- The value that recovery gives a field of an object: the accepted one, or null. -/
def recoveredValue (P : Pydantic) (u : Unicode) (s : Schema) (d : Dict) (f : FieldInfo) : Value :=
  match d.lookup f.name with
  | some v => match P.accepts u f v, validatedFieldValue P u s f v with
    | true, .ok x => x
    | _, _ => .none
  | none => .none

/-- Whether the object has an accepted value for the field. -/
def hasAccepted (P : Pydantic) (u : Unicode) (d : Dict) (f : FieldInfo) : Bool :=
  match d.lookup f.name with
  | some v => P.accepts u f v
  | none => false

def recoveredRecord (P : Pydantic) (u : Unicode) (s : Schema) (d : Dict) : Record :=
  s.fields.map fun f => (f.name,recoveredValue P u s d f)

theorem recoverFields_obj (hn : (s.fields.map FieldInfo.name).Nodup) {d : Dict} {invalid : List String}
    (hinv : ∀ f ∈ s.fields, ∀ v, d.lookup f.name = some v →
      (f.name ∈ invalid ↔ P.accepts u f v = false)) (fs : List FieldInfo) (hfs : ∀ f ∈ fs, f ∈ s.fields) :
    recoverFields P u s (.obj d) invalid fs =
      .ok (fs.map fun f => (f.name,recoveredValue P u s d f),fs.countP (hasAccepted P u d)) := by
  induction fs with
  | nil => rfl
  | cons f fs ih =>
    have hrest := ih fun g hg => hfs g (List.mem_cons_of_mem _ hg)
    have hf := hfs f List.mem_cons_self
    cases hl : d.lookup f.name with
    | none =>
      simp [recoverFields,Json.hasMember,hl,hrest,recoveredValue,hasAccepted,bind,Except.bind,pure,
        Except.pure]
    | some v =>
      cases ha : P.accepts u f v with
      | false =>
        have hmem := (hinv f hf v hl).mpr ha
        simp [recoverFields,Json.hasMember,hl,hrest,recoveredValue,hasAccepted,ha,hmem,bind,
          Except.bind,pure,Except.pure]
      | true =>
        have hmem : f.name ∉ invalid := by simp [hinv f hf v hl,ha]
        obtain ⟨x,hx,_⟩ := validatedFieldValue_ok hn hf ha
        simp [recoverFields,Json.hasMember,Json.getItem,hl,hrest,recoveredValue,hasAccepted,ha,hx,
          hmem,bind,Except.bind,pure,Except.pure]

theorem missingWarnings_obj (d : Dict) (reported : List String) (fs : List FieldInfo) :
    ∃ ws, missingWarnings (.obj d) reported fs = .ok ws := by
  induction fs with
  | nil => exact ⟨[],rfl⟩
  | cons f fs ih =>
    obtain ⟨ws,hws⟩ := ih
    simp only [missingWarnings,Json.hasMember,hws,bind,Except.bind]
    split <;> exact ⟨_,rfl⟩

/-- The status and the data of a result. -/
def outcome (r : ValidationResult) : ExtractionStatus × Option Dict := (r.status,r.extractedData)

/-- The status and the data of a recovery. -/
def recoveredOutcome (P : Pydantic) (u : Unicode) (s : Schema) (d : Dict) :
    ExtractionStatus × Option Dict :=
  if s.fields.any (hasAccepted P u d) then (.partial_,some (P.dumpFields (recoveredRecord P u s d)))
  else (.failed,none)

/-- What validation makes of an object, up to the warnings. -/
theorem validateExtraction_obj {docType : String} (hs : SchemaRegistry.getSchema docType = .ok s)
    (d : Dict) : (validateExtraction P u docType (.obj d)).map outcome =
      match s.modelValidate P u (.obj d) with
      | .ok r => (qualityWarnings s r).map fun _ => (.completed,some (P.dumpFields r))
      | .error _ => (qualityWarnings s (recoveredRecord P u s d)).map fun _ =>
        recoveredOutcome P u s d := by
  have hn := SchemaRegistry.names_nodup hs
  unfold validateExtraction
  simp only [hs,bind,Except.bind]
  cases hm : s.modelValidate P u (.obj d) with
  | ok r => cases hq : qualityWarnings s r <;> simp [hq,Except.map,outcome,pure,Except.pure]
  | error es =>
    have hrec : recoverFields P u s (.obj d) (invalidFields es) s.fields =
        .ok (recoveredRecord P u s d,s.fields.countP (hasAccepted P u d)) :=
      recoverFields_obj hn (fun f hf v hv => Schema.mem_invalidFields_iff hn hm hf hv) s.fields
        fun _ h => h
    obtain ⟨ws,hws⟩ := missingWarnings_obj d (es.map fun e => fieldName e.loc) s.fields
    have hany : 0 < s.fields.countP (hasAccepted P u d) ↔ s.fields.any (hasAccepted P u d) = true := by
      simp [List.countP_pos_iff]
    simp only [recoverPartial,warnings,hws,hrec,bind,Except.bind,pure,Except.pure]
    cases hq : qualityWarnings s (recoveredRecord P u s d) with
    | error e => rfl
    | ok q => by_cases h : s.fields.any (hasAccepted P u d) = true <;>
        simp [Except.map,outcome,recoveredOutcome,hany,h]

theorem parsedRecord_lookup (hn : (s.fields.map FieldInfo.name).Nodup) {f : FieldInfo}
    (hf : f ∈ s.fields) (d : Dict) :
    (P.dumpFields (s.parsedRecord P u d)).lookup f.name = some (P.dump (P.parsedValue u d f)) := by
  rw [P.dumpFields_lookup,Schema.parsedRecord,Keyed.lookup_map_of_mem hn hf]
  rfl

theorem recoveredRecord_lookup (hn : (s.fields.map FieldInfo.name).Nodup) {f : FieldInfo}
    (hf : f ∈ s.fields) (d : Dict) :
    (P.dumpFields (recoveredRecord P u s d)).lookup f.name =
      some (P.dump (recoveredValue P u s d f)) := by
  rw [P.dumpFields_lookup,recoveredRecord,Keyed.lookup_map_of_mem hn hf]
  rfl

/-- An accepted value is recovered as null exactly when it is the null of a field that takes it. -/
theorem recoveredValue_none_iff (hn : (s.fields.map FieldInfo.name).Nodup) {f : FieldInfo}
    (hf : f ∈ s.fields) {d : Dict} {v : Json} (hl : d.lookup f.name = some v)
    (hv : P.accepts u f v = true) :
    recoveredValue P u s d f = .none ↔ f.nullable = true ∧ v = .null := by
  obtain ⟨x,hx,hnone⟩ := validatedFieldValue_ok hn hf hv
  simp only [recoveredValue,hl,hv,hx,hnone]

theorem parsedValue_none_iff {f : FieldInfo} {d : Dict} {v : Json} (hl : d.lookup f.name = some v)
    (hv : P.accepts u f v = true) :
    P.parsedValue u d f = .none ↔ f.nullable = true ∧ v = .null := by
  obtain ⟨x,hx⟩ := Pydantic.accepts_iff.mp hv
  simp only [Pydantic.parsedValue,hl,hx]
  exact Pydantic.field_none_iff hx

/-- A field with an accepted value that is not taken for `None` is not null in the result. -/
theorem validated_ne_null {docType : String} (hs : SchemaRegistry.getSchema docType = .ok s)
    {f : FieldInfo} (hf : f ∈ s.fields) {d : Dict} {v : Json} (hl : d.lookup f.name = some v)
    (hv : P.accepts u f v = true) (hne : ¬(f.nullable = true ∧ v = .null)) {r : ValidationResult}
    (hr : validateExtraction P u docType (.obj d) = .ok r) :
    ∃ data x, r.extractedData = some data ∧ data.lookup f.name = some x ∧ x ≠ .null := by
  have hn := SchemaRegistry.names_nodup hs
  have ho : (Except.ok r).map outcome = _ := hr ▸ validateExtraction_obj hs d
  cases hm : s.modelValidate P u (.obj d) with
  | ok r' =>
    obtain ⟨_,rfl,_⟩ := Schema.modelValidate_ok_iff.mp hm
    rw [hm] at ho
    obtain ⟨_,_,ho⟩ := map_eq_ok ho.symm
    have hdata : r.extractedData = some (P.dumpFields (s.parsedRecord P u d)) :=
      (congrArg Prod.snd ho).symm
    refine ⟨_,_,hdata,parsedRecord_lookup hn hf d,?_⟩
    rwa [ne_eq,P.dump_eq_null,parsedValue_none_iff hl hv]
  | error es =>
    rw [hm] at ho
    obtain ⟨_,_,ho⟩ := map_eq_ok ho.symm
    have hany : s.fields.any (hasAccepted P u d) = true :=
      List.any_eq_true.mpr ⟨f,hf,by simpa [hasAccepted,hl] using hv⟩
    have hdata : r.extractedData = some (P.dumpFields (recoveredRecord P u s d)) := by
      have h := (congrArg Prod.snd ho).symm
      simpa [recoveredOutcome,hany,outcome] using h
    refine ⟨_,_,hdata,recoveredRecord_lookup hn hf d,?_⟩
    rwa [ne_eq,P.dump_eq_null,recoveredValue_none_iff hn hf hl hv]

/-- A field that is absent is null in the data of the result. -/
theorem validated_absent {docType : String} (hs : SchemaRegistry.getSchema docType = .ok s)
    {f : FieldInfo} (hf : f ∈ s.fields) {d : Dict} (hl : d.lookup f.name = none) {r : ValidationResult}
    (hr : validateExtraction P u docType (.obj d) = .ok r) {data : Dict}
    (hdata : r.extractedData = some data) : data.lookup f.name = some .null := by
  have hn := SchemaRegistry.names_nodup hs
  have ho : (Except.ok r).map outcome = _ := hr ▸ validateExtraction_obj hs d
  cases hm : s.modelValidate P u (.obj d) with
  | ok r' =>
    obtain ⟨_,rfl,_⟩ := Schema.modelValidate_ok_iff.mp hm
    rw [hm] at ho
    obtain ⟨_,_,ho⟩ := map_eq_ok ho.symm
    have h := (congrArg Prod.snd ho).trans hdata
    cases h
    simp [parsedRecord_lookup hn hf,Pydantic.parsedValue,hl,Pydantic.dump]
  | error es =>
    rw [hm] at ho
    obtain ⟨_,_,ho⟩ := map_eq_ok ho.symm
    have h := (congrArg Prod.snd ho).trans hdata
    unfold recoveredOutcome at h
    split at h <;> cases h
    simp [recoveredRecord_lookup hn hf,recoveredValue,hl,Pydantic.dump]

/-- The status of an object that validates. -/
theorem status_of_valid {docType : String} (hs : SchemaRegistry.getSchema docType = .ok s) {d : Dict}
    {r : ValidationResult} (hr : validateExtraction P u docType (.obj d) = .ok r) {x : Record}
    (hm : s.modelValidate P u (.obj d) = .ok x) : r.status = .completed := by
  have ho : (Except.ok r).map outcome = _ := hr ▸ validateExtraction_obj hs d
  rw [hm] at ho
  obtain ⟨_,_,ho⟩ := map_eq_ok ho.symm
  exact (congrArg Prod.fst ho).symm

/-- The status of an object that does not validate. -/
theorem status_of_invalid {docType : String} (hs : SchemaRegistry.getSchema docType = .ok s) {d : Dict}
    {r : ValidationResult} (hr : validateExtraction P u docType (.obj d) = .ok r)
    {es : List ErrorDetails} (hm : s.modelValidate P u (.obj d) = .error es) :
    r.status = if s.fields.any (hasAccepted P u d) then .partial_ else .failed := by
  have ho : (Except.ok r).map outcome = _ := hr ▸ validateExtraction_obj hs d
  rw [hm] at ho
  obtain ⟨_,_,ho⟩ := map_eq_ok ho.symm
  rw [← show (recoveredOutcome P u s d).1 = r.status from congrArg Prod.fst ho]
  unfold recoveredOutcome
  split <;> rfl

end Validation

end StructuredExtractor
