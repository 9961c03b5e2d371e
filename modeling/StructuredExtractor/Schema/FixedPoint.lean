import StructuredExtractor.Schema.FieldByField
import Mathlib

/-! # Validated data, validated again

What a field holds after validation is dumped to a value that the field reads back.
-/
namespace StructuredExtractor

/-- An upper-case letter is its own upper case. -/
def Unicode.UpperStable (u : Unicode) : Prop := ∀ c, ∀ c' ∈ u.upper c, u.upper c' = [c']

theorem Unicode.ascii_upperStable : Unicode.ascii.UpperStable := by
  intro c c' hc'
  obtain rfl := List.mem_singleton.mp hc'
  exact congrArg (fun x => [x]) (Char.toUpper_toUpper_eq_toUpper c)

theorem Unicode.upperText_upperText {u : Unicode} (hu : u.UpperStable) (s : String) :
    u.upperText (u.upperText s) = u.upperText s := by
  have hchars : ∀ cs : List Char, (cs.flatMap u.upper).flatMap u.upper = cs.flatMap u.upper := by
    intro cs
    rw [List.flatMap_assoc]
    refine List.flatMap_congr fun c _ => ?_
    calc (u.upper c).flatMap u.upper = (u.upper c).flatMap fun c' => [c'] := List.flatMap_congr (hu c)
      _ = u.upper c := List.flatMap_singleton' _
  simp only [upperText,String.toList_ofList,hchars]

/-- A nested model's fields have different names, and take null when they may be left out. -/
def Item.Regular : Item → Prop
  | .leaf _ => True
  | .model _ fields => (fields.map SubField.name).Nodup ∧ ∀ f ∈ fields, f.required = false → f.leaf.nullable = true

instance : DecidablePred Item.Regular
  | .leaf _ => inferInstanceAs (Decidable True)
  | .model _ _ => inferInstanceAs (Decidable (_ ∧ _))

def Annotation.Regular : Annotation → Prop
  | .leaf _ => True
  | .list i => i.Regular

instance : DecidablePred Annotation.Regular
  | .leaf _ => inferInstanceAs (Decidable True)
  | .list i => inferInstanceAs (Decidable i.Regular)

/-- What the fields of the schemas have in common: a currency is a text. -/
structure FieldInfo.Regular (f : FieldInfo) : Prop where
  annotation : f.annotation.Regular
  currency : f.currency = true → f.annotation = .leaf ⟨.str,f.nullable⟩

theorem SchemaRegistry.regular {docType : String} {s : Schema} (h : getSchema docType = .ok s) :
    ∀ f ∈ s.fields, f.Regular := fun f hf =>
  ⟨(by decide : ∀ p ∈ registry, ∀ f ∈ p.2.fields, f.annotation.Regular) _ (getSchema_mem h) f hf,
    (by decide : ∀ p ∈ registry, ∀ f ∈ p.2.fields, f.currency = true →
      f.annotation = .leaf ⟨.str,f.nullable⟩) _ (getSchema_mem h) f hf⟩

namespace Pydantic
variable {P : Pydantic} {u : Unicode}

/-- The library reads back what it dumps, and takes null for no scalar. -/
structure ReadsDumps (P : Pydantic) : Prop where
  str : ∀ s, P.str (.str s) = .ok s
  int : ∀ n, P.int (.int n) = .ok n
  decimal : ∀ v d, P.decimal v = .ok d → P.decimal (.str (P.decimalText d)) = .ok d
  date : ∀ v d, P.date v = .ok d → P.date (.str (P.dateText d)) = .ok d
  null : ∀ s x, P.scalar s .null ≠ .ok x

/-- What the library makes of a value, if it reads its dump back. -/
def readBack {α : Type} [DecidableEq α] (parse : Json → Except String α) (text : α → String) (v : Json) :
    Except String α :=
  match parse v with
  | .ok a => if (parse (.str (text a))).toOption = some a then .ok a else .error "Input should be valid"
  | .error e => .error e

/-- The plain conversions, of the decimals and dates that they read back. -/
def basicBack : Pydantic := { basic with
  decimal := readBack basic.decimal decimalDigits
  date := readBack basic.date isoDate }

theorem readBack_dump {α : Type} [DecidableEq α] {parse : Json → Except String α} {text : α → String} {v : Json}
    {a : α} (h : readBack parse text v = .ok a) : readBack parse text (.str (text a)) = .ok a := by
  unfold readBack at h
  split at h
  · split at h
    · next b _ hback =>
      obtain rfl := Except.ok.inj h
      cases hparse : parse (.str (text b)) with
      | error e => rw [hparse] at hback; cases hback
      | ok c =>
        rw [hparse] at hback
        obtain rfl : c = b := Option.some.inj hback
        simp only [readBack,hparse,Except.toOption,if_true]
    · cases h
  · cases h

theorem basicBack_readsDumps : basicBack.ReadsDumps := by
  have hdecimal : basicBack.decimal = readBack basic.decimal decimalDigits := rfl
  have hdate : basicBack.date = readBack basic.date isoDate := rfl
  have htexts : basicBack.decimalText = decimalDigits ∧ basicBack.dateText = isoDate := ⟨rfl,rfl⟩
  refine ⟨fun _ => rfl,fun _ => rfl,?_,?_,fun s x h => ?_⟩
  · rw [hdecimal,htexts.1]
    exact fun v d h => readBack_dump h
  · rw [hdate,htexts.2]
    exact fun v d h => readBack_dump h
  · unfold scalar at h
    cases s <;> obtain ⟨a,ha,-⟩ := map_eq_ok (mapError_ok h) <;> cases ha

theorem scalar_dump (hP : P.ReadsDumps) {s : Scalar} {v : Json} {x : Value} (h : P.scalar s v = .ok x) :
    P.scalar s (P.dump x) = .ok x := by
  cases s with
  | str =>
    obtain ⟨t,-,rfl⟩ := map_eq_ok (mapError_ok h)
    simp only [dump,scalar,hP.str]
    rfl
  | int =>
    obtain ⟨n,-,rfl⟩ := map_eq_ok (mapError_ok h)
    simp only [dump,scalar,hP.int]
    rfl
  | decimal =>
    obtain ⟨d,hd,rfl⟩ := map_eq_ok (mapError_ok h)
    simp only [dump,scalar,hP.decimal v d hd]
    rfl
  | date =>
    obtain ⟨d,hd,rfl⟩ := map_eq_ok (mapError_ok h)
    simp only [dump,scalar,hP.date v d hd]
    rfl

theorem leaf_dump (hP : P.ReadsDumps) {l : Leaf} {v : Json} {x : Value} (h : P.leaf l v = .ok x) :
    P.leaf l (P.dump x) = .ok x := by
  unfold leaf at h
  split at h
  · next hnull =>
    obtain rfl := Except.ok.inj h
    exact if_pos ⟨hnull.1,rfl⟩
  · have hne : P.dump x ≠ .null := fun hx => scalar_ne_none h (P.dump_eq_null.mp hx)
    rw [leaf,if_neg fun hx => hne hx.2]
    exact scalar_dump hP h

theorem subField_dump (hP : P.ReadsDumps) {raw raw' : Dict} {f : SubField}
    (hf : f.required = false → f.leaf.nullable = true) {p : String × Value} (h : P.subField raw f = .ok p)
    (hlook : raw'.lookup f.name = some (P.dump p.2)) : P.subField raw' f = .ok p := by
  have hleaf : P.leaf f.leaf (P.dump p.2) = .ok p.2 := by
    unfold subField at h
    split at h
    · obtain ⟨x,hx,rfl⟩ := map_eq_ok (mapError_ok h)
      exact leaf_dump hP hx
    · split at h
      · cases h
      · next hoptional =>
        obtain rfl := Except.ok.inj h
        exact if_pos ⟨hf (by simpa using hoptional),rfl⟩
  have hpair : (f.name,p.2) = p := by rw [← subField_name h]
  simp only [subField,hlook,hleaf,Except.map,Except.mapError,hpair]

theorem item_dump (hP : P.ReadsDumps) {i : Item} (hi : i.Regular) {v : Json} {x : Value}
    (h : P.item i v = .ok x) : P.item i (P.dump x) = .ok x := by
  unfold item at h
  split at h
  · exact leaf_dump hP h
  · next _ fields raw =>
    obtain ⟨vs,hvs,rfl⟩ := map_eq_ok h
    have hread : fields.map (P.subField raw) = vs.map Except.ok := collect.eq_ok_iff.mp hvs
    have hnames : vs.map Prod.fst = fields.map SubField.name := model_names hvs
    have hagain : ∀ f ∈ fields, P.subField (P.dumpFields vs) f = P.subField raw f := by
      intro f hf
      obtain ⟨p,hp,hfp⟩ := List.mem_map.mp (hread ▸ List.mem_map.mpr ⟨f,hf,rfl⟩)
      have hlook : vs.lookup f.name = some p.2 := by
        rw [← subField_name hfp.symm]
        exact (Keyed.mem_iff_lookup (hnames ▸ hi.1) p).mp hp
      rw [← hfp]
      exact subField_dump hP (hi.2 f hf) hfp.symm (by rw [P.dumpFields_lookup,hlook]; rfl)
    have hcollect : collect (fields.map (P.subField (P.dumpFields vs))) = .ok vs := by
      rw [List.map_congr_left hagain]
      exact hvs
    simp only [dump,item,hcollect]
    rfl
  · cases h

theorem dumpItems_eq (items : List Value) : P.dumpItems items = items.map P.dump := by
  induction items with
  | nil => rfl
  | cons v vs ih => rw [dumpItems,ih,List.map_cons]

theorem annotation_dump (hP : P.ReadsDumps) {a : Annotation} (ha : a.Regular) {v : Json} {x : Value}
    (h : P.annotation a v = .ok x) : P.annotation a (P.dump x) = .ok x := by
  unfold annotation at h
  split at h
  · exact leaf_dump hP h
  · next i raw =>
    obtain ⟨xs,hxs,rfl⟩ := map_eq_ok h
    have hread := collect.eq_ok_iff.mp hxs
    have hagain : (P.dumpItems xs).mapIdx (fun n v => (P.item i v).mapError (ErrorDetails.under (.index n))) =
        xs.map Except.ok := by
      rw [dumpItems_eq]
      refine List.ext_getElem (by simp) fun n hn hn' => ?_
      have hxn : n < xs.length := by simpa using hn'
      have hrn : n < raw.length := by simpa using hxn.trans_eq (by simpa using (congrArg List.length hread).symm)
      have hitem : (P.item i raw[n]).mapError (ErrorDetails.under (.index n)) = .ok xs[n] := by
        have := congrArg (·[n]?) hread
        simpa [hxn,hrn] using this
      have hdump := item_dump hP ha (mapError_ok hitem)
      simp [hdump,Except.mapError]
    simp only [dump, annotation,collect.eq_ok_iff.mpr hagain]
    rfl
  · cases h

theorem currencyCode_again (hu : u.UpperStable) {s t : String} (h : currencyCode u s = .ok t) :
    currencyCode u t = .ok t := by
  unfold currencyCode at h ⊢
  dsimp only at h ⊢
  split at h
  · cases h
  · next hcode =>
    obtain rfl := Except.ok.inj h
    simp only [Unicode.upperText_upperText hu,hcode]
    rfl

/-- What the validator makes of a currency is a text that it leaves alone, or `None`. -/
theorem currency_again (hP : P.ReadsDumps) (hu : u.UpperStable) {nullable : Bool} {v : Json} {x y : Value}
    (hy : P.leaf ⟨.str,nullable⟩ v = .ok y) (hx : validateCurrencyCode u y = .ok x) :
    P.leaf ⟨.str,nullable⟩ (P.dump x) = .ok x ∧ validateCurrencyCode u x = .ok x := by
  have hleaf := leaf_dump hP hy
  unfold leaf at hy
  split at hy
  · obtain rfl := Except.ok.inj hy
    obtain rfl := Except.ok.inj hx
    exact ⟨hleaf,rfl⟩
  · obtain ⟨s,-,rfl⟩ := map_eq_ok (mapError_ok hy)
    obtain ⟨t,ht,rfl⟩ := map_eq_ok (mapError_ok hx)
    refine ⟨?_,?_⟩
    · simp only [dump,leaf,reduceCtorEq,and_false,if_false,scalar,hP.str]
      rfl
    · simp only [validateCurrencyCode,currencyCode_again hu ht]
      rfl

theorem field_dump (hP : P.ReadsDumps) (hu : u.UpperStable) {f : FieldInfo} (hf : f.Regular) {v : Json}
    {x : Value} (h : P.field u f v = .ok x) : P.field u f (P.dump x) = .ok x := by
  unfold field at h
  cases ha : P.annotation f.annotation v with
  | error es => simp [ha] at h
  | ok y =>
    simp only [ha] at h
    cases hc : f.currency with
    | false =>
      obtain rfl : y = x := by simpa [hc] using h
      have hagain := annotation_dump hP hf.annotation ha
      simp only [field,hagain,hc]
      rfl
    | true =>
      rw [hc,if_pos rfl] at h
      have htext := hf.currency hc
      rw [htext] at ha
      obtain ⟨hagain,hvalid⟩ := currency_again hP hu ha h
      simp only [field,htext, annotation,hagain,hc,if_true,hvalid]

/-- Null is read as `None` or not at all. -/
theorem field_null_none (hP : P.ReadsDumps) {f : FieldInfo} {x : Value} (h : P.field u f .null = .ok x) :
    x = .none := by
  refine (field_none_iff h).mpr ⟨?_,rfl⟩
  obtain ⟨y,hy,-⟩ := annotation_of_field h
  cases hann : f.annotation with
  | list i => rw [hann] at hy; cases hy
  | leaf l =>
    rw [hann, annotation,leaf] at hy
    split at hy
    · next hnull => simpa [FieldInfo.nullable,hann] using hnull.1
    · exact absurd hy (hP.null l.scalar y)

theorem parsedValue_cases (P : Pydantic) (u : Unicode) (d : Dict) (f : FieldInfo) :
    P.parsedValue u d f = .none ∨ ∃ v, P.field u f v = .ok (P.parsedValue u d f) := by
  unfold parsedValue
  cases d.lookup f.name with
  | none => exact .inl rfl
  | some v =>
    cases hx : P.field u f v with
    | error es => exact .inl (by simp only [hx])
    | ok x => exact .inr ⟨v,by simp only [hx]⟩

/-- A field of validated data has the value that it was dumped from. -/
theorem parsedValue_again (hP : P.ReadsDumps) (hu : u.UpperStable) {f : FieldInfo} (hf : f.Regular)
    {d d' : Dict} (h : d'.lookup f.name = some (P.dump (P.parsedValue u d f))) :
    P.parsedValue u d' f = P.parsedValue u d f := by
  obtain hnone | ⟨v,hv⟩ := parsedValue_cases P u d f
  · rw [hnone] at h ⊢
    unfold parsedValue
    rw [h]
    dsimp only
    split
    · next x hx => exact field_null_none hP hx
    · rfl
  · have hagain := field_dump hP hu hf hv
    rw [parsedValue,h]
    dsimp only
    rw [hagain]

/-- What a field accepted, it accepts in the validated data. -/
theorem accepts_again (hP : P.ReadsDumps) (hu : u.UpperStable) {f : FieldInfo} (hf : f.Regular)
    {d : Dict} {v : Json} (hv : d.lookup f.name = some v) (h : P.accepts u f v = true) :
    P.accepts u f (P.dump (P.parsedValue u d f)) = true := by
  obtain ⟨x,hx⟩ := accepts_iff.mp h
  have hparsed : P.parsedValue u d f = x := by simp only [parsedValue,hv,hx]
  rw [hparsed]
  exact accepts_iff.mpr ⟨x,field_dump hP hu hf hx⟩

end Pydantic

namespace Validation
variable {P : Pydantic} {u : Unicode} {s : Schema} {docType : String}

/-- The data that validation makes of an object, whole or recovered. -/
def validatedData (P : Pydantic) (u : Unicode) (s : Schema) (d : Dict) : Dict :=
  P.dumpFields (s.parsedRecord P u d)

theorem validatedData_lookup (hs : SchemaRegistry.getSchema docType = .ok s) {f : FieldInfo} (hf : f ∈ s.fields)
    (d : Dict) : (validatedData P u s d).lookup f.name = some (P.dump (P.parsedValue u d f)) :=
  parsedRecord_lookup (SchemaRegistry.names_nodup hs) hf d

theorem parsedRecord_again (hP : P.ReadsDumps) (hu : u.UpperStable)
    (hs : SchemaRegistry.getSchema docType = .ok s) (d : Dict) :
    s.parsedRecord P u (validatedData P u s d) = s.parsedRecord P u d := by
  refine List.map_congr_left fun f hf => ?_
  rw [Pydantic.parsedValue_again hP hu (SchemaRegistry.regular hs f hf) (validatedData_lookup hs hf d)]

/-- A valid object has valid data. -/
theorem modelValidate_again (hP : P.ReadsDumps) (hu : u.UpperStable)
    (hs : SchemaRegistry.getSchema docType = .ok s) {d : Dict} {x : Record}
    (h : s.modelValidate P u (.obj d) = .ok x) :
    s.modelValidate P u (.obj (validatedData P u s d)) = .ok x := by
  obtain ⟨hfields,rfl,hmodel⟩ := Schema.modelValidate_ok_iff.mp h
  refine Schema.modelValidate_ok_iff.mpr ⟨fun f hf => ?_,(parsedRecord_again hP hu hs d).symm,hmodel⟩
  have hok := hfields f hf
  unfold Pydantic.FieldOk at hok ⊢
  rw [validatedData_lookup hs hf]
  dsimp only
  cases hv : d.lookup f.name with
  | some v =>
    rw [hv] at hok
    exact Pydantic.accepts_again hP hu (SchemaRegistry.regular hs f hf) hv hok
  | none =>
    rw [hv] at hok
    have hnullable : f.nullable = true := by simp [SchemaRegistry.nullable_eq hs f hf,show f.required = false from hok]
    rw [Pydantic.parsedValue,hv]
    exact Pydantic.accepts_iff.mpr ⟨.none,Pydantic.field_null hnullable⟩

theorem hasAccepted_again (hP : P.ReadsDumps) (hu : u.UpperStable)
    (hs : SchemaRegistry.getSchema docType = .ok s) {d : Dict} (h : s.fields.any (hasAccepted P u d) = true) :
    s.fields.any (hasAccepted P u (validatedData P u s d)) = true := by
  obtain ⟨f,hf,haccepted⟩ := List.any_eq_true.mp h
  refine List.any_eq_true.mpr ⟨f,hf,?_⟩
  unfold hasAccepted at haccepted ⊢
  rw [validatedData_lookup hs hf]
  cases hv : d.lookup f.name with
  | none => simp [hv] at haccepted
  | some v =>
    rw [hv] at haccepted
    exact Pydantic.accepts_again hP hu (SchemaRegistry.regular hs f hf) hv haccepted

/-- Whether validation has data for an object: it is valid, or a value is recovered. -/
def HasData (P : Pydantic) (u : Unicode) (s : Schema) (d : Dict) : Prop :=
  (∃ x, s.modelValidate P u (.obj d) = .ok x) ∨ s.fields.any (hasAccepted P u d) = true

/-- When validation returns data, and which. -/
theorem returnsData_iff (hread : P.ReadsFallbacks) (hs : SchemaRegistry.getSchema docType = .ok s) {d data : Dict} :
    (∃ r, validateExtraction P u docType (.obj d) = .ok r ∧ r.extractedData = some data) ↔
      (∃ q, qualityWarnings s (s.parsedRecord P u d) = .ok q) ∧ HasData P u s d ∧ validatedData P u s d = data := by
  have ho := validateExtraction_obj (P := P) (u := u) hs d
  have hmap : (∃ r, validateExtraction P u docType (.obj d) = .ok r ∧ r.extractedData = some data) ↔
      ∃ o, (validateExtraction P u docType (.obj d)).map outcome = .ok o ∧ o.2 = some data := by
    constructor
    · rintro ⟨r,hr,hdata⟩
      exact ⟨outcome r,by rw [hr]; rfl,hdata⟩
    · rintro ⟨o,ho,hdata⟩
      obtain ⟨r,hr,rfl⟩ := map_eq_ok ho
      exact ⟨r,hr,hdata⟩
  rw [hmap,ho,recoveredRecord_eq hread hs]
  unfold HasData
  cases hm : s.modelValidate P u (.obj d) with
  | ok x =>
    obtain ⟨-,rfl,-⟩ := Schema.modelValidate_ok_iff.mp hm
    cases hq : qualityWarnings s (s.parsedRecord P u d) <;> simp [Except.map,hq,validatedData]
  | error es =>
    have hdata : (recoveredOutcome P u s d).2 = some data ↔
        s.fields.any (hasAccepted P u d) = true ∧ validatedData P u s d = data := by
      unfold recoveredOutcome
      rw [recoveredRecord_eq hread hs]
      split <;> simp_all [validatedData]
    cases hq : qualityWarnings s (s.parsedRecord P u d) <;> simp [Except.map,hdata]

theorem HasData.again (hP : P.ReadsDumps) (hu : u.UpperStable) (hs : SchemaRegistry.getSchema docType = .ok s)
    {d : Dict} (h : HasData P u s d) : HasData P u s (validatedData P u s d) := by
  obtain ⟨x,hx⟩ | hany := h
  · exact .inl ⟨x,modelValidate_again hP hu hs hx⟩
  · exact .inr (hasAccepted_again hP hu hs hany)

/-- Data that validation returned is validated to equal data. -/
theorem returnsData_again (hread : P.ReadsFallbacks) (hP : P.ReadsDumps) (hu : u.UpperStable)
    (hs : SchemaRegistry.getSchema docType = .ok s) {d data : Dict} {r : ValidationResult}
    (hr : validateExtraction P u docType (.obj d) = .ok r) (hdata : r.extractedData = some data) :
    ∃ r', validateExtraction P u docType (.obj data) = .ok r' ∧ r'.extractedData = some data := by
  obtain ⟨hquality,hhas,rfl⟩ := (returnsData_iff hread hs).mp ⟨r,hr,hdata⟩
  refine (returnsData_iff hread hs).mpr ⟨?_,hhas.again hP hu hs,?_⟩
  · rwa [parsedRecord_again hP hu hs]
  · rw [validatedData,parsedRecord_again hP hu hs]
    rfl

/-- A complete result stays the same. -/
theorem completed_again (hP : P.ReadsDumps) (hu : u.UpperStable) (hs : SchemaRegistry.getSchema docType = .ok s)
    {d data : Dict} {r : ValidationResult} (hr : validateExtraction P u docType (.obj d) = .ok r)
    (hdata : r.extractedData = some data) (hcompleted : r.status = .completed) :
    validateExtraction P u docType (.obj data) = .ok r := by
  cases hm : s.modelValidate P u (.obj d) with
  | ok x =>
    have hvalid := modelValidate_again hP hu hs hm
    obtain ⟨-,rfl,-⟩ := Schema.modelValidate_ok_iff.mp hm
    obtain rfl : data = validatedData P u s d :=
      Option.some.inj (hdata.symm.trans (extractedData_of_valid hs hm hr))
    rw [← hr]
    unfold validateExtraction
    rw [hs]
    simp only [bind,Except.bind,hm,hvalid]
  | error es =>
    have hstatus := (status_of_invalid hs hr hm).symm.trans hcompleted
    split at hstatus <;> cases hstatus

end Validation

end StructuredExtractor
