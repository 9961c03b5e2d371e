import StructuredExtractor.Schema.FieldByField

/-! # Nothing is lost silently

What a result says about the object that it was made from: its status, the keys of its
data, and the warnings for everything that is missing.
-/
namespace StructuredExtractor

theorem modelValidate_error_ne_nil {P : Pydantic} {u : Unicode} {s : Schema} {d : Dict}
    {es : List ErrorDetails} (h : s.modelValidate P u (.obj d) = .error es) : es ≠ [] := by
  rw [Schema.modelValidate_obj] at h
  cases hc : collect (s.fields.map (P.fieldOf u d)) with
  | error es' =>
    simp only [hc,Except.error.injEq] at h
    subst h
    refine collect.error_ne_nil (fun r hr e he => ?_) hc
    obtain ⟨f,-,hf⟩ := List.mem_map.mp hr
    exact (Pydantic.fieldOf_error (hf.trans he)).1
  | ok r =>
    simp only [hc] at h
    have hmodel := map_error h
    have hordered : ∀ early late message, Schema.ordered r early late message = .error es → es ≠ [] := by
      intro early late message h
      unfold Schema.ordered at h
      split at h
      · split at h <;> cases h
        exact List.cons_ne_nil _ _
      · cases h
    unfold Schema.modelValidator at hmodel
    split at hmodel
    · exact hordered _ _ _ hmodel
    · exact hordered _ _ _ hmodel
    · exact hordered _ _ _ hmodel
    · cases hmodel

namespace Validation
variable {P : Pydantic} {u : Unicode} {s : Schema} {docType : String} {d : Dict}
variable {es : List ErrorDetails} {r : ValidationResult}

/-- An error is located at the field, or inside it. -/
def Located (es : List ErrorDetails) (f : FieldInfo) : Prop := ∃ e ∈ es, ∃ rest, e.loc = .key f.name :: rest

/-- A warning that begins with the field's name. -/
def Warned (r : ValidationResult) (f : FieldInfo) : Prop :=
  ∃ w ∈ r.warnings, f.name.toList <+: w.toList

/-- A recovery warns of every error. -/
theorem recoverPartial_warnings (h : recoverPartial P u s (.obj d) es = .ok r) :
    ∃ rest, r.warnings = es.map (fun e => fieldName e.loc ++ ": " ++ e.msg) ++ rest := by
  unfold recoverPartial warnings at h
  obtain ⟨missing,hmissing⟩ := missingWarnings_obj d (es.map fun e => fieldName e.loc) s.fields
  simp only [hmissing,bind,Except.bind,pure,Except.pure] at h
  cases hrec : recoverFields P u s (.obj d) (invalidFields es) s.fields with
  | error e => simp [hrec] at h
  | ok x =>
    cases hq : qualityWarnings s x.1 with
    | error e => simp [hrec,hq] at h
    | ok q =>
      simp only [hrec,hq,Except.ok.injEq] at h
      subst h
      exact ⟨missing ++ q,List.append_assoc _ _ _⟩

theorem warnings_of_invalid (hs : SchemaRegistry.getSchema docType = .ok s)
    (hm : s.modelValidate P u (.obj d) = .error es)
    (hr : validateExtraction P u docType (.obj d) = .ok r) :
    ∃ rest, r.warnings = es.map (fun e => fieldName e.loc ++ ": " ++ e.msg) ++ rest := by
  refine recoverPartial_warnings (P := P) (u := u) (s := s) (d := d) ?_
  simpa only [validateExtraction,hs,hm,bind,Except.bind] using hr

theorem warned_of_located (hs : SchemaRegistry.getSchema docType = .ok s)
    (hm : s.modelValidate P u (.obj d) = .error es)
    (hr : validateExtraction P u docType (.obj d) = .ok r) {f : FieldInfo} (h : Located es f) : Warned r f := by
  obtain ⟨rest,hws⟩ := warnings_of_invalid hs hm hr
  obtain ⟨e,he,loc,hloc⟩ := h
  refine ⟨_,hws ▸ List.mem_append_left _ (List.mem_map_of_mem he),?_⟩
  rw [hloc,fieldName,String.toList_append,String.toList_append,List.append_assoc]
  exact List.prefix_append _ _

/-- A required field that is absent is located as missing. -/
theorem located_of_absent (hm : s.modelValidate P u (.obj d) = .error es) {f : FieldInfo} (hf : f ∈ s.fields)
    (hrequired : f.required = true) (habsent : d.lookup f.name = none) : Located es f := by
  have hfield : P.fieldOf u d f = .error [⟨[.key f.name],"Field required"⟩] := by
    simp [Pydantic.fieldOf,habsent,hrequired]
  rw [Schema.modelValidate_obj] at hm
  cases hc : collect (s.fields.map (P.fieldOf u d)) with
  | error es' =>
    simp only [hc,Except.error.injEq] at hm
    subst hm
    have hmem : .error [⟨[.key f.name],"Field required"⟩] ∈ s.fields.map (P.fieldOf u d) :=
      List.mem_map.mpr ⟨f,hf,hfield⟩
    exact ⟨⟨[.key f.name],"Field required"⟩,
      (collect.mem_errors hc _).mpr ⟨_,hmem,List.mem_singleton_self _⟩,[],rfl⟩
  | ok x =>
    obtain ⟨p,hp⟩ := collect.isOk_iff.mp ⟨x,hc⟩ _ (List.mem_map_of_mem hf)
    cases hfield.symm.trans hp

theorem located_iff (hs : SchemaRegistry.getSchema docType = .ok s)
    (hm : s.modelValidate P u (.obj d) = .error es) {f : FieldInfo} (hf : f ∈ s.fields) {v : Json}
    (hv : d.lookup f.name = some v) : Located es f ↔ P.accepts u f v = false :=
  Schema.mem_invalidFields.symm.trans
    (Schema.mem_invalidFields_iff (SchemaRegistry.names_nodup hs) hm hf hv)

/-- A null in the data comes from a field that is absent, rejected or null. -/
theorem lost_cases {f : FieldInfo} {x : Value}
    (hx : ∀ v, d.lookup f.name = some v → P.accepts u f v = true → (x = .none ↔ f.nullable = true ∧ v = .null))
    (hnull : some (P.dump x) = some .null) :
    d.lookup f.name = none ∨ (∃ v, d.lookup f.name = some v ∧ P.accepts u f v = false) ∨
      f.nullable = true ∧ d.lookup f.name = some .null := by
  rw [Option.some.injEq,Pydantic.dump_eq_null] at hnull
  cases hl : d.lookup f.name with
  | none => exact .inl rfl
  | some v =>
    cases ha : P.accepts u f v with
    | false => exact .inr (.inl ⟨v,rfl,ha⟩)
    | true =>
      obtain ⟨hnullable,rfl⟩ := (hx v hl ha).mp hnull
      exact .inr (.inr ⟨hnullable,rfl⟩)

/-- What a result accounts for. -/
structure Accounted (P : Pydantic) (u : Unicode) (s : Schema) (d : Dict) (r : ValidationResult) : Prop where
  completed : r.status = .completed ↔ ∃ x, s.modelValidate P u (.obj d) = .ok x
  failed : r.status = .failed ↔ ∃ es, s.modelValidate P u (.obj d) = .error es ∧
    ∀ f ∈ s.fields, (d.lookup f.name).isSome → Located es f
  partial_ : r.status = .completed ∨ r.status = .partial_ ∨ r.status = .failed
  data : r.extractedData = none ↔ r.status = .failed
  keys : ∀ data, r.extractedData = some data → data.map Prod.fst = s.fields.map FieldInfo.name
  warned : r.status ≠ .completed → r.warnings ≠ []
  required : ∀ data, r.extractedData = some data → ∀ f ∈ s.fields, f.required = true →
    data.lookup f.name = some .null → Warned r f
  dropped : ∀ data, r.extractedData = some data → ∀ f ∈ s.fields, ∀ v, d.lookup f.name = some v → v ≠ .null →
    data.lookup f.name = some .null → Warned r f

/-- In a valid object only a null of an optional field, or its absence, becomes null. -/
theorem lost_of_valid (hs : SchemaRegistry.getSchema docType = .ok s)
    (hfields : ∀ f ∈ s.fields, P.FieldOk u d f) {f : FieldInfo} (hf : f ∈ s.fields)
    (hnull : (P.dumpFields (s.parsedRecord P u d)).lookup f.name = some .null) :
    f.required = false ∧ ∀ v, d.lookup f.name = some v → v = .null := by
  have hok := hfields f hf
  unfold Pydantic.FieldOk at hok
  rw [parsedRecord_lookup (SchemaRegistry.names_nodup hs) hf] at hnull
  rcases lost_cases (fun v hl ha => parsedValue_none_iff hl ha) hnull with hl | ⟨v,hl,ha⟩ | ⟨hnullable,hl⟩
  · simp only [hl] at hok ⊢
    exact ⟨hok,fun v h => by cases h⟩
  · simp [hl,ha] at hok
  · rw [SchemaRegistry.nullable_eq hs f hf] at hnullable
    exact ⟨by simpa using hnullable,fun v h => Option.some.inj (h.symm.trans hl)⟩

/-- In a recovery the same, or the field has an error. -/
theorem lost_of_invalid (hs : SchemaRegistry.getSchema docType = .ok s)
    (hm : s.modelValidate P u (.obj d) = .error es) {f : FieldInfo} (hf : f ∈ s.fields)
    (hnull : (P.dumpFields (recoveredRecord P u s d)).lookup f.name = some .null) :
    Located es f ∨ f.required = false ∧ ∀ v, d.lookup f.name = some v → v = .null := by
  have hn := SchemaRegistry.names_nodup hs
  rw [recoveredRecord_lookup hn hf] at hnull
  rcases lost_cases (fun v hl ha => recoveredValue_none_iff hn hf hl ha) hnull with
    hl | ⟨v,hl,ha⟩ | ⟨hnullable,hl⟩
  · cases hrequired : f.required with
    | true => exact .inl (located_of_absent hm hf hrequired hl)
    | false => exact .inr ⟨rfl,fun v hv => by simp [hl] at hv⟩
  · exact .inl ((located_iff hs hm hf hl).mpr ha)
  · rw [SchemaRegistry.nullable_eq hs f hf] at hnullable
    exact .inr ⟨by simpa using hnullable,fun v hv => Option.some.inj (hv.symm.trans hl)⟩

/-- Something is recovered exactly when not every present field has an error. -/
theorem any_accepted_iff (hs : SchemaRegistry.getSchema docType = .ok s)
    (hm : s.modelValidate P u (.obj d) = .error es) : s.fields.any (hasAccepted P u d) = true ↔
      ¬ ∀ f ∈ s.fields, (d.lookup f.name).isSome → Located es f := by
  rw [List.any_eq_true]
  push Not
  refine exists_congr fun f => and_congr_right fun hf => ?_
  unfold hasAccepted
  cases hv : d.lookup f.name with
  | none => simp
  | some v => simp [located_iff hs hm hf hv]

theorem warnings_ne_nil (hs : SchemaRegistry.getSchema docType = .ok s)
    (hm : s.modelValidate P u (.obj d) = .error es)
    (hr : validateExtraction P u docType (.obj d) = .ok r) : r.warnings ≠ [] := by
  obtain ⟨rest,hws⟩ := warnings_of_invalid hs hm hr
  rw [hws]
  refine List.append_ne_nil_of_left_ne_nil ?_ rest
  exact mt List.map_eq_nil_iff.mp (modelValidate_error_ne_nil hm)

theorem accounted_of_valid (hs : SchemaRegistry.getSchema docType = .ok s) {x : Record}
    (hm : s.modelValidate P u (.obj d) = .ok x)
    (hr : validateExtraction P u docType (.obj d) = .ok r) : Accounted P u s d r := by
  have hdata := extractedData_of_valid hs hm hr
  have hstatus := status_of_valid hs hr hm
  obtain ⟨hfields,rfl,-⟩ := Schema.modelValidate_ok_iff.mp hm
  refine ⟨iff_of_true hstatus ⟨_,hm⟩,iff_of_false (by simp [hstatus]) ?_,.inl hstatus,
    iff_of_false (by simp [hdata]) (by simp [hstatus]),?_,fun h => absurd hstatus h,?_,?_⟩
  · rintro ⟨es,he,-⟩
    cases hm.symm.trans he
  · rintro data h
    obtain rfl := Option.some.inj (hdata.symm.trans h)
    rw [P.dumpFields_keys,Schema.parsedRecord,List.map_map]
    rfl
  · rintro data h f hf hrequired hnull
    obtain rfl := Option.some.inj (hdata.symm.trans h)
    exact absurd hrequired (by simp [(lost_of_valid hs hfields hf hnull).1])
  · rintro data h f hf v hv hne hnull
    obtain rfl := Option.some.inj (hdata.symm.trans h)
    exact absurd ((lost_of_valid hs hfields hf hnull).2 v hv) hne

theorem accounted_of_invalid (hs : SchemaRegistry.getSchema docType = .ok s)
    (hm : s.modelValidate P u (.obj d) = .error es)
    (hr : validateExtraction P u docType (.obj d) = .ok r) : Accounted P u s d r := by
  have hdata := extractedData_of_invalid hs hm hr
  have hstatus := status_of_invalid hs hr hm
  have hany := any_accepted_iff hs hm
  have hwarnings := warnings_ne_nil hs hm hr
  have hvalid : ¬ ∃ x, s.modelValidate P u (.obj d) = .ok x := fun ⟨x,hx⟩ => by cases hm.symm.trans hx
  by_cases h : s.fields.any (hasAccepted P u d) = true
  · rw [if_pos h] at hdata hstatus
    refine ⟨iff_of_false (by simp [hstatus]) hvalid,iff_of_false (by simp [hstatus]) ?_,.inr (.inl hstatus),
      iff_of_false (by simp [hdata]) (by simp [hstatus]),?_,fun _ => hwarnings,?_,?_⟩
    · rintro ⟨es',he,hall⟩
      obtain rfl := Except.error.inj (hm.symm.trans he)
      exact hany.mp h hall
    · rintro data h'
      obtain rfl := Option.some.inj (hdata.symm.trans h')
      rw [P.dumpFields_keys,recoveredRecord,List.map_map]
      rfl
    · rintro data h' f hf hrequired hnull
      obtain rfl := Option.some.inj (hdata.symm.trans h')
      rcases lost_of_invalid hs hm hf hnull with hlocated | ⟨hoptional,-⟩
      · exact warned_of_located hs hm hr hlocated
      · exact absurd (hrequired.symm.trans hoptional) Bool.noConfusion
    · rintro data h' f hf v hv hne hnull
      obtain rfl := Option.some.inj (hdata.symm.trans h')
      rcases lost_of_invalid hs hm hf hnull with hlocated | ⟨-,honly⟩
      · exact warned_of_located hs hm hr hlocated
      · exact absurd (honly v hv) hne
  · rw [if_neg h] at hdata hstatus
    have hnothing : ∀ data, r.extractedData ≠ some data := fun data hsome => by simp [hdata] at hsome
    exact ⟨iff_of_false (by simp [hstatus]) hvalid,iff_of_true hstatus ⟨es,hm,not_not.mp (mt hany.mpr h)⟩,
      .inr (.inr hstatus),iff_of_true hdata hstatus,fun _ h' => absurd h' (hnothing _),fun _ => hwarnings,
      fun _ h' => absurd h' (hnothing _),fun _ h' => absurd h' (hnothing _)⟩

/-- **Nothing is lost silently.** -/
theorem validateExtraction_accounted (hs : SchemaRegistry.getSchema docType = .ok s)
    (hr : validateExtraction P u docType (.obj d) = .ok r) : Accounted P u s d r := by
  cases hm : s.modelValidate P u (.obj d) with
  | ok x => exact accounted_of_valid hs hm hr
  | error es => exact accounted_of_invalid hs hm hr

/-- A contract with parties that are no list, and no other required field. -/
def badParties : Dict := [("parties",.str "Acme"),("governing_law",.str "England"),("payment_currency",.str "??")]

theorem badParties_accounted : Accounted .basic .ascii Documents.contractSchema badParties
    { extractedData := some [("parties",.null),("effective_date",.null),("termination_date",.null),
        ("governing_law",.str "England"),("payment_amount",.null),("payment_currency",.null),
        ("notice_period_days",.null),("key_obligations",.null)]
      warnings := ["parties: Input should be a valid list","effective_date: Field required",
        "payment_currency: Value error, currency must be a three-letter ISO 4217 code",
        "key_obligations: Field required"]
      status := .partial_ } :=
  @validateExtraction_accounted _ _ _ "contract" _ _ rfl rfl

end Validation

end StructuredExtractor
