import StructuredExtractor.Schema.Recovery

/-! # Recovery against full validation

Recovery parses a field inside an object of fallback values, or by its annotation
alone. Either way it finds what full validation finds.
-/
namespace StructuredExtractor

namespace Pydantic
variable {P : Pydantic} {u : Unicode}

/-- The library reads the fallback values of the plain types. -/
structure ReadsFallbacks (P : Pydantic) : Prop where
  str : (P.str (.str "")).isOk
  int : (P.int (.int 0)).isOk
  decimal : (P.decimal (.str "0")).isOk
  date : (P.date (.str "1970-01-01")).isOk

theorem basic_readsFallbacks : basic.ReadsFallbacks := ⟨rfl,rfl,by decide,by decide⟩

theorem field_plain {f : FieldInfo} (hf : f.currency = false) (v : Json) :
    P.field u f v = P.annotation f.annotation v := by
  unfold field
  cases P.annotation f.annotation v <;> simp [hf]

/-- A null of a field that takes it is `None`. -/
theorem field_null {f : FieldInfo} (hf : f.nullable = true) : P.field u f .null = .ok .none := by
  unfold FieldInfo.nullable at hf
  have hparsed : P.annotation f.annotation .null = .ok .none := by
    cases ha : f.annotation with
    | list i => simp [ha] at hf
    | leaf l =>
      simp only [ha] at hf
      simp [Pydantic.annotation,leaf,hf]
  simp only [field,hparsed]
  split <;> rfl

theorem isOk_map {E F α β : Type} {g : α → β} {h : E → F} {r : Except E α} :
    ((r.map g).mapError h).isOk = r.isOk := by
  cases r <;> rfl

/-- A field that is no currency, or is optional, takes its own fallback value. -/
theorem accepts_fallback (hP : P.ReadsFallbacks) {f : FieldInfo}
    (hnull : f.nullable = !f.required) (hf : f.required = true → f.currency = false) :
    P.accepts u f (Validation.fallbackRawValue f) = true := by
  cases hr : f.required with
  | false =>
    rw [Validation.fallbackRawValue,hr]
    exact accepts_iff.mpr ⟨.none,field_null (hnull.trans (by rw [hr]; rfl))⟩
  | true =>
    rw [accepts,field_plain (hf hr),Validation.fallbackRawValue,hr]
    cases ha : f.annotation with
    | list i => rfl
    | leaf l =>
      obtain ⟨scalar,nullable⟩ := l
      obtain rfl : nullable = false := by simpa [FieldInfo.nullable,ha,hr] using hnull
      cases scalar with
      | str => exact isOk_map.trans hP.str
      | int => exact isOk_map.trans hP.int
      | decimal => exact isOk_map.trans hP.decimal
      | date => exact isOk_map.trans hP.date

end Pydantic

section Candidate
variable {P : Pydantic} {u : Unicode} {s : Schema} {docType : String}

theorem candidate_lookup (hn : (s.fields.map FieldInfo.name).Nodup) {g : FieldInfo} (hg : g ∈ s.fields)
    (name : String) (v : Json) : (Validation.candidate s name v).lookup g.name =
      some (if g.name = name then v else Validation.fallbackRawValue g) :=
  Keyed.lookup_map_of_mem hn hg fun g => if g.name = name then v else Validation.fallbackRawValue g

theorem parsedRecord_value (hn : (s.fields.map FieldInfo.name).Nodup) {g : FieldInfo} (hg : g ∈ s.fields)
    (d : Dict) : (s.parsedRecord P u d).lookup g.name = some (P.parsedValue u d g) :=
  Keyed.lookup_map_of_mem hn hg fun g => P.parsedValue u d g

/-- A schema has one currency field at most. -/
theorem currency_unique (hs : SchemaRegistry.getSchema docType = .ok s) :
    ∀ f ∈ s.fields, ∀ g ∈ s.fields, f.currency = true → g.currency = true → f.name = g.name :=
  (by decide : ∀ p ∈ SchemaRegistry.registry, ∀ f ∈ p.2.fields, ∀ g ∈ p.2.fields,
    f.currency = true → g.currency = true → f.name = g.name) _ (SchemaRegistry.getSchema_mem hs)

theorem ordered_ok {r : Record} {early late message : String}
    (h : ∀ a b, r.date? early = some a → r.date? late = some b → b.before a = false) :
    Schema.ordered r early late message = .ok () := by
  unfold Schema.ordered
  split
  · next a b ha hb => rw [h a b ha hb]; rfl
  · rfl

theorem before_self (d : Date) : d.before d = false := by simp [Date.before]

/-- Among fallback values, a date is the first of 1970, or absent when it is optional. -/
theorem candidate_date (hn : (s.fields.map FieldInfo.name).Nodup) {g : FieldInfo} (hg : g ∈ s.fields)
    {name : String} (hne : g.name ≠ name) (v : Json) {day : Date}
    (hday : (s.parsedRecord P u (Validation.candidate s name v)).date? g.name = some day) :
    P.field u g (Validation.fallbackRawValue g) = .ok (.date day) := by
  unfold Record.date? at hday
  rw [parsedRecord_value hn hg,Pydantic.parsedValue,candidate_lookup hn hg,if_neg hne] at hday
  dsimp only at hday
  cases hx : P.field u g (Validation.fallbackRawValue g) with
  | error e => simp [hx] at hday
  | ok x =>
    cases x <;> simp_all

/-- The fallback values are in order. -/
theorem candidate_ordered (hn : (s.fields.map FieldInfo.name).Nodup) (early late : FieldInfo)
    (hearly : early ∈ s.fields) (hlate : late ∈ s.fields) {name : String} (he : early.name ≠ name)
    (hl : late.name ≠ name) (v : Json) (message : String)
    (hdays : late.nullable = true ∧ late.required = false ∨
      P.field u late (Validation.fallbackRawValue late) =
        P.field u early (Validation.fallbackRawValue early)) :
    Schema.ordered (s.parsedRecord P u (Validation.candidate s name v)) early.name late.name message =
      .ok () := by
  refine ordered_ok fun a b ha hb => ?_
  have ha' := candidate_date hn hearly he v ha
  have hb' := candidate_date hn hlate hl v hb
  rcases hdays with ⟨hnull,hoptional⟩ | hsame
  · rw [Validation.fallbackRawValue,hoptional] at hb'
    cases (Pydantic.field_null hnull).symm.trans hb'
  · obtain rfl : b = a := Value.date.inj (Except.ok.inj (hb'.symm.trans (hsame.trans ha')))
    exact before_self b

theorem schema_cases (hs : SchemaRegistry.getSchema docType = .ok s) :
    s = Documents.invoiceSchema ∨ s = Documents.contractSchema ∨ s = Documents.payslipSchema ∨
      s = Documents.receiptSchema := by
  have hmem := SchemaRegistry.getSchema_mem hs
  simp only [SchemaRegistry.registry,List.mem_cons,Prod.mk.injEq,List.not_mem_nil,or_false] at hmem
  rcases hmem with ⟨-,h⟩ | ⟨-,h⟩ | ⟨-,h⟩ | ⟨-,h⟩
  · exact .inl h
  · exact .inr (.inl h)
  · exact .inr (.inr (.inl h))
  · exact .inr (.inr (.inr h))

/-- Beside a currency, the fallback values pass the model validators. -/
theorem candidate_modelValidator (hs : SchemaRegistry.getSchema docType = .ok s) {f : FieldInfo}
    (hf : f ∈ s.fields) (hcurrency : f.currency = true) (v : Json) :
    s.modelValidator (s.parsedRecord P u (Validation.candidate s f.name v)) = .ok () := by
  have hn := SchemaRegistry.names_nodup hs
  have hname : ∀ g ∈ s.fields, g.currency = false → g.name ≠ f.name := by
    intro g hg hplain hname
    obtain rfl := List.inj_on_of_nodup_map hn hg hf hname
    exact Bool.false_ne_true (hplain.symm.trans hcurrency)
  rcases schema_cases hs with rfl | rfl | rfl | rfl
  · exact candidate_ordered hn ⟨"invoice_date",.leaf .day,true,false⟩
      ⟨"due_date",.leaf .dayOrNone,false,false⟩ (by decide) (by decide) (hname _ (by decide) rfl)
      (hname _ (by decide) rfl) v _ (.inl ⟨rfl,rfl⟩)
  · exact candidate_ordered hn ⟨"effective_date",.leaf .day,true,false⟩
      ⟨"termination_date",.leaf .dayOrNone,false,false⟩ (by decide) (by decide)
      (hname _ (by decide) rfl) (hname _ (by decide) rfl) v _ (.inl ⟨rfl,rfl⟩)
  · exact candidate_ordered hn ⟨"pay_period_start",.leaf .day,true,false⟩
      ⟨"pay_period_end",.leaf .day,true,false⟩ (by decide) (by decide)
      (hname _ (by decide) rfl) (hname _ (by decide) rfl) v _ (.inr rfl)
  · rfl

theorem candidate_validates (hP : P.ReadsFallbacks) (hs : SchemaRegistry.getSchema docType = .ok s)
    {f : FieldInfo} (hf : f ∈ s.fields) (hcurrency : f.currency = true) {v : Json}
    (hv : P.accepts u f v = true) :
    ∃ r, s.modelValidate P u (.obj (Validation.candidate s f.name v)) = .ok r := by
  have hn := SchemaRegistry.names_nodup hs
  refine ⟨_,Schema.modelValidate_ok_iff.mpr ⟨fun g hg => ?_,rfl,candidate_modelValidator hs hf hcurrency v⟩⟩
  rw [Pydantic.FieldOk,candidate_lookup hn hg]
  by_cases hname : g.name = f.name
  · obtain rfl := List.inj_on_of_nodup_map hn hg hf hname
    rw [if_pos rfl]
    exact hv
  · rw [if_neg hname]
    refine Pydantic.accepts_fallback hP (SchemaRegistry.nullable_eq hs g hg) fun _ => ?_
    by_contra hg'
    exact hname (currency_unique hs g hg f hf (by simpa using hg') hcurrency)

end Candidate

namespace Validation
variable {P : Pydantic} {u : Unicode} {s : Schema} {docType : String}

/-- An accepted value that validates among the fallback values gets its own parsed value. -/
theorem validatedFieldValue_of_valid (hn : (s.fields.map FieldInfo.name).Nodup) {f : FieldInfo}
    (hf : f ∈ s.fields) {v : Json} {x : Value} (hx : P.field u f v = .ok x) {r : Record}
    (hm : s.modelValidate P u (.obj (candidate s f.name v)) = .ok r) :
    validatedFieldValue P u s f v = .ok x := by
  obtain ⟨-,rfl,-⟩ := Schema.modelValidate_ok_iff.mp hm
  have hlook := candidate_lookup hn hf f.name v
  rw [if_pos rfl] at hlook
  simp only [validatedFieldValue,hm,parsedRecord_value hn hf,Pydantic.parsedValue,hlook,hx]

/-- Without a field validator the annotation alone gives the same. -/
theorem validatedFieldValue_plain (hn : (s.fields.map FieldInfo.name).Nodup) {f : FieldInfo}
    (hf : f ∈ s.fields) (hplain : f.currency = false) {v : Json} {x : Value} (hx : P.field u f v = .ok x) :
    validatedFieldValue P u s f v = .ok x := by
  cases hm : s.modelValidate P u (.obj (candidate s f.name v)) with
  | ok r => exact validatedFieldValue_of_valid hn hf hx hm
  | error es =>
    rw [Pydantic.field_plain hplain] at hx
    simp [validatedFieldValue,hm,hx,Except.mapError]

/-- Recovery gives a field that it accepts the value that full validation gives it. -/
theorem validatedFieldValue_eq (hP : P.ReadsFallbacks) (hs : SchemaRegistry.getSchema docType = .ok s)
    {f : FieldInfo} (hf : f ∈ s.fields) {v : Json} {x : Value} (hx : P.field u f v = .ok x) :
    validatedFieldValue P u s f v = .ok x := by
  have hn := SchemaRegistry.names_nodup hs
  cases hcurrency : f.currency with
  | true =>
    obtain ⟨r,hm⟩ := candidate_validates hP hs hf hcurrency (Pydantic.accepts_iff.mpr ⟨x,hx⟩)
    exact validatedFieldValue_of_valid hn hf hx hm
  | false => exact validatedFieldValue_plain hn hf hcurrency hx

/-- The recovered value is the parsed one wherever recovery gives an accepted value its own. -/
theorem recoveredValue_eq_parsed {d : Dict} {f : FieldInfo}
    (h : ∀ v x, P.field u f v = .ok x → validatedFieldValue P u s f v = .ok x) :
    recoveredValue P u s d f = P.parsedValue u d f := by
  unfold recoveredValue Pydantic.parsedValue
  cases d.lookup f.name with
  | none => rfl
  | some v =>
    cases hx : P.field u f v with
    | ok x => simp [Pydantic.accepts,hx,h v x hx,Except.isOk,Except.toBool]
    | error e => simp [Pydantic.accepts,hx,Except.isOk,Except.toBool]

theorem recoveredValue_eq (hP : P.ReadsFallbacks) (hs : SchemaRegistry.getSchema docType = .ok s)
    (d : Dict) {f : FieldInfo} (hf : f ∈ s.fields) : recoveredValue P u s d f = P.parsedValue u d f :=
  recoveredValue_eq_parsed fun _ _ => validatedFieldValue_eq hP hs hf

/-- Recovery makes the record that full validation would make, with `None` for the
fields that it does not accept. -/
theorem recoveredRecord_eq (hP : P.ReadsFallbacks) (hs : SchemaRegistry.getSchema docType = .ok s)
    (d : Dict) : recoveredRecord P u s d = s.parsedRecord P u d :=
  List.map_congr_left fun _ hf => by rw [recoveredValue_eq hP hs d hf]

/-- The data of a result, by the record that was dumped. -/
theorem extractedData_of_valid (hs : SchemaRegistry.getSchema docType = .ok s) {d : Dict} {x : Record}
    (hm : s.modelValidate P u (.obj d) = .ok x) {r : ValidationResult}
    (hr : validateExtraction P u docType (.obj d) = .ok r) : r.extractedData = some (P.dumpFields x) := by
  have ho : (Except.ok r).map outcome = _ := hr ▸ validateExtraction_obj hs d
  rw [hm] at ho
  obtain ⟨_,-,hq⟩ := map_eq_ok ho.symm
  exact (congrArg Prod.snd hq).symm

theorem extractedData_of_invalid (hs : SchemaRegistry.getSchema docType = .ok s) {d : Dict}
    {es : List ErrorDetails} (hm : s.modelValidate P u (.obj d) = .error es) {r : ValidationResult}
    (hr : validateExtraction P u docType (.obj d) = .ok r) :
    r.extractedData = if s.fields.any (hasAccepted P u d) then
      some (P.dumpFields (recoveredRecord P u s d)) else none := by
  have ho : (Except.ok r).map outcome = _ := hr ▸ validateExtraction_obj hs d
  rw [hm] at ho
  obtain ⟨_,-,hq⟩ := map_eq_ok ho.symm
  have hdata := (congrArg Prod.snd hq).symm
  unfold recoveredOutcome at hdata
  split at hdata
  · next hany => rw [if_pos hany]; exact hdata
  · next hany => rw [if_neg hany]; exact hdata

/-- **Recovery agrees.** A field that is present without an error is recovered with the
value that it has in every valid object that holds the same there, and so is dumped. -/
theorem recovery_agrees (hP : P.ReadsFallbacks) (hs : SchemaRegistry.getSchema docType = .ok s)
    {d d' : Dict} {es : List ErrorDetails} {x' : Record} (hinvalid : s.modelValidate P u (.obj d) = .error es)
    (hvalid : s.modelValidate P u (.obj d') = .ok x') {f : FieldInfo} (hf : f ∈ s.fields) {v : Json}
    (hv : d.lookup f.name = some v) (hv' : d'.lookup f.name = some v)
    (hfree : ∀ e ∈ es, ∀ rest, e.loc ≠ .key f.name :: rest) :
    ∃ x, validatedFieldValue P u s f v = .ok x ∧ x'.lookup f.name = some x ∧
      (∀ r, validateExtraction P u docType (.obj d) = .ok r →
        ∃ data, r.extractedData = some data ∧ data.lookup f.name = some (P.dump x)) ∧
      ∀ r, validateExtraction P u docType (.obj d') = .ok r →
        ∃ data, r.extractedData = some data ∧ data.lookup f.name = some (P.dump x) := by
  have hn := SchemaRegistry.names_nodup hs
  obtain ⟨-,rfl,-⟩ := Schema.modelValidate_ok_iff.mp hvalid
  have haccepts : P.accepts u f v = true := by
    by_contra hrejects
    have hmem := (Schema.mem_invalidFields_iff hn hinvalid hf hv).mpr (by simpa using hrejects)
    obtain ⟨e,he,rest,hloc⟩ := Schema.mem_invalidFields.mp hmem
    exact hfree e he rest hloc
  obtain ⟨x,hx⟩ := Pydantic.accepts_iff.mp haccepts
  have hparsed : ∀ {d : Dict}, d.lookup f.name = some v → P.parsedValue u d f = x := fun h => by
    simp only [Pydantic.parsedValue,h,hx]
  refine ⟨x,validatedFieldValue_eq hP hs hf hx,?_,fun r hr => ?_,fun r hr => ?_⟩
  · rw [parsedRecord_value hn hf,hparsed hv']
  · have hdata := extractedData_of_invalid hs hinvalid hr
    have hany : s.fields.any (hasAccepted P u d) = true :=
      List.any_eq_true.mpr ⟨f,hf,by rw [hasAccepted,hv]; exact haccepts⟩
    rw [if_pos hany,recoveredRecord_eq hP hs] at hdata
    exact ⟨_,hdata,by rw [parsedRecord_lookup hn hf,hparsed hv]⟩
  · exact ⟨_,extractedData_of_valid hs hvalid hr,by rw [parsedRecord_lookup hn hf,hparsed hv']⟩

def paymentCurrency : FieldInfo := ⟨"payment_currency",.leaf .textOrNone,false,true⟩

/-- A contract that has nothing else. -/
def strayContract : Dict := [("payment_currency",.str "usd")]

def shortContract : Dict :=
  [("parties",.arr []),("effective_date",.str "2024-01-31"),("payment_currency",.str "usd"),
    ("key_obligations",.arr [])]

theorem stray_currency_recovered :
    ∃ x, validatedFieldValue .basic .ascii Documents.contractSchema paymentCurrency (.str "usd") = .ok x ∧
      (Documents.contractSchema.parsedRecord .basic .ascii shortContract).lookup "payment_currency" = some x ∧
      (∀ r, validateExtraction .basic .ascii "contract" (.obj strayContract) = .ok r →
        ∃ data, r.extractedData = some data ∧
          data.lookup "payment_currency" = some (Pydantic.basic.dump x)) ∧
      ∀ r, validateExtraction .basic .ascii "contract" (.obj shortContract) = .ok r →
        ∃ data, r.extractedData = some data ∧
          data.lookup "payment_currency" = some (Pydantic.basic.dump x) := by
  have hinvalid : Documents.contractSchema.modelValidate .basic .ascii (.obj strayContract) =
      .error [⟨[.key "parties"],"Field required"⟩,⟨[.key "effective_date"],"Field required"⟩,
        ⟨[.key "key_obligations"],"Field required"⟩] := rfl
  have hvalid : Documents.contractSchema.modelValidate .basic .ascii (.obj shortContract) =
      .ok (Documents.contractSchema.parsedRecord .basic .ascii shortContract) := rfl
  have hfree : ∀ e ∈ [ErrorDetails.mk [.key "parties"] "Field required",
      ⟨[.key "effective_date"],"Field required"⟩,⟨[.key "key_obligations"],"Field required"⟩],
      ∀ rest, e.loc ≠ .key "payment_currency" :: rest := by
    rintro e he rest h
    simp only [List.mem_cons,List.not_mem_nil,or_false] at he
    rcases he with rfl | rfl | rfl <;> simp at h
  exact recovery_agrees (f := paymentCurrency) Pydantic.basic_readsFallbacks rfl hinvalid hvalid (by decide)
    rfl rfl hfree

end Validation

end StructuredExtractor
