import StructuredExtractor.Schema.Accounts

/-! # Results without information

An object can have nothing that is usable: every value of a field is rejected, or is the
null of an optional field. Recovery counts such a null as a valid field.
-/
namespace StructuredExtractor

namespace Validation
variable {P : Pydantic} {u : Unicode} {s : Schema} {docType : String} {d : Dict} {r : ValidationResult}

/-- No field of the object has a value, other than the null of an optional field. -/
def Unusable (P : Pydantic) (u : Unicode) (s : Schema) (d : Dict) : Prop :=
  ∀ f ∈ s.fields, ∀ v, d.lookup f.name = some v → P.accepts u f v = true → f.nullable = true ∧ v = .null

/-- It is unusable, and has the null of an optional field. -/
def NullsOnly (P : Pydantic) (u : Unicode) (s : Schema) (d : Dict) : Prop :=
  Unusable P u s d ∧ ∃ f ∈ s.fields, f.nullable = true ∧ d.lookup f.name = some .null

/-- Some value of the data is not null. -/
def HasValue (data : Dict) : Prop := ∃ p ∈ data, p.2 ≠ .null

instance (data : Dict) : Decidable (HasValue data) := inferInstanceAs (Decidable (∃ p ∈ data, _))

/-- Every schema has a field that is required, and so takes no null. -/
theorem exists_required (hs : SchemaRegistry.getSchema docType = .ok s) :
    ∃ f ∈ s.fields, f.required = true ∧ f.nullable = false :=
  (by decide : ∀ p ∈ SchemaRegistry.registry, ∃ f ∈ p.2.fields, f.required = true ∧ f.nullable = false) _
    (SchemaRegistry.getSchema_mem hs)

theorem Unusable.not_valid (h : Unusable P u s d) (hs : SchemaRegistry.getSchema docType = .ok s)
    (x : Record) : s.modelValidate P u (.obj d) ≠ .ok x := by
  intro hx
  obtain ⟨f,hf,hrequired,hnullable⟩ := exists_required hs
  have hok := (Schema.modelValidate_ok_iff.mp hx).1 f hf
  unfold Pydantic.FieldOk at hok
  split at hok
  · next v hv =>
    have hnull := (h f hf v hv hok).1
    exact Bool.false_ne_true (hnullable.symm.trans hnull)
  · exact Bool.false_ne_true (hok.symm.trans hrequired)

/-- A null of an optional field is the only thing that counts as valid. -/
theorem Unusable.any_iff (h : Unusable P u s d) :
    s.fields.any (hasAccepted P u d) = true ↔ ∃ f ∈ s.fields, f.nullable = true ∧ d.lookup f.name = some .null := by
  rw [List.any_eq_true]
  refine exists_congr fun f => and_congr_right fun hf => ?_
  unfold hasAccepted
  cases hv : d.lookup f.name with
  | none => simp
  | some v =>
    simp only [Option.some.injEq]
    constructor
    · exact h f hf v hv
    · rintro ⟨hnull,rfl⟩
      exact Pydantic.accepts_iff.mpr ⟨.none,Pydantic.field_null hnull⟩

theorem Unusable.recovered (h : Unusable P u s d) (hs : SchemaRegistry.getSchema docType = .ok s) :
    ¬ HasValue (P.dumpFields (recoveredRecord P u s d)) := by
  have hn := SchemaRegistry.names_nodup hs
  have hnone : ∀ f ∈ s.fields, recoveredValue P u s d f = .none := by
    intro f hf
    cases hv : d.lookup f.name with
    | none => simp only [recoveredValue,hv]
    | some v =>
      cases ha : P.accepts u f v with
      | false => simp only [recoveredValue,hv,ha]
      | true => exact (recoveredValue_none_iff hn hf hv ha).mpr (h f hf v hv ha)
  have hrecord : recoveredRecord P u s d = s.fields.map fun f => (f.name,.none) :=
    List.map_congr_left fun f hf => by rw [hnone f hf]
  rw [hrecord]
  generalize s.fields = fs
  rintro ⟨p,hp,hne⟩
  induction fs with
  | nil => cases hp
  | cons f fs ih =>
    obtain rfl | hp := List.mem_cons.mp hp
    · exact hne rfl
    · exact ih hp

/-- Without a value other than nulls, the result is partial and all null, or failed. -/
theorem Unusable.result (h : Unusable P u s d) (hs : SchemaRegistry.getSchema docType = .ok s)
    (hr : validateExtraction P u docType (.obj d) = .ok r) :
    (NullsOnly P u s d ∧ r.status = .partial_ ∧ ∃ data, r.extractedData = some data ∧ ¬ HasValue data) ∨
    (¬ NullsOnly P u s d ∧ r.status = .failed ∧ r.extractedData = none) := by
  cases hm : s.modelValidate P u (.obj d) with
  | ok x => exact absurd hm (h.not_valid hs x)
  | error es =>
    have hstatus := status_of_invalid hs hr hm
    have hdata := extractedData_of_invalid hs hm hr
    by_cases hany : s.fields.any (hasAccepted P u d) = true
    · rw [if_pos hany] at hstatus hdata
      exact .inl ⟨⟨h,h.any_iff.mp hany⟩,hstatus,_,hdata,h.recovered hs⟩
    · rw [if_neg hany] at hstatus hdata
      exact .inr ⟨fun hnulls => hany (h.any_iff.mpr hnulls.2),hstatus,hdata⟩

/-- A result that did not fail has a value exactly when the object has not only nulls. -/
theorem hasValue_iff (hs : SchemaRegistry.getSchema docType = .ok s)
    (hr : validateExtraction P u docType (.obj d) = .ok r) :
    (r.status ≠ .failed → ∃ data, r.extractedData = some data ∧ HasValue data) ↔ ¬ NullsOnly P u s d := by
  constructor
  · rintro hvalue hnulls
    rcases hnulls.1.result hs hr with ⟨-,hstatus,data,hdata,hnone⟩ | ⟨hnot,-⟩
    · obtain ⟨data',hdata',hhas⟩ := hvalue (by simp [hstatus])
      exact hnone (Option.some.inj (hdata.symm.trans hdata') ▸ hhas)
    · exact hnot hnulls
  · intro hnot hstatus
    by_cases h : Unusable P u s d
    · rcases h.result hs hr with ⟨hnulls,-⟩ | ⟨-,hfailed,-⟩
      · exact absurd hnulls hnot
      · exact absurd hfailed hstatus
    · unfold Unusable at h
      push Not at h
      obtain ⟨f,hf,v,hv,ha,hne⟩ := h
      obtain ⟨data,x,hdata,hx,hne'⟩ := validated_ne_null hs hf hv ha (fun hnull => hne hnull.1 hnull.2) hr
      exact ⟨data,hdata,_,Keyed.mem_of_lookup hx,hne'⟩

end Validation

end StructuredExtractor
