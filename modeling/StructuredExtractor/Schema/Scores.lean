import StructuredExtractor.Schema.Confidence
import StructuredExtractor.Schema.Currencies
import StructuredExtractor.Extraction.Merge
import Mathlib.Data.List.TakeWhile

/-! # Scores of validated data

A score is given for what validation stored of a field. Nothing and the placeholders score
low, and so do negative amounts; a text of white space is scored as a text.
-/
namespace StructuredExtractor

/-- A text that is empty or white space. -/
def Blank : Json → Prop
  | .str text => Text.strip text = ""
  | _ => False

instance : DecidablePred Blank
  | .str text => inferInstanceAs (Decidable (Text.strip text = ""))
  | .null | .bool _ | .int _ | .float _ | .arr _ | .obj _ => inferInstanceAs (Decidable False)

/-- What counts as no value of a field. -/
def NoValue (v : Json) : Prop := v = .null ∨ Blank v

/-- A plain text field for which the object has a text that is empty or white space. -/
def BlankText (d : Dict) (f : FieldInfo) : Prop :=
  (∃ nullable, f.annotation = .leaf ⟨.str,nullable⟩) ∧ f.currency = false ∧ ∃ v ∈ d.lookup f.name, Blank v

instance (d : Dict) : DecidablePred (BlankText d) := fun f => inferInstanceAs (Decidable
  ((∃ nullable, f.annotation = .leaf ⟨.str,nullable⟩) ∧ f.currency = false ∧ ∃ v ∈ d.lookup f.name, Blank v))

namespace Text

/-- What strips to nothing is white space. -/
theorem strip_eq_empty {s : String} : strip s = "" ↔ ∀ c ∈ s.toList, isSpace c = true := by
  have hlist : strip s = "" ↔ (s.toList.dropWhile isSpace).reverse.dropWhile isSpace = [] := by
    rw [strip,← String.toList_inj,String.toList_ofList]
    simp
  rw [hlist,List.dropWhile_eq_nil_iff]
  constructor
  · intro h
    by_contra hspace
    have hne : s.toList.dropWhile isSpace ≠ [] := mt List.dropWhile_eq_nil_iff.mp hspace
    have hhead := List.head_dropWhile_not isSpace hne
    rw [h _ (List.mem_reverse.mpr (List.head_mem hne))] at hhead
    cases hhead
  · intro h c hc
    exact h c (List.dropWhile_sublist isSpace |>.mem (List.mem_reverse.mp hc))

end Text

namespace Decimal
variable {u : Unicode}

/-- A text of white space is no number. -/
theorem ofText_blank {text : String} (h : Text.strip text = "") : ofText u text = none := by
  rw [ofText,h]
  rfl

end Decimal

namespace Pydantic
variable {P : Pydantic} {u : Unicode}

/-- Strings are read as they are, and nothing else is read as one. -/
def PlainTexts (P : Pydantic) : Prop := ∀ v text, P.str v = .ok text ↔ v = .str text

/-- The library writes an amount as a number that `Decimal` reads as the same, and a date as a
text that is not blank. -/
def Writes (P : Pydantic) (u : Unicode) : Value → Prop
  | .decimal x => Decimal.ofText u (P.decimalText x) = some (.finite x)
  | .date x => Text.strip (P.dateText x) ≠ ""
  | _ => True

instance : DecidablePred (P.Writes u)
  | .decimal _ => inferInstanceAs (Decidable (_ = _))
  | .date _ => inferInstanceAs (Decidable (_ ≠ _))
  | .none | .str _ | .int _ | .list _ | .model _ => inferInstanceAs (Decidable True)

theorem scalar_str {sc : Scalar} {v : Json} {text : String} (h : P.scalar sc v = .ok (.str text)) :
    sc = .str ∧ P.str v = .ok text := by
  cases sc <;> obtain ⟨a,ha,hv⟩ := map_eq_ok (mapError_ok h) <;> cases hv
  exact ⟨rfl,ha⟩

theorem scalar_decimal {sc : Scalar} {v : Json} {x : Decimal} (h : P.scalar sc v = .ok (.decimal x)) :
    sc = .decimal := by
  cases sc <;> obtain ⟨a,-,hv⟩ := map_eq_ok (mapError_ok h) <;> cases hv
  rfl

/-- A value that is neither `None` nor a list was read as the scalar of its field. -/
theorem annotation_scalar {a : Annotation} {v : Json} {x : Value} (h : P.annotation a v = .ok x) (hnone : x ≠ .none)
    (hlist : ∀ items, x ≠ .list items) : ∃ l, a = .leaf l ∧ P.scalar l.scalar v = .ok x := by
  cases a with
  | list i =>
    cases v with
    | arr items =>
      obtain ⟨vs,-,rfl⟩ := map_eq_ok h
      exact absurd rfl (hlist vs)
    | _ => cases h
  | leaf l =>
    rw [ annotation,leaf] at h
    split at h
    · cases h
      exact absurd rfl hnone
    · exact ⟨l,rfl,h⟩

/-- The validator of a currency lets a text through as a code, and anything else as it is. -/
theorem field_cases {f : FieldInfo} {v : Json} {x : Value} (h : P.field u f v = .ok x) :
    P.annotation f.annotation v = .ok x ∧ (f.currency = true → ∀ text, x ≠ .str text) ∨
      ∃ text code, currencyCode u text = .ok code ∧ x = .str code := by
  unfold field at h
  cases ha : P.annotation f.annotation v with
  | error es =>
    rw [ha] at h
    cases h
  | ok y =>
    rw [ha] at h
    cases hc : f.currency with
    | false =>
      simp only [hc] at h
      exact .inl ⟨h,nofun⟩
    | true =>
      simp only [hc,if_true] at h
      cases y with
      | str text =>
        obtain ⟨code,hcode,rfl⟩ := map_eq_ok (mapError_ok h)
        exact .inr ⟨text,code,hcode,rfl⟩
      | _ =>
        cases h
        exact .inl ⟨rfl,fun _ => nofun⟩

theorem field_decimal {f : FieldInfo} {v : Json} {x : Decimal} (h : P.field u f v = .ok (.decimal x)) :
    ∃ nullable, f.annotation = .leaf ⟨.decimal,nullable⟩ := by
  obtain ⟨ha,-⟩ | ⟨_,_,-,hx⟩ := field_cases h
  · obtain ⟨l,hl,hscalar⟩ := annotation_scalar ha (by simp) (by simp)
    obtain ⟨scalar,nullable⟩ := l
    obtain rfl : scalar = .decimal := scalar_decimal hscalar
    exact ⟨nullable,hl⟩
  · cases hx

theorem field_of_parsed {d : Dict} {f : FieldInfo} (h : P.parsedValue u d f ≠ .none) :
    ∃ v, d.lookup f.name = some v ∧ P.field u f v = .ok (P.parsedValue u d f) := by
  unfold parsedValue at h ⊢
  cases hv : d.lookup f.name with
  | none => exact absurd (by rw [hv]) h
  | some v =>
    rw [hv] at h
    cases hx : P.field u f v with
    | error es => exact absurd (by simp only [hx]) h
    | ok x => exact ⟨v,rfl,by simp only [hx]⟩

/-- A blank text is read of a plain text field only, and only where the object has it. -/
theorem field_blank (hplain : P.PlainTexts) (hletters : ∀ c, u.isAlpha c = true → Text.isSpace c = false)
    {f : FieldInfo} {v : Json} {text : String} (h : P.field u f v = .ok (.str text))
    (hblank : Text.strip text = "") :
    (∃ nullable, f.annotation = .leaf ⟨.str,nullable⟩) ∧ f.currency = false ∧ v = .str text := by
  have hnotCode : ∀ code, u.isAlphaText code = true → code ≠ text := by
    rintro code halpha rfl
    simp only [Unicode.isAlphaText,Bool.and_eq_true,decide_eq_true_eq,List.all_eq_true] at halpha
    obtain ⟨c,cs,hcode⟩ := List.exists_cons_of_ne_nil halpha.1
    have hc : c ∈ code.toList := by simp [hcode]
    cases (hletters c (halpha.2 c hc)).symm.trans (Text.strip_eq_empty.mp hblank c hc)
  obtain ⟨ha,hplainField⟩ | ⟨_,code,hcode,hx⟩ := field_cases h
  · obtain ⟨⟨scalar,nullable⟩,hl,hscalar⟩ := annotation_scalar ha (by simp) (by simp)
    obtain ⟨rfl,hread⟩ := scalar_str hscalar
    refine ⟨⟨nullable,hl⟩,?_,(hplain v text).mp hread⟩
    cases hc : f.currency with
    | false => rfl
    | true => exact absurd rfl (hplainField hc text)
  · obtain ⟨-,halpha,rfl⟩ := currencyCode_eq_ok.mp hcode
    exact absurd (Value.str.inj hx).symm (hnotCode _ halpha)

end Pydantic

namespace Confidence
open Validation
variable {P : Pydantic} {u : Unicode} {s : Schema} {docType : String} {d : Dict} {r : ValidationResult} {f : FieldInfo}

/-- What validation stored of a field. -/
def storedValue (r : ValidationResult) (f : FieldInfo) : Json := ((r.extractedData.getD []).lookup f.name).getD .null

/-- The scores of a result, as they should be: one for each field, no more than the placeholder's for
no value, and no more than 60 for a negative amount. -/
structure Rates (P : Pydantic) (u : Unicode) (s : Schema) (d : Dict) (r : ValidationResult)
    (scores : List (String × ℕ)) : Prop where
  onePerField : scores.map Prod.fst = s.fields.map FieldInfo.name ∧ (s.fields.map FieldInfo.name).Nodup
  noValue : ∀ f ∈ s.fields, NoValue (storedValue r f) → ∃ score, scores.lookup f.name = some score ∧ score ≤ 20
  negative : ∀ f ∈ s.fields, ∀ x, P.parsedValue u d f = .decimal x → x.isNegative = true →
    ∃ score, scores.lookup f.name = some score ∧ score ≤ 60

/-- Every field is scored by what is stored of it. -/
theorem scoreConfidenceMap_eq (hs : SchemaRegistry.getSchema docType = .ok s) (r : ValidationResult) :
    scoreConfidenceMap u docType r.extractedData =
      .ok (s.fields.map fun f => (f.name,scoreField u f.name (storedValue r f) f.required)) := by
  rw [scoreConfidenceMap,hs]
  rfl

theorem scores_lookup (hs : SchemaRegistry.getSchema docType = .ok s) (hf : f ∈ s.fields) (r : ValidationResult) :
    (s.fields.map fun f => (f.name,scoreField u f.name (storedValue r f) f.required)).lookup f.name =
      some (scoreField u f.name (storedValue r f) f.required) :=
  Keyed.lookup_map_of_mem (SchemaRegistry.names_nodup hs) hf _

theorem hasAccepted_of_parsed (h : P.parsedValue u d f ≠ .none) : hasAccepted P u d f = true := by
  obtain ⟨v,hv,hx⟩ := Pydantic.field_of_parsed h
  rw [hasAccepted,hv]
  exact Pydantic.accepts_iff.mpr ⟨_,hx⟩

/-- A result without data is one in which nothing was read. -/
theorem storedValue_eq (hread : P.ReadsFallbacks) (hs : SchemaRegistry.getSchema docType = .ok s) (hf : f ∈ s.fields)
    (hr : validateExtraction P u docType (.obj d) = .ok r) : storedValue r f = P.dump (P.parsedValue u d f) := by
  cases hdata : r.extractedData with
  | some data => rw [storedValue,hdata,Option.getD_some,extractedData_lookup hread hs hf hr hdata,Option.getD_some]
  | none =>
    have hparsed : P.parsedValue u d f = .none := by
      by_contra hne
      have hsome := extractedData_of_accepted hread hs hf (hasAccepted_of_parsed hne) hr
      cases hsome.symm.trans hdata
    rw [storedValue,hdata,hparsed]
    rfl

theorem scoreField_null (required : Bool) : scoreField u f.name .null required = 0 := by
  rw [scoreField,if_pos rfl]

/-- A text of white space is no placeholder. -/
theorem scoreField_blank {text : String} (h : Text.strip text = "") (required : Bool) :
    60 ≤ scoreField u f.name (.str text) required := by
  have hlower : u.lower "" = "" := u.lower_ascii "" (fun c hc => by cases hc)
  have hplaceholder : isPlaceholder u (.str text) = false := by
    rw [isPlaceholder,h,hlower]
    decide
  rw [scoreField,if_neg Json.noConfusion,hplaceholder,if_neg Bool.false_ne_true]
  dsimp only
  cases required <;> split <;> decide

/-- The amounts of the schemas are told by their names. -/
theorem money_marked (hs : SchemaRegistry.getSchema docType = .ok s) (hf : f ∈ s.fields) {nullable : Bool}
    (hann : f.annotation = .leaf ⟨.decimal,nullable⟩) : moneyFieldMarkers.any (Text.contains · f.name) = true := by
  have hall : ∀ p ∈ SchemaRegistry.registry, ∀ f ∈ p.2.fields, ∀ nullable, f.annotation = .leaf ⟨.decimal,nullable⟩ →
      moneyFieldMarkers.any (Text.contains · f.name) = true := by decide
  exact hall _ (SchemaRegistry.getSchema_mem hs) f hf nullable hann

theorem scoreField_negative {text : String} {x : Decimal}
    (hmarked : moneyFieldMarkers.any (Text.contains · f.name) = true)
    (htext : Decimal.ofText u text = some (.finite x)) (hx : x.isNegative = true) (required : Bool) :
    scoreField u f.name (.str text) required ≤ 60 := by
  have hsuspicious : isSuspiciousAmount u f.name (.str text) = true := by
    rw [isSuspiciousAmount,hmarked,Bool.true_and,isNegative,htext]
    exact hx
  rw [scoreField,if_neg Json.noConfusion,hsuspicious]
  split
  · decide
  · exact Nat.min_le_right _ _

/-- A field that is blank in the data was blank in the object. -/
theorem blankText_of_blank (hplain : P.PlainTexts) (hletters : ∀ c, u.isAlpha c = true → Text.isSpace c = false)
    (hwrites : P.Writes u (P.parsedValue u d f)) (h : Blank (P.dump (P.parsedValue u d f))) : BlankText d f := by
  have hnone : P.parsedValue u d f ≠ .none := fun hnone => by
    rw [hnone] at h
    exact h.elim
  obtain ⟨v,hv,hfield⟩ := Pydantic.field_of_parsed hnone
  generalize P.parsedValue u d f = x at hwrites h hfield
  cases x with
  | str text =>
    obtain ⟨hann,hc,rfl⟩ := Pydantic.field_blank hplain hletters hfield h
    exact ⟨hann,hc,.str text,hv,h⟩
  | decimal x =>
    have hamount : Decimal.ofText u (P.decimalText x) = some (.finite x) := hwrites
    rw [Decimal.ofText_blank h] at hamount
    cases hamount
  | date x => exact absurd h hwrites
  | none => exact h.elim
  | int n => exact h.elim
  | list items => exact h.elim
  | model fields => exact h.elim

/-- A blank text of the object is stored as it is. -/
theorem parsedValue_blankText (hplain : P.PlainTexts) (h : BlankText d f) :
    ∃ text, P.parsedValue u d f = .str text ∧ Text.strip text = "" := by
  obtain ⟨⟨nullable,hann⟩,hc,v,hv,hblank⟩ := h
  obtain ⟨text,rfl,hstrip⟩ : ∃ text, v = .str text ∧ Text.strip text = "" := by
    cases v with
    | str text => exact ⟨text,rfl,hblank⟩
    | _ => exact hblank.elim
  have hfield : P.field u f (.str text) = .ok (.str text) := by
    rw [Pydantic.field_plain hc,hann]
    simp [ Pydantic.annotation, Pydantic.leaf, Pydantic.scalar,(hplain (.str text) text).mpr rfl,Except.map,
      Except.mapError]
  refine ⟨text,?_,hstrip⟩
  rw [Pydantic.parsedValue,Option.mem_def.mp hv]
  simp only [hfield]

/-- A negative amount is capped, in whatever way the library writes it. -/
theorem scoreField_amount (hs : SchemaRegistry.getSchema docType = .ok s) (hf : f ∈ s.fields)
    (hwrites : P.Writes u (P.parsedValue u d f)) {x : Decimal} (hx : P.parsedValue u d f = .decimal x)
    (hneg : x.isNegative = true) : scoreField u f.name (P.dump (P.parsedValue u d f)) f.required ≤ 60 := by
  obtain ⟨v,-,hfield⟩ := Pydantic.field_of_parsed (P := P) (u := u) (d := d) (f := f) (by simp [hx])
  rw [hx] at hfield hwrites
  obtain ⟨nullable,hann⟩ := Pydantic.field_decimal hfield
  rw [hx, Pydantic.dump]
  exact scoreField_negative (money_marked hs hf hann) hwrites hneg f.required

/-- **Scores.** The scores of a result are as they should be exactly when the object has no text
of white space for a plain text field. -/
theorem scores_rate_iff (hread : P.ReadsFallbacks) (hplain : P.PlainTexts)
    (hletters : ∀ c, u.isAlpha c = true → Text.isSpace c = false) (hs : SchemaRegistry.getSchema docType = .ok s)
    (hwrites : ∀ f ∈ s.fields, P.Writes u (P.parsedValue u d f))
    (hr : validateExtraction P u docType (.obj d) = .ok r) :
    (∃ scores, scoreConfidenceMap u docType r.extractedData = .ok scores ∧ Rates P u s d r scores) ↔
      ∀ f ∈ s.fields, ¬ BlankText d f := by
  rw [scoreConfidenceMap_eq hs]
  constructor
  · rintro ⟨_,hscores,hrates⟩ f hf hblank
    cases hscores
    obtain ⟨text,hparsed,hstrip⟩ := parsedValue_blankText (P := P) (u := u) hplain hblank
    have hstored : storedValue r f = .str text := by
      rw [storedValue_eq hread hs hf hr,hparsed]
      rfl
    obtain ⟨score,hscore,hle⟩ := hrates.noValue f hf (by rw [hstored]; exact .inr hstrip)
    rw [scores_lookup hs hf,hstored] at hscore
    cases hscore
    have hge := scoreField_blank (u := u) (f := f) hstrip f.required
    omega
  · intro hnot
    refine ⟨_,rfl,⟨?_,SchemaRegistry.names_nodup hs⟩,fun f hf hno => ?_,fun f hf x hx hneg => ?_⟩
    · rw [List.map_map]
      rfl
    · refine ⟨_,scores_lookup hs hf r,?_⟩
      rw [storedValue_eq hread hs hf hr] at hno ⊢
      obtain hnull | hblank := hno
      · rw [hnull,scoreField_null]
        decide
      · exact absurd (blankText_of_blank hplain hletters (hwrites f hf) hblank) (hnot f hf)
    · refine ⟨_,scores_lookup hs hf r,?_⟩
      rw [storedValue_eq hread hs hf hr]
      exact scoreField_amount hs hf (hwrites f hf) hx hneg

section Sample

def vendorName : FieldInfo := ⟨"vendor_name",.leaf .text,true,false⟩

/-- An invoice whose vendor is a blank. -/
def blankInvoice : Dict :=
  [("vendor_name",.str " "),("invoice_number",.str "1"),("invoice_date",.str "2024-01-31"),("subtotal",.str "10.00"),
    ("total_amount",.str "10.00"),("currency",.str "USD"),("line_items",.arr [])]

/-- The blank vendor scores 85, as a vendor would. -/
theorem blank_vendor_scored : ∃ r, validateExtraction .basic .ascii "invoice" (.obj blankInvoice) = .ok r ∧
    r.status = .completed ∧ ¬ ∃ scores, scoreConfidenceMap .ascii "invoice" r.extractedData = .ok scores ∧
      Rates .basic .ascii Documents.invoiceSchema blankInvoice r scores := by
  obtain ⟨r,hr,hstatus⟩ : ∃ r, validateExtraction .basic .ascii "invoice" (.obj blankInvoice) = .ok r ∧
      r.status = .completed := ⟨_,rfl,rfl⟩
  refine ⟨r,hr,hstatus,?_⟩
  rintro ⟨scores,hscores,hrates⟩
  have hs : SchemaRegistry.getSchema "invoice" = .ok Documents.invoiceSchema := rfl
  have hf : vendorName ∈ Documents.invoiceSchema.fields := by decide
  have hstored : storedValue r vendorName = .str " " := storedValue_eq Pydantic.basic_readsFallbacks hs hf hr
  have hstrip : Text.strip " " = "" := by decide
  obtain ⟨score,hscore,hle⟩ := hrates.noValue vendorName hf (by rw [hstored]; exact .inr hstrip)
  obtain rfl := Except.ok.inj ((scoreConfidenceMap_eq hs r).symm.trans hscores)
  rw [scores_lookup hs hf,hstored] at hscore
  obtain rfl := Option.some.inj hscore
  have hge := @scoreField_blank .ascii vendorName " " hstrip vendorName.required
  omega

/-- A contract over a negative amount. -/
def refundContract : Dict := [("payment_amount",.str "-5.00"),("governing_law",.str "England")]

theorem refund_rated : ∃ r, validateExtraction .basic .ascii "contract" (.obj refundContract) = .ok r ∧
    ∃ scores, scoreConfidenceMap .ascii "contract" r.extractedData = .ok scores ∧
      Rates .basic .ascii Documents.contractSchema refundContract r scores := by
  have hplain : Pydantic.basic.PlainTexts := fun v text => by
    cases v <;> simp [Pydantic.basic]
  have hletters : ∀ c, Unicode.ascii.isAlpha c = true → Text.isSpace c = false := fun c hc => by
    have hletter : c.isAlpha = true := hc
    simp only [Char.isAlpha,Char.isUpper,Char.isLower,Bool.or_eq_true,Bool.and_eq_true,decide_eq_true_eq,
      UInt32.le_iff_toNat_le,Char.toNat_val] at hletter
    have hz : 'z'.toNat = 122 := rfl
    have hZ : 'Z'.toNat = 90 := rfl
    have hA : 'A'.toNat = 65 := rfl
    have ha : 'a'.toNat = 97 := rfl
    simp only [Text.isSpace,Bool.or_eq_false_iff,Bool.and_eq_false_iff,decide_eq_false_iff_not]
    omega
  exact ⟨_,rfl,(scores_rate_iff Pydantic.basic_readsFallbacks hplain hletters rfl (by decide) rfl).mpr (by decide)⟩

end Sample

end Confidence

end StructuredExtractor
