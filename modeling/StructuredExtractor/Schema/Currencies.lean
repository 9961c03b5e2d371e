import StructuredExtractor.Schema.FixedPoint

/-! # Stored currencies

A currency is stored as the upper case of the text that was read, when that has three
letters. Those of the Latin alphabet are the letters A to Z; other scripts have letters
that pass the same test.
-/
namespace StructuredExtractor

/-- Null, or three letters from A to Z. -/
def WellFormedCurrency (v : Json) : Prop :=
  v = .null ∨ ∃ code, v = .str code ∧ code.toList.length = 3 ∧ ∀ c ∈ code.toList, c.isUpper = true

/-- Tables that know the German letters beside the ASCII ones. -/
def Unicode.german : Unicode where
  upper c := if c = 'ä' then ['Ä'] else if c = 'ö' then ['Ö'] else if c = 'ü' then ['Ü']
    else if c = 'ß' then ['S','S'] else [c.toUpper]
  lower := Unicode.ascii.lower
  isAlpha c := c.isAlpha || c ∈ ['ä','ö','ü','ß','Ä','Ö','Ü']
  digit := Unicode.ascii.digit
  upper_ascii c hc := by
    have hne : ∀ x : Char, 128 ≤ x.toNat → c ≠ x := fun x hx he => absurd hx (not_le.mpr (he ▸ hc))
    rw [if_neg (hne 'ä' (by decide)),if_neg (hne 'ö' (by decide)),if_neg (hne 'ü' (by decide)),
      if_neg (hne 'ß' (by decide))]
  lower_ascii := Unicode.ascii.lower_ascii
  isAlpha_ascii c hc := by
    have hne : ∀ x : Char, 128 ≤ x.toNat → c ≠ x := fun x hx he => absurd hx (not_le.mpr (he ▸ hc))
    have hlarge : ['ä','ö','ü','ß','Ä','Ö','Ü'].all (fun x => 128 ≤ x.toNat) = true := by decide
    have hnot : c ∉ ['ä','ö','ü','ß','Ä','Ö','Ü'] := fun hmem =>
      hne c (of_decide_eq_true (List.all_eq_true.mp hlarge c hmem)) rfl
    rw [decide_eq_false hnot,Bool.or_false]
  digit_ascii := Unicode.ascii.digit_ascii

namespace Pydantic
variable {P : Pydantic} {u : Unicode}

/-- The text that is read of a field, before any validator. -/
def readText (P : Pydantic) (d : Dict) (f : FieldInfo) : Option String :=
  match d.lookup f.name with
  | some v => match P.annotation f.annotation v with
    | .ok (.str text) => some text
    | _ => none
  | none => none

theorem currencyCode_eq_ok {text code : String} : currencyCode u text = .ok code ↔
    (u.upperText text).toList.length = 3 ∧ u.isAlphaText (u.upperText text) = true ∧ u.upperText text = code := by
  unfold currencyCode
  dsimp only
  by_cases hlength : (u.upperText text).toList.length = 3
  · cases halpha : u.isAlphaText (u.upperText text) <;> simp [hlength]
  · simp [hlength]

/-- A currency field has the code of the text that is read, or `None`. -/
theorem parsedValue_currency {f : FieldInfo} (hf : f.Regular) (hc : f.currency = true) (d : Dict) :
    P.parsedValue u d f = match P.readText d f with
      | some text => match currencyCode u text with
        | .ok code => .str code
        | .error _ => .none
      | none => .none := by
  unfold parsedValue readText
  cases d.lookup f.name with
  | none => rfl
  | some v =>
    dsimp only
    rw [field,hf.currency hc,hc, annotation,leaf]
    by_cases hnull : f.nullable = true ∧ v = .null
    · rw [if_pos hnull]
      rfl
    · rw [if_neg hnull,scalar]
      cases P.str v with
      | error m => rfl
      | ok text =>
        cases hcode : currencyCode u text <;> simp [Except.map,Except.mapError,validateCurrencyCode,hcode]

end Pydantic

/-- Upper case that passes for a currency code has the letters A to Z. -/
def LatinCode (u : Unicode) (text : String) : Prop :=
  (u.upperText text).toList.length = 3 → u.isAlphaText (u.upperText text) = true →
    ∀ c ∈ (u.upperText text).toList, c.isUpper = true

theorem ascii_of_isAlpha {c : Char} (h : c.isAlpha = true) : c.toNat < 128 := by
  simp only [Char.isAlpha,Char.isUpper,Char.isLower,Bool.or_eq_true,Bool.and_eq_true,decide_eq_true_eq,
    UInt32.le_iff_toNat_le,Char.toNat_val] at h
  have hz : 'z'.toNat = 122 := rfl
  have hZ : 'Z'.toNat = 90 := rfl
  omega

namespace Validation
variable {P : Pydantic} {u : Unicode} {s : Schema} {docType : String}

/-- An accepted value of a field is in the data of the result, under the field as read. -/
theorem extractedData_of_accepted (hread : P.ReadsFallbacks) (hs : SchemaRegistry.getSchema docType = .ok s)
    {f : FieldInfo} (hf : f ∈ s.fields) {d : Dict} (haccepted : hasAccepted P u d f = true) {r : ValidationResult}
    (hr : validateExtraction P u docType (.obj d) = .ok r) : r.extractedData = some (validatedData P u s d) := by
  cases hm : s.modelValidate P u (.obj d) with
  | ok x =>
    obtain ⟨-,rfl,-⟩ := Schema.modelValidate_ok_iff.mp hm
    exact extractedData_of_valid hs hm hr
  | error es =>
    rw [extractedData_of_invalid hs hm hr,if_pos (List.any_eq_true.mpr ⟨f,hf,haccepted⟩),recoveredRecord_eq hread hs]
    rfl

theorem extractedData_lookup (hread : P.ReadsFallbacks) (hs : SchemaRegistry.getSchema docType = .ok s)
    {f : FieldInfo} (hf : f ∈ s.fields) {d data : Dict} {r : ValidationResult}
    (hr : validateExtraction P u docType (.obj d) = .ok r) (hdata : r.extractedData = some data) :
    data.lookup f.name = some (P.dump (P.parsedValue u d f)) := by
  obtain ⟨-,-,rfl⟩ := (returnsData_iff hread hs).mp ⟨r,hr,hdata⟩
  exact validatedData_lookup hs hf d

/-- A text that passes for a currency code is accepted. -/
theorem hasAccepted_currency {f : FieldInfo} (hf : f.Regular) (hc : f.currency = true) {d : Dict} {text code : String}
    (htext : P.readText d f = some text) (hcode : Pydantic.currencyCode u text = .ok code) :
    hasAccepted P u d f = true := by
  have hparsed := Pydantic.parsedValue_currency (P := P) (u := u) hf hc d
  rw [htext] at hparsed
  dsimp only at hparsed
  rw [hcode] at hparsed
  unfold hasAccepted
  unfold Pydantic.parsedValue at hparsed
  cases hv : d.lookup f.name with
  | none =>
    rw [hv] at hparsed
    cases hparsed
  | some v =>
    rw [hv] at hparsed
    dsimp only at hparsed ⊢
    cases hx : P.field u f v with
    | ok x => exact Pydantic.accepts_iff.mpr ⟨x,hx⟩
    | error es =>
      rw [hx] at hparsed
      cases hparsed

/-- Three ASCII letters pass for a currency code, in upper case. -/
theorem currencyCode_ascii {text : String} (hlength : text.toList.length = 3)
    (hletters : ∀ c ∈ text.toList, c.isAlpha = true) :
    Pydantic.currencyCode u text = .ok (String.ofList (text.toList.map Char.toUpper)) := by
  have hupper : u.upperText text = String.ofList (text.toList.map Char.toUpper) := by
    rw [Unicode.upperText,List.map_eq_flatMap]
    exact congrArg String.ofList (List.flatMap_congr fun c hc => u.upper_ascii c (ascii_of_isAlpha (hletters c hc)))
  rw [Pydantic.currencyCode_eq_ok,hupper]
  refine ⟨by simpa using hlength,?_,rfl⟩
  have hne : text.toList.map Char.toUpper ≠ [] := by
    intro hnil
    rw [List.map_eq_nil_iff.mp hnil] at hlength
    cases hlength
  simp only [Unicode.isAlphaText,String.toList_ofList,hne,ne_eq,not_false_eq_true,decide_true,Bool.true_and,
    List.all_eq_true,List.mem_map]
  rintro _ ⟨c,hc,rfl⟩
  have halpha : c.toUpper.isAlpha = true := (Char.isAlpha_toUpper_eq_isAlpha c).trans (hletters c hc)
  rw [u.isAlpha_ascii _ (ascii_of_isAlpha halpha)]
  exact halpha

/-- A code that was read is stored, in upper case. -/
theorem stores_code (hread : P.ReadsFallbacks) (hs : SchemaRegistry.getSchema docType = .ok s) {f : FieldInfo}
    (hf : f ∈ s.fields) (hc : f.currency = true) {d : Dict} {text code : String} (htext : P.readText d f = some text)
    (hcode : Pydantic.currencyCode u text = .ok code) {r : ValidationResult}
    (hr : validateExtraction P u docType (.obj d) = .ok r) :
    ∃ data, r.extractedData = some data ∧ data.lookup f.name = some (.str code) := by
  have hregular := SchemaRegistry.regular hs f hf
  have hdata := extractedData_of_accepted hread hs hf (hasAccepted_currency hregular hc htext hcode) hr
  refine ⟨_,hdata,?_⟩
  rw [extractedData_lookup hread hs hf hr hdata,Pydantic.parsedValue_currency hregular hc d,htext]
  dsimp only
  rw [hcode]
  rfl

/-- **Stored currencies.** The currency in the data of a result is null or three letters A to Z
exactly when the text that was read of it does not pass for a code by other letters; three
ASCII letters are stored in upper case. -/
theorem stored_currency_iff (hread : P.ReadsFallbacks) (htexts : ∀ text, P.str (.str text) = .ok text)
    (hs : SchemaRegistry.getSchema docType = .ok s) {f : FieldInfo} (hf : f ∈ s.fields) (hc : f.currency = true)
    {d : Dict} {r : ValidationResult} (hr : validateExtraction P u docType (.obj d) = .ok r) :
    ((∀ data, r.extractedData = some data → ∃ v, data.lookup f.name = some v ∧ WellFormedCurrency v) ↔
      ∀ text, P.readText d f = some text → LatinCode u text) ∧
    ∀ text : String, d.lookup f.name = some (.str text) → text.toList.length = 3 →
      (∀ c ∈ text.toList, c.isAlpha = true) → ∃ data, r.extractedData = some data ∧
        data.lookup f.name = some (.str (String.ofList (text.toList.map Char.toUpper))) := by
  have hregular := SchemaRegistry.regular hs f hf
  constructor
  · constructor
    · intro hwell text htext hlength halpha
      have hcode : Pydantic.currencyCode u text = .ok (u.upperText text) :=
        Pydantic.currencyCode_eq_ok.mpr ⟨hlength,halpha,rfl⟩
      obtain ⟨data,hdata,hstored⟩ := stores_code hread hs hf hc htext hcode hr
      obtain ⟨v,hv,hcurrency⟩ := hwell data hdata
      cases hstored.symm.trans hv
      obtain hnull | ⟨code,heq,-,hupper⟩ := hcurrency
      · cases hnull
      · cases heq
        exact hupper
    · intro hlatin data hdata
      refine ⟨_,extractedData_lookup hread hs hf hr hdata,?_⟩
      rw [Pydantic.parsedValue_currency hregular hc d]
      cases htext : P.readText d f with
      | none => exact .inl rfl
      | some text =>
        cases hcode : Pydantic.currencyCode u text with
        | error m => exact .inl (by simp [hcode,Pydantic.dump])
        | ok code =>
          obtain ⟨hlength,halpha,rfl⟩ := Pydantic.currencyCode_eq_ok.mp hcode
          refine .inr ⟨u.upperText text,?_,hlength,hlatin text htext hlength halpha⟩
          simp [hcode,Pydantic.dump]
  · intro text hraw hlength hletters
    have htext : P.readText d f = some text := by
      rw [Pydantic.readText,hraw,hregular.currency hc]
      simp [ Pydantic.annotation,Pydantic.leaf,Pydantic.scalar,htexts,Except.map,Except.mapError]
    exact stores_code hread hs hf hc htext (currencyCode_ascii hlength hletters) hr

/-- What validation of a contract stores as its currency, and with which status. -/
def storedCurrency (u : Unicode) (d : Dict) : Except Exc (ExtractionStatus × Option Json) :=
  (validateExtraction .basic u "contract" (.obj d)).map fun r =>
    (r.status,r.extractedData.bind (List.lookup "payment_currency"))

def umlautContract : Dict :=
  [("parties",.arr []),("effective_date",.str "2024-01-31"),("payment_currency",.str "äöü"),
    ("key_obligations",.arr [])]

/-- Three umlauts are stored as a currency, by full validation and by recovery. -/
theorem umlauts_stored : storedCurrency .german umlautContract = .ok (.completed,some (.str "ÄÖÜ")) ∧
    storedCurrency .german [("payment_currency",.str "äöü")] = .ok (.partial_,some (.str "ÄÖÜ")) ∧
    ¬WellFormedCurrency (.str "ÄÖÜ") := by
  refine ⟨by decide,by decide,?_⟩
  rintro (hnull | ⟨code,hcode,-,hupper⟩)
  · cases hnull
  · obtain rfl := Json.str.inj hcode
    exact absurd (hupper 'Ä' (by decide)) (by decide)

/-- A contract that has nothing but the currency usd. -/
theorem usd_stored : ∃ r data, validateExtraction .basic .ascii "contract" (.obj strayContract) = .ok r ∧
    r.extractedData = some data ∧ data.lookup "payment_currency" = some (.str "USD") := by
  have hs : SchemaRegistry.getSchema "contract" = .ok Documents.contractSchema := rfl
  have hf : paymentCurrency ∈ Documents.contractSchema.fields := by decide
  have halpha : "usd".toList.all Char.isAlpha = true := by decide
  obtain ⟨data,hdata,hlook⟩ := (stored_currency_iff (u := .ascii) (d := strayContract) Pydantic.basic_readsFallbacks
    (fun _ => rfl) hs hf rfl rfl).2 "usd" rfl rfl (List.all_eq_true.mp halpha)
  exact ⟨_,data,rfl,hdata,hlook⟩

end Validation

end StructuredExtractor
