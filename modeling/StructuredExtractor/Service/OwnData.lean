import StructuredExtractor.Schema.FixedPoint
import StructuredExtractor.Service.Corrections

/-! # An extraction's own data as its correction

Validated data is equal to itself, so what is corrected to what it was differs in nothing.
-/
namespace StructuredExtractor

namespace Pydantic
variable {P : Pydantic} {u : Unicode}

theorem plainFields {vs : Record} (h : ∀ p ∈ vs, (P.dump p.2).Plain) : Json.PlainFields (P.dumpFields vs) := by
  induction vs with
  | nil => trivial
  | cons p vs ih => exact ⟨h p List.mem_cons_self,ih fun q hq => h q (List.mem_cons_of_mem p hq)⟩

theorem plainItems {xs : List Value} (h : ∀ x ∈ xs, (P.dump x).Plain) : Json.PlainItems (P.dumpItems xs) := by
  induction xs with
  | nil => trivial
  | cons x xs ih => exact ⟨h x List.mem_cons_self,ih fun y hy => h y (List.mem_cons_of_mem x hy)⟩

theorem leaf_plain {l : Leaf} {v : Json} {x : Value} (h : P.leaf l v = .ok x) : (P.dump x).Plain := by
  unfold leaf at h
  split at h
  · obtain rfl := Except.ok.inj h
    trivial
  · cases hs : l.scalar <;> rw [hs] at h <;> obtain ⟨a,-,rfl⟩ := map_eq_ok (mapError_ok h) <;> trivial

theorem subField_plain {raw : Dict} {f : SubField} {p : String × Value} (h : P.subField raw f = .ok p) :
    (P.dump p.2).Plain := by
  unfold subField at h
  split at h
  · obtain ⟨x,hx,rfl⟩ := map_eq_ok (mapError_ok h)
    exact leaf_plain hx
  · split at h <;> cases h
    trivial

theorem item_plain {i : Item} (hi : i.Regular) {v : Json} {x : Value} (h : P.item i v = .ok x) :
    (P.dump x).Plain := by
  unfold item at h
  split at h
  · exact leaf_plain h
  · next _ fields raw =>
    obtain ⟨vs,hvs,rfl⟩ := map_eq_ok h
    have hread : fields.map (P.subField raw) = vs.map Except.ok := collect.eq_ok_iff.mp hvs
    refine ⟨?_,plainFields fun p hp => ?_⟩
    · rw [P.dumpFields_keys,model_names hvs]
      exact hi.1
    · obtain ⟨f,-,hf⟩ := List.mem_map.mp (hread ▸ List.mem_map.mpr ⟨p,hp,rfl⟩)
      exact subField_plain hf
  · cases h

theorem annotation_plain {a : Annotation} (ha : a.Regular) {v : Json} {x : Value}
    (h : P.annotation a v = .ok x) : (P.dump x).Plain := by
  cases a with
  | leaf l =>
    unfold annotation at h
    exact leaf_plain h
  | list i =>
    obtain ⟨xs,rfl,hitems⟩ := annotation_list h
    refine plainItems fun y hy => ?_
    obtain ⟨w,hw⟩ := hitems y hy
    exact item_plain ha hw

theorem field_dump_plain {f : FieldInfo} (hf : f.Regular) {v : Json} {x : Value} (h : P.field u f v = .ok x) :
    (P.dump x).Plain := by
  unfold field at h
  cases ha : P.annotation f.annotation v with
  | error es => simp [ha] at h
  | ok y =>
    simp only [ha] at h
    have hplain := annotation_plain hf.annotation ha
    split at h
    · unfold validateCurrencyCode at h
      split at h
      · obtain ⟨t,-,rfl⟩ := map_eq_ok (mapError_ok h)
        trivial
      · exact Except.ok.inj h ▸ hplain
    · exact Except.ok.inj h ▸ hplain

theorem parsedValue_plain {f : FieldInfo} (hf : f.Regular) (d : Dict) : (P.dump (P.parsedValue u d f)).Plain := by
  obtain hnone | ⟨v,hv⟩ := parsedValue_cases P u d f
  · rw [hnone]
    trivial
  · exact field_dump_plain hf hv

end Pydantic

namespace CorrectionDiff
variable {data : Dict}

theorem field_self (hplain : ∀ p ∈ data, p.2.Plain) {name : String} (hname : name ∈ data.map Prod.fst)
    (diff : CorrectionDiff) : field data data name diff = diff := by
  obtain ⟨v,hv⟩ := Keyed.exists_lookup hname
  have hself : v.pyEq v = true := Json.pyEq_self v (hplain (name,v) (Keyed.mem_of_lookup hv))
  simp only [field,hv,hself,if_true]

theorem self (hplain : ∀ p ∈ data, p.2.Plain) : diffExtractionData data data = .empty := by
  have hnames : ∀ name ∈ unionKeys data data, name ∈ data.map Prod.fst := fun name hname => by
    simpa [unionKeys] using hname
  unfold diffExtractionData
  generalize unionKeys data data = names at hnames
  induction names with
  | nil => rfl
  | cons name names ih =>
    rw [List.foldr_cons,ih fun n hn => hnames n (List.mem_cons_of_mem name hn)]
    exact field_self hplain (hnames name List.mem_cons_self) _

end CorrectionDiff

namespace Validation
variable {P : Pydantic} {u : Unicode} {s : Schema} {docType : String} {d data : Dict} {r : ValidationResult}

theorem validatedData_keys (P : Pydantic) (u : Unicode) (s : Schema) (d : Dict) :
    (validatedData P u s d).map Prod.fst = s.fields.map FieldInfo.name := by
  rw [validatedData,P.dumpFields_keys,Schema.parsedRecord,List.map_map]
  rfl

theorem validatedData_plain (hs : SchemaRegistry.getSchema docType = .ok s) (d : Dict) :
    ∀ p ∈ validatedData P u s d, p.2.Plain := by
  intro p hp
  have hn : ((validatedData P u s d).map Prod.fst).Nodup := validatedData_keys P u s d ▸ SchemaRegistry.names_nodup hs
  have hname : p.1 ∈ s.fields.map FieldInfo.name :=
    validatedData_keys P u s d ▸ List.mem_map.mpr ⟨p,hp,rfl⟩
  obtain ⟨f,hf,hfp⟩ := List.mem_map.mp hname
  have hlook := (Keyed.mem_iff_lookup hn p).mp hp
  rw [← hfp,validatedData_lookup hs hf] at hlook
  rw [← Option.some.inj hlook]
  exact Pydantic.parsedValue_plain (SchemaRegistry.regular hs f hf) d

/-- **Validated data is a fixed point.** What validation returned is validated to equal
data, and a complete result stays as it is. As a correction of its own extraction it is
accepted and stored as it is, with nothing added, removed or changed. -/
theorem validated_fixed (hread : P.ReadsFallbacks) (hP : P.ReadsDumps) (hu : u.UpperStable)
    (hs : SchemaRegistry.getSchema docType = .ok s) (hr : validateExtraction P u docType (.obj d) = .ok r)
    (hdata : r.extractedData = some data) :
    (∃ r', validateExtraction P u docType (.obj data) = .ok r' ∧ r'.extractedData = some data) ∧
    (r.status = .completed → validateExtraction P u docType (.obj data) = .ok r) ∧
    ∀ (extraction : Extraction) (request : CorrectionRequest) (id : Uuid) (createdAt : Time)
      (table : List ExtractionCorrection), extraction.docType = docType → extraction.extractedData = some data →
      request.correctedData = data → ∃ correction,
        CorrectionService.create P u extraction request id createdAt table = .ok (correction,table ++ [correction]) ∧
        correction.correctedData = data ∧ correction.correctionDiff = .empty := by
  obtain ⟨r',hr',hdata'⟩ := returnsData_again hread hP hu hs hr hdata
  refine ⟨⟨r',hr',hdata'⟩,completed_again hP hu hs hr hdata,?_⟩
  rintro extraction request id createdAt table rfl hextracted rfl
  obtain ⟨correction,hcreate,hcorrected,hdiff⟩ :=
    CorrectionService.create_accepted hr' hdata' id createdAt table
  refine ⟨correction,hcreate,hcorrected,?_⟩
  obtain ⟨-,-,hvalidated⟩ := (returnsData_iff hread hs).mp ⟨r,hr,hdata⟩
  rw [hdiff,hextracted]
  exact CorrectionDiff.self (hvalidated ▸ validatedData_plain hs d)

/-- A contract with amounts and a currency in small letters, without the optional fields. -/
def ownContract : Dict :=
  [("parties",.arr [.obj [("name",.str "ACME")]]),("effective_date",.str "2024-01-31"),
    ("payment_amount",.str "1250.50"),("payment_currency",.str "usd"),("key_obligations",.arr [.str "deliver"])]

theorem ownContract_fixed : ∃ r data, validateExtraction .basicBack .ascii "contract" (.obj ownContract) = .ok r ∧
    r.status = .completed ∧ r.extractedData = some data ∧
    validateExtraction .basicBack .ascii "contract" (.obj data) = .ok r := by
  have hread : Pydantic.basicBack.ReadsFallbacks := ⟨rfl,rfl,by decide,by decide⟩
  have hfixed := fun data => @validated_fixed .basicBack .ascii Documents.contractSchema "contract" ownContract
    data _ hread Pydantic.basicBack_readsDumps Unicode.ascii_upperStable rfl rfl
  exact ⟨_,_,rfl,rfl,rfl,(hfixed _ rfl).2.1 rfl⟩

end Validation

end StructuredExtractor
