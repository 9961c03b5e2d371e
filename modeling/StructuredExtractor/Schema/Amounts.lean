import StructuredExtractor.Data.Context
import StructuredExtractor.Schema.FieldByField

/-! # When validation returns

Every object is validated or recovered without an exception, up to the arithmetic of
the quality checks. Those return exactly when the amounts that the library read fit
the decimal context.
-/
namespace StructuredExtractor

namespace Validation
open Decimal
variable {P : Pydantic} {u : Unicode} {s : Schema} {docType : String}

/-- The amounts of a list of deductions. -/
def deductionAmounts (deductions : List Value) : List Decimal :=
  deductions.filterMap fun v => match v with
    | .model fields => Record.decimal? fields "amount"
    | _ => none

/-- The total of some amounts, each sum rounded into the context. -/
def runningTotal (amounts : List Decimal) : ℚ :=
  amounts.foldl (fun total a => inContext (total + a.value)) 0

/-- No total on the way is out of the range of the context. -/
def TotalInRange (amounts : List Decimal) : Prop :=
  ∀ before, before <+: amounts → |runningTotal before| < ceiling

/-- The amounts that the quality checks of a schema compute with, if they are all there,
fit the context. -/
def AmountsFit (s : Schema) (r : Record) : Prop :=
  match s.cls with
  | .invoice | .receipt => ∀ subtotal tax total, r.decimal? "subtotal" = some subtotal →
      r.decimal? "tax_amount" = some tax → r.decimal? "total_amount" = some total →
      FitsCents (subtotal.value + tax.value) ∧ FitsCents total.value
  | .payslip => ∀ gross net deductions, r.decimal? "gross_pay" = some gross →
      r.decimal? "net_pay" = some net → r.list? "deductions" = some deductions →
      TotalInRange (deductionAmounts deductions) ∧
        FitsCents (gross.value - runningTotal (deductionAmounts deductions)) ∧ FitsCents net.value
  | .contract => True

theorem runningTotal_concat (amounts : List Decimal) (a : Decimal) :
    runningTotal (amounts ++ [a]) = inContext (runningTotal amounts + a.value) := by
  simp [runningTotal]

theorem normalizeMoney_isOk_iff (d : Decimal) : (∃ r, normalizeMoney d = .ok r) ↔ FitsCents d.value :=
  isOk_mapError.trans (quantize_isOk_iff d)

/-- A sum is brought to the cent exactly when the exact sum fits there. -/
theorem sum_isOk_iff (a b : Decimal) :
    (∃ r, addMoney a b >>= normalizeMoney = .ok r) ↔ FitsCents (a.value + b.value) := by
  rw [bind_isOk_iff]
  constructor
  · rintro ⟨c,hc,h⟩
    rw [normalizeMoney_isOk_iff,add_ok (mapError_ok hc),fitsCents_inContext] at h
    exact h
  · intro h
    obtain ⟨c,hc⟩ := isOk_mapError.mpr ((add_isOk_iff a b).mpr h.inRange)
    refine ⟨c,hc,(normalizeMoney_isOk_iff c).mpr ?_⟩
    rw [add_ok (mapError_ok hc),fitsCents_inContext]
    exact h

theorem difference_isOk_iff (a b : Decimal) :
    (∃ r, subMoney a b >>= normalizeMoney = .ok r) ↔ FitsCents (a.value - b.value) := by
  have h := sum_isOk_iff a b.neg
  rw [value_neg,← sub_eq_add_neg] at h
  exact h

/-- The total of a list of deductions is there exactly when it stays in range. -/
theorem total_spec {deductions : List Value}
    (hd : ∀ v ∈ deductions, ∃ fields a, v = .model fields ∧ Record.decimal? fields "amount" = some a) :
    ((∃ t, deductions.foldlM (fun total d => do addMoney total (← deductionAmount d)) ⟨false,0,0⟩ = .ok t) ↔
      TotalInRange (deductionAmounts deductions)) ∧
    ∀ t, deductions.foldlM (fun total d => do addMoney total (← deductionAmount d)) ⟨false,0,0⟩ = .ok t →
      t.value = runningTotal (deductionAmounts deductions) := by
  induction deductions using List.reverseRecOn with
  | nil =>
    refine ⟨iff_of_true ⟨_,rfl⟩ ?_,?_⟩
    · intro before h
      rw [List.prefix_nil.mp h]
      simp only [runningTotal,List.foldl_nil,abs_zero]
      exact Rounding.ten_zpow_pos _
    · rintro t ⟨⟩
      exact value_of_zero rfl
  | append_singleton ds v ih =>
    obtain ⟨hiff,hvalue⟩ := ih fun w hw => hd w (List.mem_append_left _ hw)
    obtain ⟨fields,a,rfl,ha⟩ := hd v (List.mem_append_right _ (List.mem_singleton_self v))
    have hamount : deductionAmount (.model fields) = .ok a := by simp [deductionAmount,ha]
    have hamounts : deductionAmounts (ds ++ [.model fields]) = deductionAmounts ds ++ [a] := by
      simp [deductionAmounts,ha]
    have hrange : TotalInRange (deductionAmounts ds ++ [a]) ↔ TotalInRange (deductionAmounts ds) ∧
        |inContext (runningTotal (deductionAmounts ds) + a.value)| < ceiling := by
      unfold TotalInRange
      simp only [List.prefix_concat_iff,or_imp,forall_and,forall_eq,runningTotal_concat]
      exact and_comm
    have hstep : ∀ t, (do addMoney t (← deductionAmount (.model fields))) = addMoney t a := fun t => by
      rw [hamount]
      rfl
    rw [List.foldlM_append,hamounts,hrange,runningTotal_concat,bind_isOk_iff]
    simp only [List.foldlM_cons,List.foldlM_nil,bind_pure,hstep]
    constructor
    · constructor
      · rintro ⟨t,ht,hsum⟩
        rw [← hvalue t ht]
        exact ⟨hiff.mp ⟨t,ht⟩,(add_isOk_iff t a).mp (isOk_mapError.mp hsum)⟩
      · rintro ⟨hbefore,hsum⟩
        obtain ⟨t,ht⟩ := hiff.mpr hbefore
        rw [← hvalue t ht] at hsum
        exact ⟨t,ht,isOk_mapError.mpr ((add_isOk_iff t a).mpr hsum)⟩
    · intro t ht
      obtain ⟨t',hbefore,hsum⟩ := bind_eq_ok ht
      rw [← hvalue t' hbefore]
      exact add_ok (mapError_ok hsum)

/-- The comparison of an amount with an expected one returns when both are brought to the cent. -/
theorem comparison_isOk_iff {expected : Except Exc Decimal} {total : Decimal} {same other : List String} :
    (∃ ws, (do
      let e ← expected
      if (← normalizeMoney total).numEq e then return same else return other : Except Exc (List String)) =
        .ok ws) ↔ (∃ e, expected = .ok e) ∧ FitsCents total.value := by
  rw [bind_isOk_iff,← normalizeMoney_isOk_iff]
  constructor
  · rintro ⟨e,he,h⟩
    obtain ⟨c,hc,-⟩ := bind_isOk_iff.mp h
    exact ⟨⟨e,he⟩,c,hc⟩
  · rintro ⟨⟨e,he⟩,c,hc⟩
    refine ⟨e,he,bind_isOk_iff.mpr ⟨c,hc,?_⟩⟩
    split
    · exact ⟨_,rfl⟩
    · exact ⟨_,rfl⟩

theorem totalWarnings_isOk_iff (r : Record) (message : String) :
    (∃ ws, totalWarnings r message = .ok ws) ↔
      ∀ subtotal tax total, r.decimal? "subtotal" = some subtotal → r.decimal? "tax_amount" = some tax →
        r.decimal? "total_amount" = some total →
        FitsCents (subtotal.value + tax.value) ∧ FitsCents total.value := by
  unfold totalWarnings
  split
  · next subtotal tax total hsub htax htotal =>
    simp only [hsub,htax,htotal,Option.some.injEq]
    rw [← bind_assoc,comparison_isOk_iff,sum_isOk_iff]
    constructor
    · rintro h _ _ _ rfl rfl rfl
      exact h
    · intro h
      exact h subtotal tax total rfl rfl rfl
  · next hnot =>
    refine iff_of_true ⟨_,rfl⟩ fun subtotal tax total hsub htax htotal => ?_
    exact absurd htotal (hnot subtotal tax total hsub htax)

/-- A record whose deductions, if it has any, each have an amount. -/
def DeductionsRead (r : Record) : Prop := ∀ deductions, r.list? "deductions" = some deductions →
  ∀ v ∈ deductions, ∃ fields a, v = .model fields ∧ Record.decimal? fields "amount" = some a

theorem payslipWarnings_isOk_iff {r : Record} (hr : DeductionsRead r) :
    (∃ ws, payslipWarnings r = .ok ws) ↔
      ∀ gross net deductions, r.decimal? "gross_pay" = some gross → r.decimal? "net_pay" = some net →
        r.list? "deductions" = some deductions → TotalInRange (deductionAmounts deductions) ∧
          FitsCents (gross.value - runningTotal (deductionAmounts deductions)) ∧ FitsCents net.value := by
  unfold payslipWarnings
  split
  · next gross net deductions hgross hnet hdeductions =>
    obtain ⟨hiff,hvalue⟩ := total_spec (hr deductions hdeductions)
    simp only [hgross,hnet,hdeductions,Option.some.injEq]
    have hcheck : ∀ t, (∃ e, subMoney gross t >>= normalizeMoney = .ok e) ↔ FitsCents (gross.value - t.value) :=
      fun t => difference_isOk_iff gross t
    rw [bind_isOk_iff]
    simp only [← bind_assoc,comparison_isOk_iff]
    constructor
    · rintro ⟨t,ht,hsum,hnet'⟩ _ _ _ rfl rfl rfl
      rw [hcheck,hvalue t ht] at hsum
      exact ⟨hiff.mp ⟨t,ht⟩,hsum,hnet'⟩
    · intro h
      obtain ⟨hrange,hsum,hnet'⟩ := h gross net deductions rfl rfl rfl
      obtain ⟨t,ht⟩ := hiff.mpr hrange
      rw [← hvalue t ht,← hcheck] at hsum
      exact ⟨t,ht,hsum,hnet'⟩
  · next hnot =>
    refine iff_of_true ⟨_,rfl⟩ fun gross net deductions hgross hnet hdeductions => ?_
    exact absurd hdeductions (hnot gross net deductions hgross hnet)

theorem qualityWarnings_isOk_iff {r : Record} (hr : s.cls = .payslip → DeductionsRead r) :
    (∃ ws, qualityWarnings s r = .ok ws) ↔ AmountsFit s r := by
  unfold qualityWarnings AmountsFit
  cases hcls : s.cls with
  | invoice => exact totalWarnings_isOk_iff r _
  | contract => exact iff_of_true ⟨_,rfl⟩ trivial
  | payslip => exact payslipWarnings_isOk_iff (hr hcls)
  | receipt => exact totalWarnings_isOk_iff r _

/-- A required amount is read as a decimal. -/
theorem subField_money {raw : Dict} {name : String} {p : String × Value}
    (h : P.subField raw ⟨name,.money,true⟩ = .ok p) : ∃ a, p = (name,.decimal a) := by
  unfold Pydantic.subField at h
  split at h
  · next v _ =>
    obtain ⟨x,hx,rfl⟩ := map_eq_ok (mapError_ok h)
    have hscalar : P.scalar .decimal v = .ok x := by simpa [Pydantic.leaf,Leaf.money] using hx
    obtain ⟨a,-,rfl⟩ := map_eq_ok (mapError_ok hscalar)
    exact ⟨a,rfl⟩
  · cases h

/-- A deduction that parses has an amount. -/
theorem deduction_read {v : Json} {x : Value} (h : P.item Documents.deduction v = .ok x) :
    ∃ fields a, x = .model fields ∧ Record.decimal? fields "amount" = some a := by
  unfold Documents.deduction Pydantic.item at h
  cases v with
  | obj raw =>
    obtain ⟨fields,hfields,rfl⟩ := map_eq_ok h
    rcases collect.map_ok hfields with _ | ⟨hname,_ | ⟨hamount,hrest⟩⟩
    next p q rest =>
    obtain ⟨a,rfl⟩ := subField_money hamount
    have hp : p.1 = "name" := Pydantic.subField_name hname
    obtain ⟨n,y⟩ := p
    subst hp
    exact ⟨_,a,rfl,rfl⟩
  | _ => cases h

theorem deductions_read (hs : SchemaRegistry.getSchema docType = .ok s) (hcls : s.cls = .payslip) (d : Dict) :
    DeductionsRead (s.parsedRecord P u d) := by
  have hn := SchemaRegistry.names_nodup hs
  obtain rfl : s = Documents.payslipSchema := by
    rcases schema_cases hs with rfl | rfl | rfl | rfl
    · cases hcls
    · cases hcls
    · rfl
    · cases hcls
  intro deductions hlist v hv
  have hvalue := parsedRecord_value (P := P) (u := u) hn
    (g := ⟨"deductions",.list Documents.deduction,true,false⟩) (by decide) d
  unfold Record.list? at hlist
  dsimp only at hvalue
  rw [hvalue] at hlist
  generalize hx : P.parsedValue u d _ = x at hlist
  cases x with
  | list xs =>
    obtain rfl : xs = deductions := Option.some.inj hlist
    unfold Pydantic.parsedValue at hx
    split at hx
    · split at hx
      · next hfield =>
        subst hx
        rw [Pydantic.field_plain rfl] at hfield
        obtain ⟨ys,hys,hitems⟩ := Pydantic.annotation_list hfield
        obtain rfl := Value.list.inj hys
        obtain ⟨w,hw⟩ := hitems v hv
        exact deduction_read hw
      · cases hx
    · cases hx
  | _ => cases hlist

theorem lookup_map_congr {α : Type} {g g' : FieldInfo → α} {name : String} (fs : List FieldInfo)
    (h : ∀ f ∈ fs, f.name = name → g f = g' f) :
    (fs.map fun f => (f.name,g f)).lookup name = (fs.map fun f => (f.name,g' f)).lookup name := by
  induction fs with
  | nil => rfl
  | cons f fs ih =>
    have hrest := ih fun f hf => h f (List.mem_cons_of_mem _ hf)
    by_cases hname : f.name = name
    · rw [List.map_cons,List.map_cons,h f List.mem_cons_self hname,← hname,List.lookup_cons_self,
        List.lookup_cons_self]
    · simp only [List.map_cons,Keyed.lookup_cons_ne (Ne.symm hname),hrest]

/-- The fields that the quality checks compute with. -/
def amountNames : List String :=
  ["subtotal","tax_amount","total_amount","gross_pay","net_pay","deductions"]

theorem amount_plain (hs : SchemaRegistry.getSchema docType = .ok s) :
    ∀ f ∈ s.fields, f.name ∈ amountNames → f.currency = false :=
  (by decide : ∀ p ∈ SchemaRegistry.registry, ∀ f ∈ p.2.fields, f.name ∈ amountNames → f.currency = false) _
    (SchemaRegistry.getSchema_mem hs)

/-- The quality checks see the same of a recovered record as of the parsed one. -/
theorem qualityWarnings_recovered (hs : SchemaRegistry.getSchema docType = .ok s) (d : Dict) :
    qualityWarnings s (recoveredRecord P u s d) = qualityWarnings s (s.parsedRecord P u d) := by
  have hn := SchemaRegistry.names_nodup hs
  have hlook : ∀ name ∈ amountNames,
      (recoveredRecord P u s d).lookup name = (s.parsedRecord P u d).lookup name := by
    intro name hname
    refine lookup_map_congr s.fields fun f hf he => recoveredValue_eq_parsed fun v x => ?_
    exact validatedFieldValue_plain hn hf (amount_plain hs f hf (he ▸ hname))
  have hdecimal : ∀ name ∈ amountNames,
      (recoveredRecord P u s d).decimal? name = (s.parsedRecord P u d).decimal? name := by
    intro name hname
    rw [Record.decimal?,hlook name hname,Record.decimal?]
  have hlist : (recoveredRecord P u s d).list? "deductions" = (s.parsedRecord P u d).list? "deductions" := by
    rw [Record.list?,hlook "deductions" (by decide),Record.list?]
  unfold qualityWarnings invoiceWarnings receiptWarnings payslipWarnings totalWarnings
  rw [hdecimal "subtotal" (by decide),hdecimal "tax_amount" (by decide),hdecimal "total_amount" (by decide),
    hdecimal "gross_pay" (by decide),hdecimal "net_pay" (by decide),hlist]

/-- **When validation returns.** Validation of an object returns a result exactly when
the amounts read from it fit the decimal context. -/
theorem validateExtraction_returns_iff (hs : SchemaRegistry.getSchema docType = .ok s) (d : Dict) :
    (∃ r, validateExtraction P u docType (.obj d) = .ok r) ↔ AmountsFit s (s.parsedRecord P u d) := by
  rw [← qualityWarnings_isOk_iff fun hcls => deductions_read hs hcls d,← isOk_map (g := outcome),
    validateExtraction_obj hs d]
  split
  · next r hr =>
    obtain ⟨-,rfl,-⟩ := Schema.modelValidate_ok_iff.mp hr
    exact isOk_map
  · rw [qualityWarnings_recovered hs d]
    exact isOk_map

/-- A receipt of which nothing but the amounts can be read. -/
def hugeReceipt : Dict := [("subtotal",.str "1"),("tax_amount",.str "1"),("total_amount",.str "1E+30")]

theorem hugeReceipt_raises : validateExtraction .basic .ascii "receipt" (.obj hugeReceipt) =
    .error (.decimalSignal .invalidOperation) := rfl

theorem sampleReceipt_returns : (∃ r, validateExtraction .basic .ascii "receipt"
      (.obj [("subtotal",.str "9.50"),("tax_amount",.str "0.50"),("total_amount",.str "10")]) = .ok r) ↔
    AmountsFit Documents.receiptSchema (Documents.receiptSchema.parsedRecord .basic .ascii
      [("subtotal",.str "9.50"),("tax_amount",.str "0.50"),("total_amount",.str "10")]) :=
  validateExtraction_returns_iff rfl _

end Validation

end StructuredExtractor
