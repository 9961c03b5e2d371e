import StructuredExtractor.Schema.Amounts

/-! # The quality checks to the cent

A quality check rounds the stated amount and the exact sum of the others to the cent,
each on its own and half to even. So it warns of every difference of more than a cent,
of none when the amounts agree, and of a difference of exactly a cent unless both
amounts are rounded to the same even number of cents, one up and one down.
-/
namespace StructuredExtractor.Validation
open Decimal

/-- The context keeps the total of any first amounts, and it is not too large. -/
def ExactTotals (amounts : List Decimal) : Prop := ∀ before, before <+: amounts →
  inContext (before.map value).sum = (before.map value).sum ∧ |(before.map value).sum| < 10 ^ 26

/-- The amounts that the check of a schema compares when all of them are there: the stated
one, and what the others come to exactly. -/
def Compares (s : Schema) (r : Record) (stated exact : ℚ) : Prop :=
  match s.cls with
  | .invoice | .receipt => ∃ subtotal tax total, r.decimal? "subtotal" = some subtotal ∧
      r.decimal? "tax_amount" = some tax ∧ r.decimal? "total_amount" = some total ∧
      stated = total.value ∧ exact = subtotal.value + tax.value
  | .payslip => ∃ gross net deductions, r.decimal? "gross_pay" = some gross ∧ r.decimal? "net_pay" = some net ∧
      r.list? "deductions" = some deductions ∧ DeductionsRead r ∧ ExactTotals (deductionAmounts deductions) ∧
      stated = net.value ∧ exact = gross.value - ((deductionAmounts deductions).map value).sum
  | .contract => False

theorem runningTotal_exact {amounts : List Decimal} (h : ExactTotals amounts) :
    runningTotal amounts = (amounts.map value).sum := by
  induction amounts using List.reverseRecOn with
  | nil => rfl
  | append_singleton amounts a ih =>
    have hbefore := ih fun before hb => h before (hb.trans (List.prefix_append amounts [a]))
    have hall := (h (amounts ++ [a]) (List.prefix_refl _)).1
    rw [runningTotal_concat,hbefore]
    simpa using hall

theorem totalInRange_exact {amounts : List Decimal} (h : ExactTotals amounts) : TotalInRange amounts := by
  intro before hb
  obtain ⟨hkept,hlt⟩ := h before hb
  rw [runningTotal_exact fun b hb' => h b (hb'.trans hb),← hkept]
  exact (fitsCents_of_kept hkept hlt).inRange

theorem normalizeMoney_ok {d : Decimal} (h : FitsCents d.value) :
    ∃ r, normalizeMoney d = .ok r ∧ d.quantize (-2) = .ok r := by
  obtain ⟨r,hr⟩ := (quantize_isOk_iff d).mpr h
  exact ⟨r,by rw [normalizeMoney,hr]; rfl,hr⟩

/-- A sum that the context keeps is the exact sum. -/
theorem addMoney_exact {a b : Decimal} (hkept : inContext (a.value + b.value) = a.value + b.value)
    (hlt : |a.value + b.value| < 10 ^ 26) : ∃ c, addMoney a b = .ok c ∧ c.value = a.value + b.value := by
  obtain ⟨c,hc⟩ := isOk_mapError.mpr ((add_isOk_iff a b).mpr (fitsCents_of_kept hkept hlt).inRange)
  exact ⟨c,hc,(add_ok (mapError_ok hc)).trans hkept⟩

/-- The comparison is one of whole cents. -/
theorem comparison_ok {expected total : Decimal} (he : FitsCents expected.value) (ht : FitsCents total.value)
    (message : String) : (do
      let e ← normalizeMoney expected
      if (← normalizeMoney total).numEq e then return [] else return [message] : Except Exc (List String)) =
        .ok (if cents total.value = cents expected.value then [] else [message]) := by
  obtain ⟨e,he,hqe⟩ := normalizeMoney_ok he
  obtain ⟨t,ht,hqt⟩ := normalizeMoney_ok ht
  have heq := numEq_quantize hqt hqe
  rw [he,ht]
  by_cases h : cents total.value = cents expected.value
  · rw [if_pos h]
    exact congrArg (fun b : Bool => if b then _ else _) (heq.mpr h)
  · rw [if_neg h]
    exact congrArg (fun b : Bool => if b then _ else _) (Bool.eq_false_iff.mpr (mt heq.mp h))

section
variable {s : Schema} {r : Record} {stated exact : ℚ}

/-- A check whose sums are exact warns unless its two amounts are so many cents alike. -/
theorem qualityWarnings_cents (hcompares : Compares s r stated exact) (hkept : inContext exact = exact)
    (hlt : |exact| < 10 ^ 26) (hstated : FitsCents stated) :
    ∃ message, qualityWarnings s r = .ok (if cents stated = cents exact then [] else [message]) := by
  have hexact := fitsCents_of_kept hkept hlt
  have htotal : ∀ message, (∃ subtotal tax total, r.decimal? "subtotal" = some subtotal ∧
      r.decimal? "tax_amount" = some tax ∧ r.decimal? "total_amount" = some total ∧
      stated = total.value ∧ exact = subtotal.value + tax.value) →
      totalWarnings r message = .ok (if cents stated = cents exact then [] else [message]) := by
    rintro message ⟨subtotal,tax,total,hsub,htax,htot,rfl,rfl⟩
    obtain ⟨c,hc,hvalue⟩ := addMoney_exact hkept hlt
    rw [← hvalue] at hexact ⊢
    rw [totalWarnings,hsub,htax,htot]
    dsimp only
    rw [hc]
    exact comparison_ok hexact hstated message
  unfold Compares at hcompares
  unfold qualityWarnings
  cases hcls : s.cls with
  | invoice =>
    rw [hcls] at hcompares
    exact ⟨_,htotal _ hcompares⟩
  | receipt =>
    rw [hcls] at hcompares
    exact ⟨_,htotal _ hcompares⟩
  | contract =>
    rw [hcls] at hcompares
    exact hcompares.elim
  | payslip =>
    rw [hcls] at hcompares
    obtain ⟨gross,net,deductions,hgross,hnet,hlist,hread,htotals,rfl,rfl⟩ := hcompares
    obtain ⟨hiff,hvalue⟩ := total_spec (hread deductions hlist)
    obtain ⟨t,ht⟩ := hiff.mpr (totalInRange_exact htotals)
    have hneg : t.neg.value = -((deductionAmounts deductions).map value).sum := by
      rw [value_neg,hvalue t ht,runningTotal_exact htotals]
    rw [sub_eq_add_neg,← hneg] at hkept hlt hexact ⊢
    obtain ⟨c,hc,hcvalue⟩ := addMoney_exact hkept hlt
    have hsub : subMoney gross t = .ok c := hc
    rw [← hcvalue] at hexact ⊢
    dsimp only
    rw [payslipWarnings,hgross,hnet,hlist]
    dsimp only
    rw [ht]
    change ∃ message, (subMoney gross t >>= _) = _
    rw [hsub]
    exact ⟨_,comparison_ok hexact hstated _⟩

/-- Amounts of as many cents differ by a cent at most, and by a cent only from both sides of
an even number of cents. -/
theorem cents_eq_of_far {a b : ℚ} (h : cents a = cents b) : |a - b| ≤ 1 / 100 := by
  have hle := Rounding.abs_sub_le_of_halfEven_eq h
  rw [← sub_div,abs_div,abs_of_pos (Rounding.ten_zpow_pos (-2)),div_le_iff₀ (Rounding.ten_zpow_pos (-2))] at hle
  norm_num at hle ⊢
  exact hle

theorem cents_eq_iff_of_apart {a b : ℚ} (h : |a - b| = 1 / 100) :
    cents a = cents b ↔ ∃ n : ℤ, n % 2 = 0 ∧ |a - n / 100| = 1 / 200 ∧ |b - n / 100| = 1 / 200 := by
  have hunit : (10 : ℚ) ^ (-2 : ℤ) = 1 / 100 := by norm_num
  have hscale : ∀ x y : ℚ, |x / 10 ^ (-2 : ℤ) - y| = 100 * |x - y / 100| := by
    intro x y
    rw [hunit,← abs_of_pos (show (0 : ℚ) < 100 by norm_num),← abs_mul]
    congr 1
    rw [abs_of_pos (show (0 : ℚ) < 100 by norm_num)]
    ring
  have hapart : |a / 10 ^ (-2 : ℤ) - b / 10 ^ (-2 : ℤ)| = 1 := by
    rw [hscale,hunit,show b / (1 / 100) / 100 = b by ring,h]
    norm_num
  rw [cents,cents,Rounding.halfEven_eq_iff_of_apart hapart]
  refine exists_congr fun n => and_congr_right fun _ => ?_
  rw [hscale,hscale]
  constructor
  · rintro ⟨ha,hb⟩
    exact ⟨by linarith,by linarith⟩
  · rintro ⟨ha,hb⟩
    exact ⟨by linarith,by linarith⟩

/-- **The quality checks to the cent.** -/
theorem qualityWarnings_to_the_cent (hcompares : Compares s r stated exact) (hkept : inContext exact = exact)
    (hlt : |exact| < 10 ^ 26) (hstated : FitsCents stated) :
    ∃ ws, qualityWarnings s r = .ok ws ∧ (stated = exact → ws = []) ∧ (1 / 100 < |stated - exact| → ws ≠ []) ∧
      (|stated - exact| = 1 / 100 → (ws = [] ↔
        ∃ n : ℤ, n % 2 = 0 ∧ |stated - n / 100| = 1 / 200 ∧ |exact - n / 100| = 1 / 200)) := by
  obtain ⟨message,hmessage⟩ := qualityWarnings_cents hcompares hkept hlt hstated
  have hnone : (if cents stated = cents exact then [] else [message]) = [] ↔ cents stated = cents exact := by
    by_cases h : cents stated = cents exact <;> simp [h]
  refine ⟨_,hmessage,?_,?_,?_⟩
  · intro h
    rw [hnone,h]
  · intro h
    rw [ne_eq,hnone]
    exact fun heq => absurd (cents_eq_of_far heq) (not_le.mpr h)
  · intro h
    rw [hnone]
    exact cents_eq_iff_of_apart h

end

/-- The amounts of a receipt. -/
def receiptOf (subtotal tax total : Decimal) : Record :=
  [("subtotal",.decimal subtotal),("tax_amount",.decimal tax),("total_amount",.decimal total)]

/-- A total a cent above its parts, without a warning: both 1.5 and 2.5 cents are rounded to 2. And
a total below `10 ^ 26` that has too many digits for a comparison at all. -/
theorem halfCents_unwarned :
    (qualityWarnings Documents.receiptSchema (receiptOf ⟨false,15,-3⟩ ⟨false,0,0⟩ ⟨false,25,-3⟩) = .ok [] ∧
      Compares Documents.receiptSchema (receiptOf ⟨false,15,-3⟩ ⟨false,0,0⟩ ⟨false,25,-3⟩) (25 / 1000) (15 / 1000) ∧
      inContext (15 / 1000) = 15 / 1000 ∧ |(25 / 1000 : ℚ) - 15 / 1000| = 1 / 100) ∧
    qualityWarnings Documents.receiptSchema
        (receiptOf ⟨false,0,0⟩ ⟨false,0,0⟩ ⟨false,99999999999999999999999999995,-3⟩) =
      .error (.decimalSignal .invalidOperation) := by
  refine ⟨⟨by decide,?_,?_,by norm_num⟩,by decide⟩
  · refine ⟨_,_,_,rfl,rfl,rfl,?_,?_⟩
    · norm_num [value,signed]
    · norm_num [value,signed]
  · exact inContext_units (n := 15) (k := 0) (e := -3) (by norm_num) (by norm_num [abs_of_pos]) (by decide) (by decide)

/-- Nine and a half and a half are ten. -/
theorem sampleReceipt_unwarned : ∃ ws, qualityWarnings Documents.receiptSchema
    (receiptOf ⟨false,950,-2⟩ ⟨false,5,-1⟩ ⟨false,10,0⟩) = .ok ws ∧ ws = [] := by
  have hcompares : Compares Documents.receiptSchema (receiptOf ⟨false,950,-2⟩ ⟨false,5,-1⟩ ⟨false,10,0⟩) 10 10 := by
    refine ⟨_,_,_,rfl,rfl,rfl,?_,?_⟩
    · norm_num [value,signed]
    · norm_num [value,signed]
  have hkept : inContext 10 = 10 :=
    inContext_units (n := 10) (k := 2) (e := 0) (by norm_num) (by norm_num [abs_of_pos]) (by decide) (by decide)
  obtain ⟨ws,hws,hsame,-⟩ := qualityWarnings_to_the_cent hcompares hkept (by norm_num [abs_of_pos])
    ((fitsCents_iff 10).mpr (by norm_num [abs_of_pos]))
  exact ⟨ws,hws,hsame rfl⟩

end StructuredExtractor.Validation
