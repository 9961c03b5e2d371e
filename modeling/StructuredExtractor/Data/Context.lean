import StructuredExtractor.Data.Decimal
import StructuredExtractor.Library.Rounding
import Mathlib.Data.Nat.Digits.Lemmas

/-! # What the decimal operations compute

The sum of two decimals is their exact sum, rounded into the context; it overflows
exactly when that is out of range. A decimal can be brought to the cent exactly when
it is more than half a cent below the first number with a digit too many.
-/
namespace StructuredExtractor.Decimal
open Rounding

/-- The number that a decimal stands for. -/
def value (d : Decimal) : ℚ := d.signed * 10 ^ d.exponent

/-- A number rounded into the default context. -/
def inContext (q : ℚ) : ℚ := toDigits precision tinyExponent q

/-- The first number that is out of the range of the context. -/
def ceiling : ℚ := 10 ^ (maxExponent + 1)

/-- Whether a number, to the cent, has no more digits than the context allows. -/
def FitsCents (q : ℚ) : Prop := |q| < limit precision 26

theorem precision_eq : precision = 28 := rfl
theorem maxExponent_eq : maxExponent = 999999 := rfl
theorem topExponent_eq : topExponent = 999972 := rfl
theorem tinyExponent_eq : tinyExponent = -1000026 := rfl

theorem fitsCents_iff (q : ℚ) : FitsCents q ↔ |q| < 10 ^ 26 - 1 / 200 := by
  have h : limit precision 26 = 10 ^ 26 - 1 / 200 := by norm_num [limit,precision_eq]
  rw [FitsCents,h]

theorem natAbs_signed (d : Decimal) : d.signed.natAbs = d.coeff := by
  unfold signed
  split <;> simp

theorem abs_signed (d : Decimal) : |(d.signed : ℚ)| = d.coeff := by
  rw [← Int.cast_abs,Int.abs_eq_natAbs,natAbs_signed,Int.cast_natCast]

theorem abs_value (d : Decimal) : |d.value| = d.coeff * 10 ^ d.exponent := by
  rw [value,abs_mul,abs_signed,abs_of_pos (ten_zpow_pos _)]

theorem value_of_zero {d : Decimal} (h : d.coeff = 0) : d.value = 0 := by
  rw [← abs_eq_zero,abs_value,h,Nat.cast_zero,zero_mul]

theorem value_ne_zero {d : Decimal} (h : d.coeff ≠ 0) : d.value ≠ 0 := by
  rw [← abs_pos,abs_value]
  exact mul_pos (Nat.cast_pos.mpr (Nat.pos_of_ne_zero h)) (ten_zpow_pos _)

theorem width_le_iff {n k : ℕ} (hk : 0 < k) : width n ≤ k ↔ n < 10 ^ k := by
  unfold width
  split
  · next h => subst h; exact iff_of_true hk (by positivity)
  · exact Nat.digits_length_le_iff (by norm_num) n

theorem adjusted_eq (d : Decimal) : d.adjusted = width d.coeff + d.exponent - 1 := by
  unfold adjusted
  omega

/-- The exponent of the leading digit is the decimal logarithm. -/
theorem log_value {d : Decimal} (h : d.coeff ≠ 0) : Int.log 10 |d.value| = d.adjusted := by
  have hw : (width d.coeff : ℤ) = Nat.log 10 d.coeff + 1 := by
    unfold width
    rw [if_neg h,Nat.length_digits 10 d.coeff (by norm_num) h]
    push_cast
    rfl
  have hpos : (0 : ℚ) < d.coeff := Nat.cast_pos.mpr (Nat.pos_of_ne_zero h)
  have hlow : (10 : ℚ) ^ Nat.log 10 d.coeff ≤ d.coeff := by
    exact_mod_cast Nat.pow_log_le_self 10 h
  have hhigh : (d.coeff : ℚ) < 10 ^ (Nat.log 10 d.coeff + 1) := by
    exact_mod_cast Nat.lt_pow_succ_log_self (by norm_num) d.coeff
  have hunit := ten_zpow_pos d.exponent
  have hadj : d.adjusted = Nat.log 10 d.coeff + d.exponent := by unfold adjusted; omega
  have hlt : |d.value| < 10 ^ (d.adjusted + 1) := by
    rw [abs_value,hadj,show (Nat.log 10 d.coeff : ℤ) + d.exponent + 1 =
      ((Nat.log 10 d.coeff + 1 : ℕ) : ℤ) + d.exponent by push_cast; ring,zpow_add₀ (by norm_num),
      zpow_natCast]
    exact mul_lt_mul_of_pos_right hhigh hunit
  have hle : 10 ^ d.adjusted ≤ |d.value| := by
    rw [abs_value,hadj,zpow_add₀ (by norm_num),zpow_natCast]
    exact mul_le_mul_of_nonneg_right hlow hunit.le
  have h1 := (log_lt_iff (value_ne_zero h)).mpr hlt
  have h2 : ¬ Int.log 10 |d.value| < d.adjusted := fun hlog => by
    have := (log_lt_iff (value_ne_zero h)).mp hlog
    linarith
  omega

theorem roundHalfEven_eq (n k : ℕ) : (roundHalfEven n k : ℤ) = halfEven ((n : ℚ) / 10 ^ k) := by
  have hpos : 0 < 10 ^ k := by positivity
  have hposq : (0 : ℚ) < 10 ^ k := pow_pos (by norm_num) k
  have hmod := Nat.mod_lt n hpos
  have hn : (n : ℚ) = ((n / 10 ^ k : ℕ) : ℤ) * 10 ^ k + (n % 10 ^ k : ℕ) := by
    rw [Int.cast_natCast]
    exact_mod_cast (Nat.div_add_mod' n (10 ^ k)).symm
  have hmodq : ((n % 10 ^ k : ℕ) : ℚ) < 10 ^ k := by exact_mod_cast hmod
  have hfrac : (n : ℚ) / 10 ^ k - ((n / 10 ^ k : ℕ) : ℤ) = (n % 10 ^ k : ℕ) / 10 ^ k := by
    rw [sub_eq_iff_eq_add,div_eq_iff hposq.ne',add_mul,div_mul_cancel₀ _ hposq.ne',add_comm]
    exact hn
  have hlow : (((n / 10 ^ k : ℕ) : ℤ) : ℚ) ≤ (n : ℚ) / 10 ^ k := by
    have : (0 : ℚ) ≤ (n % 10 ^ k : ℕ) / 10 ^ k := div_nonneg (Nat.cast_nonneg _) hposq.le
    linarith
  have hhigh : (n : ℚ) / 10 ^ k < ((n / 10 ^ k : ℕ) : ℤ) + 1 := by
    have : ((n % 10 ^ k : ℕ) : ℚ) / 10 ^ k < 1 := (div_lt_one hposq).mpr hmodq
    linarith
  have hless : ((n % 10 ^ k : ℕ) : ℚ) / 10 ^ k < 1 / 2 ↔ 2 * (n % 10 ^ k) < 10 ^ k := by
    rw [div_lt_div_iff₀ hposq two_pos,one_mul,mul_comm]
    exact_mod_cast Iff.rfl
  have hmore : 1 / 2 < ((n % 10 ^ k : ℕ) : ℚ) / 10 ^ k ↔ 10 ^ k < 2 * (n % 10 ^ k) := by
    rw [div_lt_div_iff₀ two_pos hposq,one_mul,mul_comm]
    exact_mod_cast Iff.rfl
  rw [halfEven_eq hlow hhigh,hfrac]
  unfold roundHalfEven
  simp only [hless,hmore]
  split_ifs <;> omega

/-- The exponent that a result is rounded to. -/
theorem lastExponent_value {d : Decimal} (h : d.coeff ≠ 0) :
    lastExponent precision tinyExponent d.value = max (width d.coeff + d.exponent - precision) tinyExponent := by
  rw [lastExponent,log_value h]
  unfold adjusted
  congr 1
  omega

theorem value_rounded (d : Decimal) {e : ℤ} (he : d.exponent ≤ e) :
    (⟨d.negative,roundHalfEven d.coeff (e - d.exponent).toNat,e⟩ : Decimal).value =
      halfEven (d.value / 10 ^ e) * 10 ^ e := by
  have hunits : (d.coeff : ℚ) / 10 ^ (e - d.exponent).toNat = d.coeff * 10 ^ d.exponent / 10 ^ e := by
    have h := zpow_units he
    push_cast at h
    rw [h,div_div_eq_mul_div]
  have hround := roundHalfEven_eq d.coeff (e - d.exponent).toNat
  rw [hunits] at hround
  unfold value signed
  cases d.negative
  · simp only [Bool.false_eq_true,↓reduceIte,hround,Int.cast_natCast]
  · simp only [↓reduceIte,Int.cast_neg,Int.cast_natCast,hround,neg_mul,neg_div,halfEven_neg]

section
variable {d : Decimal} (h : d.coeff ≠ 0)
include h

theorem abs_value_lt : |d.value| < 10 ^ (d.adjusted + 1) :=
  (log_lt_iff (value_ne_zero h)).mp (by rw [log_value h]; omega)

theorem le_abs_value : 10 ^ d.adjusted ≤ |d.value| := by
  rw [← log_value h]
  exact_mod_cast @Int.zpow_log_le_self ℚ _ _ _ _ 10 |d.value| (by norm_num) (abs_pos.mpr (value_ne_zero h))

theorem inContext_of_overflow (hover : topExponent < width d.coeff + d.exponent - precision) :
    ceiling ≤ |inContext d.value| := by
  have hlast := lastExponent_value h
  have hadj := adjusted_eq d
  simp only [precision_eq,topExponent_eq,tinyExponent_eq,Nat.cast_ofNat] at hover hlast
  have hkeeps : lastExponent precision tinyExponent d.value ≤ d.adjusted := by
    simp only [precision_eq,tinyExponent_eq]
    omega
  have hkept := zpow_le_abs_toDigits hkeeps (le_abs_value h)
  have hpow : ceiling ≤ 10 ^ d.adjusted :=
    zpow_le_zpow_right₀ (by norm_num) (by rw [maxExponent_eq]; omega)
  exact hpow.trans hkept

theorem inContext_of_exact (hover : width d.coeff + d.exponent - precision ≤ topExponent)
    (he : max (width d.coeff + d.exponent - precision) tinyExponent ≤ d.exponent) :
    d.value = inContext d.value ∧ |inContext d.value| < ceiling := by
  have hkept : inContext d.value = d.value :=
    toDigits_eq_self (n := d.signed) (by rw [lastExponent_value h]; exact he) rfl
  have hadj := adjusted_eq d
  refine ⟨hkept.symm,?_⟩
  rw [hkept]
  refine (abs_value_lt h).trans_le (zpow_le_zpow_right₀ (by norm_num) ?_)
  simp only [precision_eq,topExponent_eq,maxExponent_eq] at hover ⊢
  omega

/-- Rounding makes at most one digit more than the context has, and then a power of ten. -/
theorem rounded_coeff_le {e : ℤ} (he : e = max (width d.coeff + d.exponent - precision) tinyExponent)
    (hless : d.exponent ≤ e) : roundHalfEven d.coeff (e - d.exponent).toNat ≤ 10 ^ precision := by
  have hadj := adjusted_eq d
  have hunits : (d.coeff : ℚ) / 10 ^ (e - d.exponent).toNat ≤ ((10 ^ precision : ℤ) : ℚ) := by
    have hpow : |d.value| ≤ 10 ^ (precision + e) :=
      (abs_value_lt h).le.trans (zpow_le_zpow_right₀ (by norm_num) (by rw [hadj,precision_eq] at *; omega))
    rw [abs_value,zpow_add₀ (by norm_num),zpow_natCast] at hpow
    have hsplit := zpow_units hless
    push_cast at hsplit ⊢
    rw [hsplit,div_div_eq_mul_div,div_le_iff₀ (ten_zpow_pos e)]
    exact hpow
  have hle := halfEven_le hunits
  rw [← roundHalfEven_eq] at hle
  exact_mod_cast hle

end

/-- The same number with a digit less. -/
theorem value_carry (negative : Bool) (c : ℕ) (e : ℤ) :
    (⟨negative,c,e + 1⟩ : Decimal).value = (⟨negative,10 * c,e⟩ : Decimal).value := by
  unfold value signed
  cases negative <;>
    simp only [Bool.false_eq_true,↓reduceIte,zpow_add_one₀ (show (10 : ℚ) ≠ 0 by norm_num)] <;>
    push_cast <;> ring

theorem full_units (e : ℤ) : ((10 ^ precision : ℕ) : ℚ) * 10 ^ e = 10 ^ (precision + e) := by
  rw [zpow_add₀ (by norm_num),zpow_natCast]
  push_cast
  rfl

/-- What has no more digits than the context, and no higher exponent, is below the ceiling. -/
theorem units_lt_ceiling {c : ℕ} {e : ℤ} (hc : width c ≤ precision) (he : e ≤ topExponent) :
    (c : ℚ) * 10 ^ e < ceiling := by
  have hfew : (c : ℚ) < (10 ^ precision : ℕ) := Nat.cast_lt.mpr ((width_le_iff (by decide)).mp hc)
  calc (c : ℚ) * 10 ^ e < (10 ^ precision : ℕ) * 10 ^ e := mul_lt_mul_of_pos_right hfew (ten_zpow_pos e)
    _ = 10 ^ (precision + e) := full_units e
    _ ≤ 10 ^ (precision + topExponent) := zpow_le_zpow_right₀ (by norm_num) (by omega)

/-- A rounded result is the rounded number, and it overflows when that is out of range. -/
theorem fix_spec (d : Decimal) : match fix d with
    | .ok r => r.value = inContext d.value ∧ |inContext d.value| < ceiling
    | .error _ => ceiling ≤ |inContext d.value| := by
  have hceiling : 0 < ceiling := ten_zpow_pos _
  unfold fix
  by_cases hzero : d.coeff = 0
  · rw [if_pos hzero]
    have hval : inContext d.value = 0 := by
      rw [value_of_zero hzero,inContext,toDigits,zero_div]
      have h : halfEven 0 = 0 := halfEven_intCast 0
      rw [h,Int.cast_zero,zero_mul]
    simp only [hval,abs_zero]
    exact ⟨value_of_zero rfl,hceiling⟩
  rw [if_neg hzero]
  by_cases hover : topExponent < width d.coeff + d.exponent - precision
  · simp only [if_pos hover]
    exact inContext_of_overflow hzero hover
  simp only [if_neg hover]
  by_cases he : max (width d.coeff + d.exponent - precision) tinyExponent ≤ d.exponent
  · simp only [if_pos he]
    exact inContext_of_exact hzero (not_lt.mp hover) he
  simp only [if_neg he]
  generalize heq : max (width d.coeff + d.exponent - precision) tinyExponent = e at he ⊢
  have hless : d.exponent ≤ e := (not_le.mp he).le
  have hle := rounded_coeff_le hzero heq.symm hless
  have hvalue := value_rounded d hless
  have hctx : inContext d.value = halfEven (d.value / 10 ^ e) * 10 ^ e := by
    rw [inContext,toDigits,lastExponent_value hzero,heq]
  rw [← hctx] at hvalue
  generalize roundHalfEven d.coeff (e - d.exponent).toNat = c at hle hvalue ⊢
  have habs : |inContext d.value| = c * 10 ^ e := by rw [← hvalue,abs_value]
  have htop : e ≤ topExponent := by
    rw [← heq]
    exact max_le (not_lt.mp hover) (by decide)
  by_cases hcarry : precision < width c
  · -- a power of ten of 29 digits, written with 28
    simp only [if_pos hcarry]
    obtain rfl : c = 10 ^ precision :=
      le_antisymm hle (not_lt.mp (mt (width_le_iff (by decide)).mpr (not_le.mpr hcarry)))
    rw [full_units] at habs
    by_cases hnext : topExponent < e + 1
    · rw [if_pos hnext,habs,show e = topExponent by omega]
      exact le_refl ceiling
    · rw [if_neg hnext]
      have hdigits : 10 * (10 ^ precision / 10) = 10 ^ precision := by decide
      refine ⟨(value_carry d.negative _ e).trans (hdigits ▸ hvalue),?_⟩
      calc |inContext d.value| = 10 ^ (precision + e) := habs
        _ < 10 ^ (precision + topExponent) := zpow_lt_zpow_right₀ (by norm_num) (by omega)
  · simp only [if_neg hcarry]
    rw [if_neg (not_lt.mpr htop)]
    exact ⟨hvalue,habs.trans_lt (units_lt_ceiling (not_lt.mp hcarry) htop)⟩

theorem fix_ok {d r : Decimal} (h : fix d = .ok r) :
    r.value = inContext d.value ∧ |inContext d.value| < ceiling := by
  have hspec := fix_spec d
  rw [h] at hspec
  exact hspec

theorem fix_isOk_iff (d : Decimal) : (∃ r, fix d = .ok r) ↔ |inContext d.value| < ceiling := by
  have hspec := fix_spec d
  cases h : fix d with
  | ok r => rw [h] at hspec; exact iff_of_true ⟨r,rfl⟩ hspec.2
  | error e => rw [h] at hspec; exact iff_of_false (by simp) (not_lt.mpr hspec)

/-- The decimal that `add` rounds. -/
def exactSum (a b : Decimal) : Decimal :=
  let e := min a.exponent b.exponent
  let n := a.signed * 10 ^ (a.exponent - e).toNat + b.signed * 10 ^ (b.exponent - e).toNat
  ⟨if n = 0 then a.negative && b.negative else n < 0,n.natAbs,e⟩

theorem signed_mk (n : ℤ) (zero : Bool) (e : ℤ) :
    (⟨if n = 0 then zero else n < 0,n.natAbs,e⟩ : Decimal).signed = n := by
  unfold signed
  rcases lt_trichotomy n 0 with h | rfl | h
  · simp only [h.ne,↓reduceIte,h,decide_true]
    omega
  · cases zero <;> rfl
  · simp only [h.ne',↓reduceIte,not_lt.mpr h.le,decide_false,Bool.false_eq_true]
    omega

/-- A decimal in units of a lower exponent. -/
theorem scaled_value (d : Decimal) {e : ℤ} (he : e ≤ d.exponent) :
    ((d.signed * 10 ^ (d.exponent - e).toNat : ℤ) : ℚ) * 10 ^ e = d.value := by
  rw [Int.cast_mul,zpow_units he,mul_assoc,div_mul_cancel₀ _ (ten_zpow_pos _).ne']
  rfl

theorem value_exactSum (a b : Decimal) : (exactSum a b).value = a.value + b.value := by
  have hsum : (exactSum a b).value = ((exactSum a b).signed : ℚ) * 10 ^ min a.exponent b.exponent := rfl
  rw [hsum,exactSum,signed_mk,Int.cast_add,add_mul,scaled_value a (min_le_left _ _),scaled_value b (min_le_right _ _)]

theorem value_neg (d : Decimal) : d.neg.value = -d.value := by
  unfold value signed neg
  cases d.negative <;> simp

/-- Addition is exact addition, rounded into the context. -/
theorem add_ok {a b r : Decimal} (h : add a b = .ok r) : r.value = inContext (a.value + b.value) := by
  rw [← value_exactSum]
  exact (fix_ok h).1

theorem add_isOk_iff (a b : Decimal) :
    (∃ r, add a b = .ok r) ↔ |inContext (a.value + b.value)| < ceiling := by
  rw [← value_exactSum]
  exact fix_isOk_iff _

/-- What fits to the cent is far below the ceiling of the context. -/
theorem limit_lt_ceiling : limit precision 26 < ceiling :=
  (limit_le _ _).trans_lt (zpow_lt_zpow_right₀ (by norm_num) (by rw [maxExponent_eq]; norm_num))

/-- Rounding into the context neither brings a number to the cent nor keeps it from there. -/
theorem fitsCents_inContext (q : ℚ) : FitsCents (inContext q) ↔ FitsCents q :=
  abs_toDigits_lt_iff (by decide) (by decide)

/-- What fits to the cent is in range. -/
theorem FitsCents.inRange {q : ℚ} (h : FitsCents q) : |inContext q| < ceiling :=
  ((fitsCents_inContext q).mpr h).trans limit_lt_ceiling

theorem value_rescale (d : Decimal) (e : ℤ) :
    (⟨d.negative,d.rescale e,e⟩ : Decimal).value = halfEven (d.value / 10 ^ e) * 10 ^ e := by
  unfold rescale
  split
  · next he =>
    have hunits : d.value / 10 ^ e = ((d.signed * 10 ^ (d.exponent - e).toNat : ℤ) : ℚ) := by
      rw [Int.cast_mul,zpow_units he,value,mul_div_assoc]
    rw [hunits,halfEven_intCast]
    unfold value signed
    cases d.negative <;> simp
  · next he => exact value_rounded d (not_le.mp he).le

/-- The digits at the cent are few enough exactly when the number fits there. -/
theorem rescale_lt_iff (d : Decimal) : d.rescale (-2) < 10 ^ precision ↔ FitsCents d.value := by
  have hunits := @halfEven_units_lt_iff precision d.value (by decide) 26
  have habs : |(⟨d.negative,d.rescale (-2),-2⟩ : Decimal).value| =
      halfEven (|d.value| / 10 ^ (-2 : ℤ)) * 10 ^ (-2 : ℤ) := by
    have hpos := ten_zpow_pos (-2)
    rw [value_rescale,abs_mul,abs_of_pos hpos,← Int.cast_abs,abs_halfEven,abs_div,abs_of_pos hpos]
  rw [abs_value] at habs
  have hexp : (26 : ℤ) - precision = -2 := rfl
  rw [FitsCents,← hunits,hexp,← habs,zpow_eq_units precision 26,hexp,mul_lt_mul_iff_left₀ (ten_zpow_pos _)]
  exact_mod_cast Iff.rfl

theorem not_fitsCents {d : Decimal} (h : d.coeff ≠ 0) (hadj : 26 ≤ d.adjusted) : ¬ FitsCents d.value := by
  have hle := le_abs_value h
  have hpow : (10 : ℚ) ^ (26 : ℤ) ≤ 10 ^ d.adjusted := zpow_le_zpow_right₀ (by norm_num) hadj
  exact not_lt.mpr ((limit_le precision 26).trans (hpow.trans hle))

/-- A decimal is brought to the cent exactly when it fits there. -/
theorem quantize_isOk_iff (d : Decimal) : (∃ r, d.quantize (-2) = .ok r) ↔ FitsCents d.value := by
  unfold quantize
  by_cases hzero : d.coeff = 0
  · rw [if_pos hzero,value_of_zero hzero]
    refine iff_of_true ⟨_,rfl⟩ ?_
    rw [fitsCents_iff,abs_zero]
    norm_num
  rw [if_neg hzero]
  by_cases hlarge : maxExponent < d.adjusted
  · rw [if_pos hlarge]
    exact iff_of_false (by simp) (not_fitsCents hzero (by rw [maxExponent_eq] at hlarge; omega))
  rw [if_neg hlarge]
  by_cases hdigits : (precision : ℤ) < d.adjusted - -2 + 1
  · rw [if_pos hdigits]
    exact iff_of_false (by simp) (not_fitsCents hzero (by rw [precision_eq] at hdigits; omega))
  rw [if_neg hdigits,← rescale_lt_iff,← width_le_iff (by decide)]
  by_cases hwidth : width (d.rescale (-2)) ≤ precision
  · have hadj : ¬ maxExponent < (⟨d.negative,d.rescale (-2),-2⟩ : Decimal).adjusted := by
      rw [adjusted_eq,maxExponent_eq]
      simp only [precision_eq] at hwidth ⊢
      omega
    simp only [if_neg hadj,if_neg (not_lt.mpr hwidth)]
    exact iff_of_true ⟨_,rfl⟩ hwidth
  · simp only [if_pos (not_le.mp hwidth)]
    refine iff_of_false ?_ hwidth
    split <;> simp

/-- A number in whole cents. -/
def cents (q : ℚ) : ℤ := halfEven (q / 10 ^ (-2 : ℤ))

/-- A decimal that is brought to the cent stands for its whole cents. -/
theorem quantize_ok {d r : Decimal} (h : d.quantize (-2) = .ok r) : r.value = cents d.value * 10 ^ (-2 : ℤ) := by
  unfold quantize at h
  by_cases hzero : d.coeff = 0
  · rw [if_pos hzero] at h
    have hcents : cents 0 = 0 := by
      rw [cents,zero_div]
      exact halfEven_intCast 0
    rw [value_of_zero hzero,hcents,Int.cast_zero,zero_mul]
    refine value_of_zero ?_
    rw [fix,if_pos rfl] at h
    cases h
    rfl
  · rw [if_neg hzero] at h
    dsimp only at h
    split_ifs at h
    cases h
    exact value_rescale d (-2)

theorem numEq_iff (a b : Decimal) : a.numEq b = true ↔ a.value = b.value := by
  have hunit := ten_zpow_pos (min a.exponent b.exponent)
  rw [numEq,decide_eq_true_eq,← scaled_value a (min_le_left _ _),← scaled_value b (min_le_right _ _),
    mul_left_inj' hunit.ne',Int.cast_inj]

/-- Decimals brought to the cent are equal when they are so many cents. -/
theorem numEq_quantize {a b a' b' : Decimal} (ha : a.quantize (-2) = .ok a') (hb : b.quantize (-2) = .ok b') :
    a'.numEq b' = true ↔ cents a.value = cents b.value := by
  rw [numEq_iff,quantize_ok ha,quantize_ok hb,mul_left_inj' (ten_zpow_pos (-2)).ne',Int.cast_inj]

/-- A number that the context keeps and that is below the first with 27 digits fits to the cent. -/
theorem fitsCents_of_kept {q : ℚ} (hkept : inContext q = q) (h : |q| < 10 ^ 26) : FitsCents q :=
  abs_lt_limit_of_kept (by decide) (by decide) hkept (by exact_mod_cast h)

/-- A number of whole units of an exponent that is not too low for its size is kept. -/
theorem inContext_units {q : ℚ} {n k e : ℤ} (hq : q = n * 10 ^ e) (h : |q| < 10 ^ k) (hk : k - precision ≤ e)
    (he : tinyExponent ≤ e) : inContext q = q := by
  rcases eq_or_ne q 0 with rfl | hne
  · have hzero : halfEven 0 = 0 := halfEven_intCast 0
    simp [inContext,toDigits,hzero]
  · have hlog := (log_lt_iff hne).mpr h
    exact toDigits_eq_self (max_le (by omega) he) hq

end StructuredExtractor.Decimal
