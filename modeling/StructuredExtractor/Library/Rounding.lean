import Mathlib.Algebra.Order.Field.Rat
import Mathlib.Algebra.Order.Floor.Ring
import Mathlib.Data.Int.Log
import Mathlib.Data.Rat.Floor
import Mathlib.Tactic.FieldSimp
import Mathlib.Tactic.Linarith
import Mathlib.Tactic.Positivity
import Mathlib.Tactic.Ring

/-! # Rounding to a number of significant digits

Half-even rounding of a rational to an integer, and to `p` significant decimal
digits with a least exponent, as a function on rationals.
-/
namespace StructuredExtractor.Rounding

/-- The nearest integer, of two equally near ones the even. -/
def halfEven (q : ℚ) : ℤ :=
  if q - ⌊q⌋ < 1 / 2 then ⌊q⌋
  else if 1 / 2 < q - ⌊q⌋ then ⌊q⌋ + 1
  else if ⌊q⌋ % 2 = 0 then ⌊q⌋ else ⌊q⌋ + 1

/-- Down to the floor or up to the next integer, and a half to the even one. -/
theorem halfEven_cases (q : ℚ) :
    (halfEven q = ⌊q⌋ ∧ (q - ⌊q⌋ < 1 / 2 ∨ q - ⌊q⌋ = 1 / 2 ∧ ⌊q⌋ % 2 = 0)) ∨
    (halfEven q = ⌊q⌋ + 1 ∧ (1 / 2 < q - ⌊q⌋ ∨ q - ⌊q⌋ = 1 / 2 ∧ ⌊q⌋ % 2 = 1)) := by
  unfold halfEven
  by_cases hlow : q - ⌊q⌋ < 1 / 2
  · exact .inl ⟨if_pos hlow,.inl hlow⟩
  rw [if_neg hlow]
  by_cases hhigh : 1 / 2 < q - ⌊q⌋
  · exact .inr ⟨if_pos hhigh,.inl hhigh⟩
  rw [if_neg hhigh]
  have htie : q - ⌊q⌋ = 1 / 2 := le_antisymm (not_lt.mp hhigh) (not_lt.mp hlow)
  by_cases heven : ⌊q⌋ % 2 = 0
  · exact .inl ⟨if_pos heven,.inr ⟨htie,heven⟩⟩
  · exact .inr ⟨if_neg heven,.inr ⟨htie,by omega⟩⟩

/-- The rounding is decided by where between two integers the number lies. -/
theorem halfEven_eq {q : ℚ} {n : ℤ} (h0 : (n : ℚ) ≤ q) (h1 : q < n + 1) :
    halfEven q = if q - n < 1 / 2 then n else if 1 / 2 < q - n then n + 1 else if n % 2 = 0 then n else n + 1 := by
  have hfloor : ⌊q⌋ = n := Int.floor_eq_iff.mpr ⟨h0,h1⟩
  rw [halfEven,hfloor]

theorem halfEven_intCast (n : ℤ) : halfEven n = n := by
  have h := halfEven_eq (q := n) le_rfl (lt_add_one _)
  rw [h,sub_self,if_pos one_half_pos]

theorem le_halfEven {n : ℤ} {q : ℚ} (h : (n : ℚ) ≤ q) : n ≤ halfEven q := by
  have hfloor : n ≤ ⌊q⌋ := Int.le_floor.mpr h
  rcases halfEven_cases q with ⟨he,-⟩ | ⟨he,-⟩ <;> omega

theorem halfEven_le {n : ℤ} {q : ℚ} (h : q ≤ n) : halfEven q ≤ n := by
  rcases halfEven_cases q with ⟨he,-⟩ | ⟨he,hfrac⟩
  · rw [he]
    exact_mod_cast (Int.floor_le q).trans h
  · have hlt : (⌊q⌋ : ℚ) < n := by rcases hfrac with h' | ⟨h',-⟩ <;> linarith
    have := Int.cast_lt.mp hlt
    omega

/-- Below an even integer stays what is more than a half below it. -/
theorem halfEven_lt_iff {n : ℤ} (hn : n % 2 = 0) {q : ℚ} : halfEven q < n ↔ q < n - 1 / 2 := by
  have hfloor := Int.floor_le q
  have hnext := Int.lt_floor_add_one q
  rcases halfEven_cases q with ⟨he,hfrac⟩ | ⟨he,hfrac⟩
  · rw [he]
    constructor
    · intro h
      have hle : (⌊q⌋ : ℚ) ≤ n - 1 := by exact_mod_cast Int.le_sub_one_of_lt h
      rcases hfrac with h' | ⟨h',heven⟩
      · linarith
      · -- the floor is even, so it is not the integer just below `n`
        have hne : ⌊q⌋ ≤ n - 2 := by omega
        have hle' : (⌊q⌋ : ℚ) ≤ n - 2 := by exact_mod_cast hne
        linarith
    · intro h
      exact_mod_cast (by linarith : (⌊q⌋ : ℚ) < n)
  · rw [he]
    constructor
    · intro h
      have hle : (⌊q⌋ : ℚ) + 1 ≤ n - 1 := by exact_mod_cast Int.le_sub_one_of_lt h
      linarith
    · intro h
      have hlt : (⌊q⌋ : ℚ) + 1 < n := by
        rcases hfrac with h' | ⟨h',-⟩ <;> linarith
      exact_mod_cast hlt

theorem halfEven_neg (q : ℚ) : halfEven (-q) = -halfEven q := by
  have h0 := Int.floor_le q
  have h1 := Int.lt_floor_add_one q
  by_cases hint : (⌊q⌋ : ℚ) = q
  · rw [← hint,← Int.cast_neg,halfEven_intCast,halfEven_intCast]
  · have hlt : (⌊q⌋ : ℚ) < q := lt_of_le_of_ne h0 hint
    have hneg := halfEven_eq (q := -q) (n := -⌊q⌋ - 1) (by push_cast; linarith) (by push_cast; linarith)
    push_cast at hneg
    rcases halfEven_cases q with ⟨he,hfrac⟩ | ⟨he,hfrac⟩
    · rw [he,hneg,if_neg (by rcases hfrac with h' | ⟨h',-⟩ <;> linarith)]
      rcases hfrac with h' | ⟨h',heven⟩
      · rw [if_pos (by linarith)]; omega
      · rw [if_neg (by linarith),if_neg (by omega)]; omega
    · rw [he,hneg]
      rcases hfrac with h' | ⟨h',hodd⟩
      · rw [if_pos (by linarith)]; omega
      · rw [if_neg (by linarith),if_neg (by linarith),if_pos (by omega)]; omega

theorem abs_halfEven (q : ℚ) : |halfEven q| = halfEven |q| := by
  rcases le_total 0 q with h | h
  · rw [abs_of_nonneg h,abs_of_nonneg (by exact_mod_cast le_halfEven (n := 0) (by exact_mod_cast h))]
  · have hle : halfEven q ≤ 0 := halfEven_le (by exact_mod_cast h)
    rw [abs_of_nonpos h,halfEven_neg,abs_of_nonpos hle]

/-- Rounding moves a number by a half at most, and by a half to an even integer only. -/
theorem abs_sub_halfEven (q : ℚ) : |q - halfEven q| < 1 / 2 ∨ |q - halfEven q| = 1 / 2 ∧ halfEven q % 2 = 0 := by
  have hfloor := Int.floor_le q
  have hnext := Int.lt_floor_add_one q
  rcases halfEven_cases q with ⟨he,hfrac⟩ | ⟨he,hfrac⟩
  · rw [he,abs_of_nonneg (sub_nonneg.mpr hfloor)]
    exact hfrac
  · rw [he]
    push_cast
    rw [abs_of_nonpos (by linarith)]
    rcases hfrac with h | ⟨h,hodd⟩
    · exact .inl (by linarith)
    · exact .inr ⟨by linarith,by omega⟩

/-- A half beside an even integer is rounded to it. -/
theorem halfEven_of_half {q : ℚ} {n : ℤ} (hn : n % 2 = 0) (h : |q - n| = 1 / 2) : halfEven q = n := by
  rcases abs_eq (by norm_num : (0 : ℚ) ≤ 1 / 2) |>.mp h with h | h
  · rw [halfEven_eq (n := n) (by linarith) (by linarith),if_neg (by linarith),if_neg (by linarith),if_pos hn]
  · rw [halfEven_eq (n := n - 1) (by push_cast; linarith) (by push_cast; linarith)]
    push_cast
    rw [if_neg (by linarith),if_neg (by linarith),if_neg (by omega)]
    ring

/-- Numbers that are rounded to the same integer are at most one apart. -/
theorem abs_sub_le_of_halfEven_eq {a b : ℚ} (h : halfEven a = halfEven b) : |a - b| ≤ 1 := by
  have hhalf : ∀ q : ℚ, |q - halfEven q| ≤ 1 / 2 := fun q => (abs_sub_halfEven q).elim le_of_lt fun h => h.1.le
  have ha := abs_le.mp (hhalf a)
  have hb := abs_le.mp (hhalf b)
  rw [h] at ha
  exact abs_le.mpr ⟨by linarith,by linarith⟩

/-- Numbers that are one apart are rounded to the same integer only from both sides of an even one. -/
theorem halfEven_eq_iff_of_apart {a b : ℚ} (hapart : |a - b| = 1) :
    halfEven a = halfEven b ↔ ∃ n : ℤ, n % 2 = 0 ∧ |a - n| = 1 / 2 ∧ |b - n| = 1 / 2 := by
  constructor
  · intro h
    have ha := abs_sub_halfEven a
    have hb := abs_sub_halfEven b
    rw [← h] at hb
    have htriangle := abs_sub_le a (halfEven a) b
    rw [hapart,abs_sub_comm (halfEven a : ℚ) b] at htriangle
    rcases ha with ha | ⟨ha,heven⟩
    · exact absurd htriangle (by rcases hb with hb | ⟨hb,-⟩ <;> linarith)
    · rcases hb with hb | ⟨hb,-⟩
      · exact absurd htriangle (by linarith)
      · exact ⟨halfEven a,heven,ha,hb⟩
  · rintro ⟨n,heven,ha,hb⟩
    rw [halfEven_of_half heven ha,halfEven_of_half heven hb]

/-- The exponent of the last of `p` significant digits, at least `least`. -/
def lastExponent (p : ℕ) (least : ℤ) (q : ℚ) : ℤ := max (Int.log 10 |q| + 1 - p) least

/-- To `p` significant digits, none below the exponent `least`. -/
def toDigits (p : ℕ) (least : ℤ) (q : ℚ) : ℚ :=
  halfEven (q / 10 ^ lastExponent p least q) * 10 ^ lastExponent p least q

variable {p : ℕ} {least : ℤ} {q : ℚ}

theorem ten_zpow_pos (e : ℤ) : (0 : ℚ) < 10 ^ e := zpow_pos (by norm_num) e

/-- A power of ten is a whole number of units of a lower power. -/
theorem zpow_units {e k : ℤ} (h : e ≤ k) : ((10 ^ (k - e).toNat : ℤ) : ℚ) = 10 ^ k / 10 ^ e := by
  rw [Int.cast_pow,Int.cast_ofNat,← zpow_natCast,Int.toNat_of_nonneg (by omega),zpow_sub₀ (by norm_num)]

theorem abs_toDigits : |toDigits p least q| =
    halfEven (|q| / 10 ^ lastExponent p least q) * 10 ^ lastExponent p least q := by
  have hpos := ten_zpow_pos (lastExponent p least q)
  rw [toDigits,abs_mul,abs_of_pos hpos,← Int.cast_abs,abs_halfEven,abs_div,abs_of_pos hpos]

/-- A multiple of the last digit's unit is kept. -/
theorem toDigits_eq_self {n e : ℤ} (he : lastExponent p least q ≤ e) (hq : q = n * 10 ^ e) :
    toDigits p least q = q := by
  have hpos := ten_zpow_pos (lastExponent p least q)
  have hint : q / 10 ^ lastExponent p least q =
      ((n * 10 ^ (e - lastExponent p least q).toNat : ℤ) : ℚ) := by
    rw [Int.cast_mul,zpow_units he,← mul_div_assoc,← hq]
  rw [toDigits,hint,halfEven_intCast,← hint,div_mul_cancel₀ _ hpos.ne']

theorem zpow_le_abs_toDigits {k : ℤ} (hk : lastExponent p least q ≤ k) (h : 10 ^ k ≤ |q|) :
    10 ^ k ≤ |toDigits p least q| := by
  have hpos := ten_zpow_pos (lastExponent p least q)
  have hunits : ((10 ^ (k - lastExponent p least q).toNat : ℤ) : ℚ) ≤ |q| / 10 ^ lastExponent p least q := by
    rw [zpow_units hk]
    exact div_le_div_of_nonneg_right h hpos.le
  rw [abs_toDigits,← div_le_iff₀ hpos,← zpow_units hk]
  exact Int.cast_le.mpr (le_halfEven hunits)

theorem abs_toDigits_le_zpow {k : ℤ} (hk : lastExponent p least q ≤ k) (h : |q| ≤ 10 ^ k) :
    |toDigits p least q| ≤ 10 ^ k := by
  have hpos := ten_zpow_pos (lastExponent p least q)
  have hunits : |q| / 10 ^ lastExponent p least q ≤ ((10 ^ (k - lastExponent p least q).toNat : ℤ) : ℚ) := by
    rw [zpow_units hk]
    exact div_le_div_of_nonneg_right h hpos.le
  rw [abs_toDigits,← le_div_iff₀ hpos,← zpow_units hk]
  exact Int.cast_le.mpr (halfEven_le hunits)

theorem log_lt_iff (hq : q ≠ 0) {k : ℤ} : Int.log 10 |q| < k ↔ |q| < 10 ^ k := by
  have h := @Int.lt_zpow_iff_log_lt ℚ _ _ _ _ 10 (by norm_num) k |q| (abs_pos.mpr hq)
  exact_mod_cast h.symm

/-- The greatest multiple of `10 ^ (k - p)` below `10 ^ k`, and half a unit more. -/
def limit (p : ℕ) (k : ℤ) : ℚ := 10 ^ k - 10 ^ (k - p) / 2

theorem zpow_eq_units (p : ℕ) (k : ℤ) : (10 : ℚ) ^ k = (10 ^ p : ℤ) * 10 ^ (k - p) := by
  rw [Int.cast_pow,Int.cast_ofNat,← zpow_natCast,← zpow_add₀ (by norm_num)]
  congr 1
  omega

theorem halfEven_units_lt_iff (hp : 0 < p) {k : ℤ} :
    halfEven (|q| / 10 ^ (k - p)) * (10 : ℚ) ^ (k - p) < 10 ^ k ↔ |q| < limit p k := by
  have hunit := ten_zpow_pos (k - p)
  have hten := zpow_eq_units p k
  have heven : (10 ^ p : ℤ) % 2 = 0 := by
    obtain ⟨m,rfl⟩ : ∃ m, p = m + 1 := ⟨p - 1,by omega⟩
    rw [pow_succ]
    omega
  rw [hten,mul_lt_mul_iff_left₀ hunit,Int.cast_lt,halfEven_lt_iff heven,div_lt_iff₀ hunit,limit,hten]
  constructor <;> intro h <;> linarith

theorem limit_le (p : ℕ) (k : ℤ) : limit p k ≤ 10 ^ k := by
  have hunit := ten_zpow_pos (k - p)
  unfold limit
  linarith

theorem lt_limit (hp : 0 < p) (k : ℤ) : (10 : ℚ) ^ (k - 1) < limit p k := by
  have hprev := ten_zpow_pos (k - 1)
  have hstep : (10 : ℚ) ^ k = 10 * 10 ^ (k - 1) := by
    rw [zpow_sub_one₀ (by norm_num)]
    ring
  have hunit : (10 : ℚ) ^ (k - p) ≤ 10 ^ (k - 1) := zpow_le_zpow_right₀ (by norm_num) (by omega)
  unfold limit
  linarith

theorem units_lt_limit_iff {k n : ℤ} :
    (n : ℚ) * 10 ^ (k - p) < limit p k ↔ (n : ℚ) * 10 ^ (k - p) < 10 ^ k := by
  have hunit := ten_zpow_pos (k - p)
  have hten := zpow_eq_units p k
  refine ⟨fun h => h.trans_le (limit_le p k),fun h => ?_⟩
  rw [hten,mul_lt_mul_iff_left₀ hunit,Int.cast_lt] at h
  have hle : (n : ℚ) ≤ (10 ^ p : ℤ) - 1 := by exact_mod_cast Int.le_sub_one_of_lt h
  have hmul := mul_le_mul_of_nonneg_right hle hunit.le
  unfold limit
  rw [hten]
  linarith

/-- Rounding to `p` digits reaches `10 ^ k` from half a unit of the last digit below it. -/
theorem abs_toDigits_lt_iff (hp : 0 < p) {k : ℤ} (hk : least ≤ k - p) :
    |toDigits p least q| < limit p k ↔ |q| < limit p k := by
  rcases eq_or_ne q 0 with rfl | hq
  · have hzero : halfEven 0 = 0 := halfEven_intCast 0
    simp [toDigits,hzero]
  rcases lt_trichotomy (Int.log 10 |q|) (k - 1) with h | h | h
  · -- a digit less than `10 ^ k`: both are below
    have hle := ((log_lt_iff hq).mp h).le
    have hlast : lastExponent p least q ≤ k - 1 := by unfold lastExponent; omega
    have hrounded := abs_toDigits_le_zpow hlast hle
    have hlimit := lt_limit hp k
    exact iff_of_true (hrounded.trans_lt hlimit) (hle.trans_lt hlimit)
  · have he : lastExponent p least q = k - p := by unfold lastExponent; omega
    rw [abs_toDigits,he,units_lt_limit_iff,halfEven_units_lt_iff hp]
  · -- `|q|` is at least a power of ten that is kept
    have hlog : 10 ^ Int.log 10 |q| ≤ |q| := by
      exact_mod_cast @Int.zpow_log_le_self ℚ _ _ _ _ 10 |q| (by norm_num) (abs_pos.mpr hq)
    have hlast : lastExponent p least q ≤ Int.log 10 |q| := by unfold lastExponent; omega
    have hrounded := zpow_le_abs_toDigits hlast hlog
    have hpow : (10 : ℚ) ^ k ≤ 10 ^ Int.log 10 |q| := zpow_le_zpow_right₀ (by norm_num) (by omega)
    have hlimit := limit_le p k
    exact iff_of_false (by linarith) (by linarith)

/-- A number that has `p` digits and is below `10 ^ k` is a unit below it. -/
theorem abs_lt_limit_of_kept (hp : 0 < p) {k : ℤ} (hk : least ≤ k - p) (hkept : toDigits p least q = q)
    (h : |q| < 10 ^ k) : |q| < limit p k := by
  rcases eq_or_ne q 0 with rfl | hq
  · rw [abs_zero]
    exact (ten_zpow_pos (k - 1)).trans (lt_limit hp k)
  rcases (show Int.log 10 |q| ≤ k - 1 by have := (log_lt_iff hq).mpr h; omega).lt_or_eq with hlog | hlog
  · exact ((log_lt_iff hq).mp hlog).trans (lt_limit hp k)
  · have he : lastExponent p least q = k - p := by unfold lastExponent; omega
    have habs : |toDigits p least q| = _ := abs_toDigits
    rw [hkept,he] at habs
    rw [habs,units_lt_limit_iff,← habs]
    exact h

end StructuredExtractor.Rounding
