import Lagmeter.Number.Double
import Mathlib.Algebra.Order.Field.Power
import Mathlib.Algebra.Order.Field.Rat
import Mathlib.Algebra.Order.Floor.Semifield
import Mathlib.Data.Rat.Floor
import Mathlib.Tactic.FieldSimp
import Mathlib.Tactic.Linarith
import Mathlib.Tactic.LinearCombination
import Mathlib.Tactic.NormNum
import Mathlib.Tactic.Positivity
import Mathlib.Tactic.Ring

/-!
# Rounding keeps the order

A fraction is rounded to a double at the scale of its binary digits: to a whole number of the units of
this scale. Fractions of one scale keep their order since whole numbers do, and fractions of different
scales since a power of two stands between them. So of two fractions the greater one is not rounded to
less, and products of doubles and their whole parts keep the order, too.
-/

namespace Lagmeter.Double

/-! ## Whole numbers -/

theorem roundedQuotient_mono {n d n' d' : Nat} (hd : 0 < d) (hd' : 0 < d') (h : n * d' ≤ n' * d) :
    roundedQuotient n d ≤ roundedQuotient n' d' := by
  have hn := Nat.div_add_mod n d
  have hn' := Nat.div_add_mod n' d'
  have hr := Nat.mod_lt n hd
  have hr' := Nat.mod_lt n' hd'
  have hquotient : n / d ≤ n' / d' := by
    rw [Nat.le_div_iff_mul_le hd']
    refine Nat.le_of_mul_le_mul_right ?_ hd
    calc n / d * d' * d = n / d * d * d' := by ring
      _ ≤ n * d' := Nat.mul_le_mul_right _ (Nat.div_mul_le_self n d)
      _ ≤ n' * d := h
  simp only [roundedQuotient]
  rcases Nat.lt_or_eq_of_le hquotient with hlt | heq
  · split <;> split <;> omega
  · -- Of equal quotients the remainders tell.
    have hremainder : (n % d) * d' ≤ (n' % d') * d := by
      have h1 : n * d' = d * (n / d) * d' + (n % d) * d' := by rw [← Nat.add_mul, hn]
      have h2 : n' * d = d' * (n' / d') * d + (n' % d') * d := by rw [← Nat.add_mul, hn']
      have h3 : d' * (n' / d') * d = d * (n / d) * d' := by rw [heq]; ring
      omega
    rw [← heq]
    have hhalf : d ≤ 2 * (n % d) → d' ≤ 2 * (n' % d') := by
      intro hge
      refine Nat.le_of_mul_le_mul_right ?_ hd
      calc d' * d ≤ d' * (2 * (n % d)) := Nat.mul_le_mul_left _ hge
        _ = 2 * ((n % d) * d') := by ring
        _ ≤ 2 * ((n' % d') * d) := Nat.mul_le_mul_left _ hremainder
        _ = 2 * (n' % d') * d := by ring
    have hmore : d < 2 * (n % d) → d' < 2 * (n' % d') := by
      intro hgt
      refine Nat.lt_of_mul_lt_mul_right (a := d) ?_
      calc d' * d < d' * (2 * (n % d)) := Nat.mul_lt_mul_of_pos_left hgt hd'
        _ = 2 * ((n % d) * d') := by ring
        _ ≤ 2 * ((n' % d') * d) := Nat.mul_le_mul_left _ hremainder
        _ = 2 * (n' % d') * d := by ring
    split <;> split <;> omega

theorem roundedQuotient_le_of_div_le {n d n' d' : Nat} (hd : 0 < d) (hd' : 0 < d')
    (h : (n : ℚ) / d ≤ n' / d') : roundedQuotient n d ≤ roundedQuotient n' d' := by
  refine roundedQuotient_mono hd hd' ?_
  rw [div_le_div_iff₀ (by exact_mod_cast hd) (by exact_mod_cast hd')] at h
  exact_mod_cast h

theorem roundedQuotient_self (k : Nat) : roundedQuotient k 1 = k := by simp [roundedQuotient, Nat.mod_one]

theorem le_roundedQuotient {k n d : Nat} (hd : 0 < d) (h : (k : ℚ) ≤ n / d) : k ≤ roundedQuotient n d := by
  conv_lhs => rw [← roundedQuotient_self k]
  exact roundedQuotient_le_of_div_le Nat.one_pos hd (by simpa using h)

theorem roundedQuotient_le {k n d : Nat} (hd : 0 < d) (h : (n : ℚ) / d ≤ k) : roundedQuotient n d ≤ k := by
  conv_rhs => rw [← roundedQuotient_self k]
  exact roundedQuotient_le_of_div_le hd Nat.one_pos (by simpa using h)

/-! ## Scales -/

theorem zpow_toNat {e : Int} (h : 0 ≤ e) : ((2 ^ e.toNat : Nat) : ℚ) = 2 ^ e := by
  rw [Nat.cast_pow, ← zpow_natCast, Int.toNat_of_nonneg h]
  rfl

theorem log2_bounds {n : Nat} (h : 0 < n) :
    (2 : ℚ) ^ (Nat.log2 n : Int) ≤ n ∧ (n : ℚ) < 2 ^ ((Nat.log2 n : Int) + 1) := by
  have hne : n ≠ 0 := by omega
  constructor
  · exact_mod_cast Nat.log2_self_le hne
  · exact_mod_cast Nat.lt_log2_self

theorem div_bounds {n d : Nat} (hn : 0 < n) (hd : 0 < d) :
    (2 : ℚ) ^ ((Nat.log2 n : Int) - Nat.log2 d - 1) ≤ n / d ∧
      (n : ℚ) / d < 2 ^ ((Nat.log2 n : Int) - Nat.log2 d + 1) := by
  obtain ⟨hnlow, hnhigh⟩ := log2_bounds hn
  obtain ⟨hdlow, hdhigh⟩ := log2_bounds hd
  have hdpos : (0 : ℚ) < d := by exact_mod_cast hd
  constructor
  · rw [le_div_iff₀ hdpos]
    calc (2 : ℚ) ^ ((Nat.log2 n : Int) - Nat.log2 d - 1) * d
      _ ≤ 2 ^ ((Nat.log2 n : Int) - Nat.log2 d - 1) * 2 ^ ((Nat.log2 d : Int) + 1) := by gcongr
      _ = 2 ^ (Nat.log2 n : Int) := by rw [← zpow_add₀ (by norm_num)]; congr 1; ring
      _ ≤ n := hnlow
  · rw [div_lt_iff₀ hdpos]
    calc (n : ℚ) < 2 ^ ((Nat.log2 n : Int) + 1) := hnhigh
      _ = 2 ^ ((Nat.log2 n : Int) - Nat.log2 d + 1) * 2 ^ (Nat.log2 d : Int) := by
        rw [← zpow_add₀ (by norm_num)]; congr 1; ring
      _ ≤ 2 ^ ((Nat.log2 n : Int) - Nat.log2 d + 1) * d := by gcongr

/-- Whether a fraction has 53 digits before the point at a scale, decided in whole numbers. -/
def fits (n d : Nat) (e : Int) : Bool :=
  if 0 ≤ e then Nat.pow 2 52 * Nat.pow 2 e.toNat * d ≤ n
  else Nat.pow 2 52 * d ≤ n * Nat.pow 2 (-e).toNat

theorem fits_iff {n d : Nat} (hd : 0 < d) (e : Int) :
    fits n d e = true ↔ (2 : ℚ) ^ 52 * 2 ^ e ≤ n / d := by
  have hdpos : (0 : ℚ) < d := by exact_mod_cast hd
  rw [le_div_iff₀ hdpos, fits]
  split
  case isTrue h =>
    rw [decide_eq_true_eq, ← zpow_toNat h]
    exact_mod_cast Iff.rfl
  case isFalse h =>
    have hneg : ((2 ^ (-e).toNat : Nat) : ℚ) = 2 ^ (-e) := zpow_toNat (by omega)
    have hone : (2 : ℚ) ^ e * 2 ^ (-e) = 1 := by rw [← zpow_add₀ (by norm_num), add_neg_cancel, zpow_zero]
    have hpos : (0 : ℚ) < 2 ^ (-e) := by positivity
    rw [decide_eq_true_eq, ← mul_le_mul_iff_left₀ hpos]
    have hleft : (2 : ℚ) ^ 52 * 2 ^ e * d * 2 ^ (-e) = 2 ^ 52 * d := by linear_combination (2 ^ 52 * d) * hone
    rw [hleft, ← hneg]
    exact_mod_cast Iff.rfl

/-- At its scale a fraction has 53 digits before the point, or less than that at the lowest scale. -/
structure Scaled (x : ℚ) (e : Int) : Prop where
  lowest : -1074 ≤ e
  low : -1074 < e → 2 ^ 52 * 2 ^ e ≤ x
  high : x < 2 ^ 53 * 2 ^ e

theorem scaled_max {x : ℚ} {e : Int} (hlow : 2 ^ 52 * 2 ^ e ≤ x) (hhigh : x < 2 ^ 53 * 2 ^ e) :
    Scaled x (max e (-1074)) := by
  rcases le_total (-1074) e with h | h
  · rw [max_eq_left h]
    exact ⟨h, fun _ => hlow, hhigh⟩
  · rw [max_eq_right h]
    have hpow : (2 : ℚ) ^ e ≤ 2 ^ (-1074 : Int) := zpow_le_zpow_right₀ (by norm_num) h
    refine ⟨le_refl _, fun hlt => absurd hlt (lt_irrefl _), hhigh.trans_le ?_⟩
    gcongr

theorem scaled_binaryScale {n d : Nat} (hn : 0 < n) (hd : 0 < d) : Scaled (n / d) (binaryScale n d) := by
  obtain ⟨hlow, hhigh⟩ := div_bounds hn hd
  have hshift (k e : Int) : (2 : ℚ) ^ (k + e) = 2 ^ k * 2 ^ e := zpow_add₀ (by norm_num) k e
  set guess : Int := (Nat.log2 n : Int) - Nat.log2 d - 52 with hguess
  have hscale : binaryScale n d = max (if fits n d guess then guess else guess - 1) (-1074) := rfl
  rw [hscale]
  split
  case isTrue h =>
    refine scaled_max ((fits_iff hd guess).mp h) (hhigh.trans_le (le_of_eq ?_))
    rw [show (Nat.log2 n : Int) - Nat.log2 d + 1 = 53 + guess by omega, hshift]
    norm_num
  case isFalse h =>
    rw [fits_iff hd, not_le] at h
    refine scaled_max ?_ ?_
    · refine le_trans (le_of_eq ?_) hlow
      rw [show (Nat.log2 n : Int) - Nat.log2 d - 1 = 52 + (guess - 1) by omega, hshift]
      norm_num
    · refine h.trans_le (le_of_eq ?_)
      rw [show guess = 1 + (guess - 1) by omega, hshift]
      norm_num
      ring

theorem Scaled.le {x y : ℚ} {e f : Int} (hx : Scaled x e) (hy : Scaled y f) (h : x ≤ y) : e ≤ f := by
  by_contra hlt
  rw [not_le] at hlt
  have hlow := hx.low (lt_of_le_of_lt hy.lowest hlt)
  have hpow : (2 : ℚ) ^ (f + 1) ≤ 2 ^ e := zpow_le_zpow_right₀ (by norm_num) (by omega)
  rw [zpow_add₀ (by norm_num), zpow_one] at hpow
  have hhigh := hy.high
  have hpos : (0 : ℚ) < 2 ^ f := by positivity
  linarith

/-! ## Units of a scale -/

/-- A fraction rounded to whole units of a scale. -/
def units (n d : Nat) (e : Int) : Nat :=
  if 0 ≤ e then roundedQuotient n (d * Nat.pow 2 e.toNat) else roundedQuotient (n * Nat.pow 2 (-e).toNat) d

theorem exists_units_eq (n : Nat) {d : Nat} (hd : 0 < d) (e : Int) :
    ∃ a b, 0 < b ∧ units n d e = roundedQuotient a b ∧ (a : ℚ) / b = n / d / 2 ^ e := by
  rcases lt_or_ge e 0 with h | h
  · refine ⟨_, _, hd, if_neg (not_le.mpr h), ?_⟩
    have hpow : ((Nat.pow 2 (-e).toNat : Nat) : ℚ) = (2 ^ e)⁻¹ := by
      rw [← zpow_neg]
      exact zpow_toNat (by omega)
    rw [Nat.cast_mul, hpow]
    ring
  · refine ⟨_, _, Nat.mul_pos hd (Nat.pow_pos (by norm_num)), if_pos h, ?_⟩
    have hpow : ((2 ^ e.toNat : Nat) : ℚ) = 2 ^ e := zpow_toNat h
    rw [Nat.cast_mul, hpow, div_div]

section

variable {n d n' d' : Nat} {e : Int}

theorem units_mono (hd : 0 < d) (hd' : 0 < d') (h : (n : ℚ) / d ≤ n' / d') (e : Int) :
    units n d e ≤ units n' d' e := by
  obtain ⟨a, b, hb, hunits, hvalue⟩ := exists_units_eq n hd e
  obtain ⟨a', b', hb', hunits', hvalue'⟩ := exists_units_eq n' hd' e
  rw [hunits, hunits']
  refine roundedQuotient_le_of_div_le hb hb' ?_
  rw [hvalue, hvalue']
  gcongr

theorem le_units (hd : 0 < d) {k : Nat} (h : (k : ℚ) * 2 ^ e ≤ n / d) : k ≤ units n d e := by
  obtain ⟨a, b, hb, hunits, hvalue⟩ := exists_units_eq n hd e
  rw [hunits]
  exact le_roundedQuotient hb (by rwa [hvalue, le_div_iff₀ (by positivity)])

theorem units_le (hd : 0 < d) {k : Nat} (h : (n : ℚ) / d ≤ k * 2 ^ e) : units n d e ≤ k := by
  obtain ⟨a, b, hb, hunits, hvalue⟩ := exists_units_eq n hd e
  rw [hunits]
  exact roundedQuotient_le hb (by rwa [hvalue, div_le_iff₀ (by positivity)])

/-! ## The nearest double -/

/-- The place of the nearest double among all doubles without a sign, if there were no greatest one. -/
def position (n d : Nat) : Nat :=
  (binaryScale n d + 1074).toNat * Nat.pow 2 52 + units n d (binaryScale n d)

theorem position_mono (hn : 0 < n) (hn' : 0 < n') (hd : 0 < d) (hd' : 0 < d') (h : (n : ℚ) / d ≤ n' / d') :
    position n d ≤ position n' d' := by
  have hx := scaled_binaryScale hn hd
  have hy := scaled_binaryScale hn' hd'
  unfold position
  rcases (hx.le hy h).lt_or_eq with hlt | heq
  · -- A power of two stands between the two.
    have hbelow : units n d (binaryScale n d) ≤ 2 ^ 53 := units_le hd (by exact_mod_cast hx.high.le)
    have habove : 2 ^ 52 ≤ units n' d' (binaryScale n' d') :=
      le_units hd' (by exact_mod_cast hy.low (lt_of_le_of_lt hx.lowest hlt))
    have hlowest := hx.lowest
    rw [show Nat.pow 2 52 = 2 ^ 52 from rfl]
    omega
  · rw [heq]
    exact Nat.add_le_add_left (units_mono hd hd' h _) _

end

theorem bits_ofRatio {n : Nat} (hn : 0 < n) (d : Nat) :
    (ofRatio n d).bits.toNat = min (position n d) 0x7ff0000000000000 := by
  have hratio : ofRatio n d =
      if position n d < 0x7ff0000000000000 then ⟨UInt64.ofNat (position n d)⟩ else infinity := if_neg hn.ne'
  rw [hratio]
  split
  case isTrue h =>
    rw [min_eq_left h.le]
    exact UInt64.toNat_ofNat_of_lt' (h.trans (by decide))
  case isFalse h =>
    rw [min_eq_right (not_lt.mp h)]
    rfl

theorem bits_ofRatio_mono {n d n' d' : Nat} (hd : 0 < d) (hd' : 0 < d') (h : (n : ℚ) / d ≤ n' / d') :
    (ofRatio n d).bits.toNat ≤ (ofRatio n' d').bits.toNat := by
  rcases Nat.eq_zero_or_pos n with rfl | hn
  · exact Nat.zero_le _
  · have hn' : 0 < n' := by
      rw [div_le_div_iff₀ (by exact_mod_cast hd) (by exact_mod_cast hd')] at h
      have hpos : 0 < n' * d := (Nat.mul_pos hn hd').trans_le (by exact_mod_cast h)
      exact Nat.pos_of_mul_pos_right hpos
    rw [bits_ofRatio hn, bits_ofRatio hn']
    exact min_le_min_right _ (position_mono hn hn' hd hd' h)

/-! ## Values -/

/-- What a finite number is without its sign. -/
def magnitude (x : Double) : ℚ := x.significand * 2 ^ x.scale

/-- What a finite number is. -/
def value (x : Double) : ℚ := if x.isNegative then -x.magnitude else x.magnitude

theorem ratio_pos (x : Double) : 0 < x.ratio.2 := by
  unfold ratio
  split
  · exact Nat.one_pos
  · exact Nat.pow_pos (by norm_num)

theorem ratio_div (x : Double) : (x.ratio.1 : ℚ) / x.ratio.2 = x.magnitude := by
  unfold ratio magnitude
  split
  case isTrue h =>
    have hpow : ((Nat.pow 2 x.scale.toNat : Nat) : ℚ) = 2 ^ x.scale := zpow_toNat h
    rw [Nat.cast_mul, hpow, Nat.cast_one, div_one]
  case isFalse h =>
    have hpow : ((Nat.pow 2 (-x.scale).toNat : Nat) : ℚ) = (2 ^ x.scale)⁻¹ := by
      rw [← zpow_neg]
      exact zpow_toNat (by omega)
    rw [hpow, div_inv_eq_mul]

theorem magnitude_nonneg (x : Double) : 0 ≤ x.magnitude := by
  unfold magnitude
  positivity

/-- A finite number without a sign is `units` of a scale, with `k` scales below. -/
theorem exists_magnitude_eq {x : Double} (hx : x.bits.toNat < 0x7ff0000000000000) :
    ∃ k units : Nat, x.bits.toNat = k * 2 ^ 52 + units ∧ units < 2 ^ 53 ∧ (0 < k → 2 ^ 52 ≤ units) ∧
      x.magnitude = units * 2 ^ ((k : Int) - 1074) := by
  have hfield : x.exponentField = x.bits.toNat / 2 ^ 52 :=
    Nat.mod_eq_of_lt (by show x.bits.toNat / 2 ^ 52 < 2 ^ 11; omega)
  have hfraction : x.fraction = x.bits.toNat % 2 ^ 52 := rfl
  rcases Nat.eq_zero_or_pos x.exponentField with h | h
  · refine ⟨0, x.fraction, by omega, by omega, fun h => absurd h (lt_irrefl 0), ?_⟩
    rw [magnitude, significand, scale, if_pos h, if_pos h]
    norm_num
  · refine ⟨x.exponentField - 1, 2 ^ 52 + x.fraction, by omega, by omega, fun _ => Nat.le_add_right _ _, ?_⟩
    rw [magnitude, significand, scale, if_neg h.ne', if_neg h.ne', Nat.cast_sub h]
    congr 2
    push_cast
    ring

theorem magnitude_mono {x y : Double} (h : x.bits.toNat ≤ y.bits.toNat)
    (hy : y.bits.toNat < 0x7ff0000000000000) : x.magnitude ≤ y.magnitude := by
  obtain ⟨k, u, hx, hu, hulow, hxvalue⟩ := exists_magnitude_eq (h.trans_lt hy)
  obtain ⟨l, v, hy, hv, hvlow, hyvalue⟩ := exists_magnitude_eq hy
  rw [hxvalue, hyvalue]
  rcases lt_or_ge k l with hlt | hge
  · have hpow : (2 : ℚ) ^ ((k : Int) + 1 - 1074) ≤ 2 ^ ((l : Int) - 1074) :=
      zpow_le_zpow_right₀ (by norm_num) (by omega)
    have hv' := hvlow (by omega)
    calc (u : ℚ) * 2 ^ ((k : Int) - 1074)
      _ ≤ 2 ^ 53 * 2 ^ ((k : Int) - 1074) := by gcongr; exact_mod_cast hu.le
      _ = 2 ^ 52 * 2 ^ ((k : Int) + 1 - 1074) := by
        rw [show (k : Int) + 1 - 1074 = 1 + (k - 1074) by ring, zpow_add₀ (by norm_num)]
        ring
      _ ≤ v * 2 ^ ((l : Int) - 1074) := by gcongr; exact_mod_cast hv'
  · -- The scales cannot be in another order than the bits.
    obtain rfl : k = l := by omega
    have huv : u ≤ v := by omega
    gcongr

theorem isNegative_eq_false {x : Double} (hx : x.bits.toNat ≤ 0x7ff0000000000000) : x.isNegative = false :=
  decide_eq_false (by show ¬ x.bits.toNat ≥ 2 ^ 63; omega)

theorem isFinite_of_lt {x : Double} (hx : x.bits.toNat < 0x7ff0000000000000) : x.isFinite = true := by
  have hfield : ¬ x.bits.toNat / 2 ^ 52 % 2 ^ 11 = 2047 := by omega
  exact decide_eq_true hfield

theorem magnitude_eq_zero_iff {x : Double} : x.magnitude = 0 ↔ x.isZero = true := by
  have hpow : (2 : ℚ) ^ x.scale ≠ 0 := by positivity
  rw [magnitude, mul_eq_zero, or_iff_left hpow, Nat.cast_eq_zero, significand_eq_zero_iff]

theorem magnitude_eq_value {x : Double} (h : 0 ≤ x.value) : x.magnitude = x.value := by
  have hpos := x.magnitude_nonneg
  unfold value at h ⊢
  split
  case isFalse => rfl
  case isTrue hneg =>
    rw [if_pos hneg] at h
    linarith

theorem isBelowZero_eq_false_iff {x : Double} : x.isBelowZero = false ↔ 0 ≤ x.value := by
  have hpos := x.magnitude_nonneg
  unfold isBelowZero value
  cases x.isNegative with
  | false => simp [hpos]
  | true =>
    rw [if_pos rfl, neg_nonneg, hpos.ge_iff_eq', magnitude_eq_zero_iff]
    simp

/-! ## Whole parts -/

theorem div_le_div_of_le {n d n' d' : Nat} (h : (n : ℚ) / d ≤ n' / d') : n / d ≤ n' / d' := by
  rw [← Nat.floor_div_eq_div (K := ℚ) n d, ← Nat.floor_div_eq_div (K := ℚ) n' d']
  exact Nat.floor_mono h

theorem wholeWord_le (x : Double) : x.wholeWord ≤ 2 ^ 64 - 1 := by
  unfold wholeWord
  split
  · exact Nat.zero_le _
  · split
    · exact le_refl _
    · exact min_le_right _ _

theorem wholeWord_eq {x : Double} (hx : x.bits.toNat < 0x7ff0000000000000) :
    x.wholeWord = min (x.ratio.1 / x.ratio.2) (2 ^ 64 - 1) := by
  rw [wholeWord, isNaN_eq_false (isFinite_of_lt hx), isNegative_eq_false hx.le,
    isInfinite_eq_false (isFinite_of_lt hx)]
  rfl

theorem eq_infinity_of_bits {x : Double} (h : x.bits.toNat = 0x7ff0000000000000) : x = infinity :=
  congrArg Double.mk (UInt64.toNat_inj.mp h)

theorem wholeWord_mono {x y : Double} (h : x.bits.toNat ≤ y.bits.toNat)
    (hy : y.bits.toNat ≤ 0x7ff0000000000000) : x.wholeWord ≤ y.wholeWord := by
  rcases hy.lt_or_eq with hlt | heq
  · rw [wholeWord_eq hlt, wholeWord_eq (h.trans_lt hlt)]
    refine min_le_min_right _ (div_le_div_of_le ?_)
    rw [ratio_div, ratio_div]
    exact magnitude_mono h hlt
  · rw [eq_infinity_of_bits heq]
    exact x.wholeWord_le

/-- Rounding is to the nearest whole number, and a half is rounded up. -/
theorem nearestWord_eq {x : Double} (hx : x.bits.toNat < 0x7ff0000000000000) :
    x.nearestWord = min ⌊x.value + 1 / 2⌋₊ (2 ^ 64 - 1) := by
  have hpos := x.ratio_pos
  have hhalf : x.value + 1 / 2 = ((2 * x.ratio.1 + x.ratio.2 : Nat) : ℚ) / (2 * x.ratio.2 : Nat) := by
    have hne : (x.ratio.2 : ℚ) ≠ 0 := by exact_mod_cast hpos.ne'
    rw [value, isNegative_eq_false hx.le, if_neg Bool.false_ne_true, ← ratio_div]
    push_cast
    field_simp
  rw [nearestWord, isNaN_eq_false (isFinite_of_lt hx), isNegative_eq_false hx.le,
    isInfinite_eq_false (isFinite_of_lt hx), hhalf, Nat.floor_div_eq_div]
  rfl

/-! ## Products -/

theorem bits_ofRatio_le (n d : Nat) : (ofRatio n d).bits.toNat ≤ 0x7ff0000000000000 := by
  rcases Nat.eq_zero_or_pos n with rfl | hn
  · exact Nat.zero_le _
  · rw [bits_ofRatio hn]
    exact min_le_right _ _

theorem wholeWord_times_mono (x : Double) {y z : Double} (h : y.magnitude ≤ z.magnitude) :
    (x.times y).wholeWord ≤ (x.times z).wholeWord := by
  have hproduct : ∀ y : Double, ((x.ratio.1 * y.ratio.1 : Nat) : ℚ) / (x.ratio.2 * y.ratio.2 : Nat) =
      x.magnitude * y.magnitude := by
    intro y
    rw [Nat.cast_mul, Nat.cast_mul, mul_div_mul_comm, ratio_div, ratio_div]
  refine wholeWord_mono (bits_ofRatio_mono ?_ ?_ ?_) (bits_ofRatio_le _ _)
  · exact Nat.mul_pos x.ratio_pos y.ratio_pos
  · exact Nat.mul_pos x.ratio_pos z.ratio_pos
  · rw [hproduct, hproduct]
    exact mul_le_mul_of_nonneg_left h x.magnitude_nonneg

end Lagmeter.Double
