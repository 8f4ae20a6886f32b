import Mathlib.Algebra.Order.Field.Power
import Mathlib.Algebra.Order.Field.Rat
import Mathlib.Tactic.Linarith
import Mathlib.Tactic.Positivity
import ScanAlign.Number.Functions
import ScanAlign.Proofs.Number.Arithmetic

namespace ScanAlign

theorem Dyadic.isPlus_toSingle (x : Dyadic) : x.toSingle.IsPlus := ⟨Single.isNaN_ofQuanta, rfl⟩

namespace Single

variable {x y : Single}

theorem hypotenuse_of_numbers (xNumber : x.isNaN = false) (yNumber : y.isNaN = false) :
    x.hypotenuse y = if x.isInfinite || y.isInfinite then infinity false
      else (x.toDyadic * x.toDyadic + y.toDyadic * y.toDyadic).sqrt.toSingle := by
  rw [hypotenuse, xNumber, yNumber]
  rfl

theorem hypotenuse_isPlus (xNumber : x.isNaN = false) (yNumber : y.isNaN = false) :
    (x.hypotenuse y).IsPlus := by
  rw [hypotenuse_of_numbers xNumber yNumber]
  split
  · exact ⟨by decide, rfl⟩
  · exact Dyadic.isPlus_toSingle _

theorem hypotenuse_of_isNaN (undefined : x.isNaN = true ∨ y.isNaN = true) :
    x.hypotenuse y = infinity false ∨ (x.hypotenuse y).isNaN = true := by
  unfold hypotenuse
  split
  · exact .inl rfl
  · rw [if_pos (Bool.or_eq_true_iff.mpr undefined)]
    refine .inr ?_
    change (if x.isNaN then x else if y.isNaN then y else addNumbers x y).isNaN = true
    cases xNumber : x.isNaN with
    | true => simp [xNumber]
    | false => simp [undefined.resolve_left (by rw [xNumber]; exact Bool.false_ne_true)]

theorem hypotenuse_cases (x y : Single) :
    (x.hypotenuse y).isNaN = true ∨ (x.hypotenuse y).IsPlus := by
  by_cases undefined : x.isNaN = true ∨ y.isNaN = true
  · rcases hypotenuse_of_isNaN undefined with boundless | nan
    · rw [boundless]
      exact .inr ⟨by decide, rfl⟩
    · exact .inl nan
  · rw [not_or, Bool.not_eq_true, Bool.not_eq_true] at undefined
    exact .inr (hypotenuse_isPlus undefined.1 undefined.2)

theorem numbers_of_hypotenuse (finite : (x.hypotenuse y).isFinite = true) :
    x.isNaN = false ∧ y.isNaN = false := by
  rw [← Bool.not_eq_true, ← Bool.not_eq_true, ← not_or]
  intro undefined
  rcases hypotenuse_of_isNaN undefined with boundless | nan
  · rw [boundless] at finite
    exact absurd finite (by decide)
  · rw [(isFinite_iff.mp finite).1] at nan
    cases nan

theorem isFinite_of_hypotenuse (finite : (x.hypotenuse y).isFinite = true) :
    x.isFinite = true ∧ y.isFinite = true := by
  obtain ⟨xNumber, yNumber⟩ := numbers_of_hypotenuse finite
  rw [hypotenuse_of_numbers xNumber yNumber] at finite
  split at finite
  · exact absurd finite (by decide)
  · rename_i bounded
    rw [Bool.or_eq_true, not_or, Bool.not_eq_true, Bool.not_eq_true] at bounded
    exact ⟨isFinite_iff.mpr ⟨xNumber, bounded.1⟩, isFinite_iff.mpr ⟨yNumber, bounded.2⟩⟩

theorem hypotenuse_abs (xNumber : x.isNaN = false) (yNumber : y.isNaN = false) :
    x.abs.hypotenuse y.abs = x.hypotenuse y := by
  rw [hypotenuse_of_numbers xNumber yNumber, hypotenuse_of_numbers (x := x.abs) (y := y.abs) xNumber yNumber]
  rfl

theorem abs_of_isZero (zero : x.isZero = true) : x.abs = Single.zero :=
  eq_of_parts rfl (isZero_iff.mp zero)

theorem hypotenuse_of_isZero (xZero : x.isZero = true) (yZero : y.isZero = true) :
    x.hypotenuse y = Single.zero := by
  have number {z : Single} (zero : z.isZero = true) : z.isNaN = false :=
    (isFinite_iff.mp (isFinite_of_isZero zero)).1
  rw [← hypotenuse_abs (number xZero) (number yZero), abs_of_isZero xZero, abs_of_isZero yZero]
  decide +kernel

end Single

theorem two_zpow_pos (k : Int) : (0 : ℚ) < 2 ^ k := zpow_pos (by norm_num) k

theorem two_zpow_add (j k : Int) : (2 : ℚ) ^ (j + k) = 2 ^ j * 2 ^ k := zpow_add₀ (by norm_num) j k

theorem two_zpow_le_iff {j k : Int} : (2 : ℚ) ^ j ≤ 2 ^ k ↔ j ≤ k :=
  zpow_le_zpow_iff_right₀ (by norm_num)

-- A power of two moves to the other side of a comparison as one with the opposite exponent.
theorem scale_le_iff {a b c : Nat} {power : Int} :
    scale a power ≤ c * scale b (-power) ↔ (a : ℚ) * 2 ^ power ≤ c * b := by
  unfold scale
  rw [twoPower_eq, twoPower_eq]
  rcases Int.le_total 0 power with nonneg | neg
  · obtain ⟨n, rfl⟩ := Int.eq_ofNat_of_zero_le nonneg
    rw [show (-(n : Int)).toNat = 0 by omega, Int.toNat_natCast, zpow_natCast]
    simp only [Nat.pow_zero, Nat.mul_one]
    exact_mod_cast Iff.rfl
  · obtain ⟨n, same⟩ := Int.eq_ofNat_of_zero_le (Int.neg_nonneg_of_nonpos neg)
    rw [same, show power = -(n : Int) by omega, show (-(n : Int)).toNat = 0 by omega,
      Int.toNat_natCast, zpow_neg, zpow_natCast, ← div_eq_mul_inv, div_le_iff₀ (by positivity)]
    simp only [Nat.pow_zero, Nat.mul_one, ← Nat.mul_assoc]
    exact_mod_cast Iff.rfl

theorem mul_scale (c n : Nat) (power : Int) : scale (c * n) power = c * scale n power :=
  Nat.mul_assoc c n _

theorem scale_pos {n : Nat} (positive : 0 < n) (power : Int) : 0 < scale n power :=
  Nat.mul_pos positive (twoPower_pos _)

theorem le_scale_iff {a b c : Nat} {power : Int} :
    c * scale b (-power) ≤ scale a power ↔ (c : ℚ) * b ≤ a * 2 ^ power := by
  have turned : scale (c * b) (-power) ≤ 1 * scale a (- -power) ↔
      ((c * b : Nat) : ℚ) * 2 ^ (-power) ≤ (1 : Nat) * a := scale_le_iff
  rw [neg_neg, Nat.one_mul, mul_scale, Nat.cast_mul, Nat.cast_one, one_mul, zpow_neg,
    ← div_eq_mul_inv, div_le_iff₀ (two_zpow_pos power)] at turned
  exact turned

theorem leadingPower_le {num den : Nat} (positive : 0 < num) :
    (den : ℚ) * 2 ^ leadingPower num den ≤ num := by
  unfold leadingPower
  dsimp only
  split
  · rename_i below
    have guess := (scale_le_iff (c := 1)).mp (by rwa [Nat.one_mul])
    rwa [Nat.cast_one, one_mul] at guess
  · have top : (den : ℚ) ≤ 2 ^ ((den.log2 : Int) + 1) := by
      have length : den < 2 ^ (den.log2 + 1) := Nat.lt_log2_self
      rw [← Nat.cast_succ, zpow_natCast]
      exact_mod_cast Nat.le_of_lt length
    have bottom : (2 : ℚ) ^ (num.log2 : Int) ≤ num := by
      rw [zpow_natCast]
      exact_mod_cast Nat.log2_self_le (by omega)
    calc (den : ℚ) * 2 ^ ((num.log2 : Int) - den.log2 - 1)
        ≤ 2 ^ ((den.log2 : Int) + 1) * 2 ^ ((num.log2 : Int) - den.log2 - 1) :=
          mul_le_mul_of_nonneg_right top (two_zpow_pos _).le
      _ = 2 ^ (num.log2 : Int) := by
          rw [← two_zpow_add]
          congr 1
          omega
      _ ≤ num := bottom

namespace Dyadic

variable {x y : Dyadic} {n num den : Nat} {e k l : Int}

def toRat (x : Dyadic) : ℚ := x.mantissa * 2 ^ x.exponent

theorem toRat_nonneg (x : Dyadic) : 0 ≤ x.toRat :=
  mul_nonneg (Nat.cast_nonneg _) (two_zpow_pos _).le

theorem toRat_le {mantissa j : Nat} (le : mantissa ≤ 2 ^ j) (same : j + e = k) :
    (⟨mantissa, e⟩ : Dyadic).toRat ≤ 2 ^ k := by
  rw [← same, two_zpow_add, zpow_natCast]
  exact mul_le_mul_of_nonneg_right (by exact_mod_cast le) (two_zpow_pos e).le

theorem whole_le_power (le : (n : ℚ) * 2 ^ e ≤ 2 ^ k) (positive : 0 < n) :
    ∃ j : Nat, k = j + e ∧ n ≤ 2 ^ j := by
  have one : (1 : ℚ) ≤ n := by exact_mod_cast positive
  have order : e ≤ k := by
    rw [← two_zpow_le_iff]
    exact (le_mul_of_one_le_left (two_zpow_pos e).le one).trans le
  obtain ⟨j, same⟩ := Int.eq_ofNat_of_zero_le (Int.sub_nonneg_of_le order)
  obtain rfl : k = j + e := by omega
  refine ⟨j, rfl, ?_⟩
  rw [two_zpow_add, zpow_natCast] at le
  exact_mod_cast le_of_mul_le_mul_right le (two_zpow_pos e)

theorem toRat_ofScaled_le (le : (n : ℚ) * 2 ^ e ≤ 2 ^ k) : (ofScaled n e).toRat ≤ 2 ^ k := by
  rcases Nat.eq_zero_or_pos n with rfl | positive
  · have none : (ofScaled 0 e).mantissa = 0 := rfl
    rw [toRat, none, Nat.cast_zero, zero_mul]
    exact (two_zpow_pos k).le
  · obtain ⟨j, rfl, whole⟩ := whole_le_power le positive
    have length : n.log2 < j + 1 := by
      rw [Nat.log2_lt (by omega)]
      exact Nat.lt_of_le_of_lt whole (Nat.pow_lt_pow_right (by decide) (Nat.lt_succ_self j))
    refine toRat_le (j := j - (n.log2 - 52)) (roundDiv_le (twoPower_pos _) ?_) (by omega)
    rw [twoPower_eq, ← Nat.pow_add, Nat.sub_add_cancel (by omega)]
    exact whole

theorem toRat_mul_le (one : x.toRat ≤ 2 ^ k) (two : y.toRat ≤ 2 ^ l) :
    (x * y).toRat ≤ 2 ^ (k + l) := by
  apply toRat_ofScaled_le
  calc ((x.mantissa * y.mantissa : Nat) : ℚ) * 2 ^ (x.exponent + y.exponent)
      = x.toRat * y.toRat := by
        rw [toRat, toRat, Nat.cast_mul, two_zpow_add]
        ring
    _ ≤ 2 ^ k * 2 ^ l := mul_le_mul one two y.toRat_nonneg (two_zpow_pos k).le
    _ = 2 ^ (k + l) := (two_zpow_add k l).symm

theorem leading_le {bound : ℚ} (numPos : 0 < num) (denPos : 0 < den)
    (le : (num : ℚ) * 2 ^ e ≤ bound * den) : (2 : ℚ) ^ (leadingPower num den + e) ≤ bound := by
  have leading : (den : ℚ) * 2 ^ leadingPower num den ≤ num := leadingPower_le numPos
  have positive : (0 : ℚ) < den := by exact_mod_cast denPos
  refine le_of_mul_le_mul_right ?_ positive
  calc (2 : ℚ) ^ (leadingPower num den + e) * den = den * 2 ^ leadingPower num den * 2 ^ e := by
        rw [two_zpow_add]
        ring
    _ ≤ num * 2 ^ e := mul_le_mul_of_nonneg_right leading (two_zpow_pos e).le
    _ ≤ bound * den := le

theorem toRat_ofRatio_le (positive : 0 < den) (le : (num : ℚ) * 2 ^ e ≤ 2 ^ k * den) :
    (ofRatio num den e).toRat ≤ 2 ^ k := by
  unfold ofRatio
  dsimp only
  rcases Nat.eq_zero_or_pos num with rfl | numPos
  · have none (power : Int) (d : Nat) (h : 0 < d) : roundDiv (scale 0 power) d = 0 := by
      rw [scale, Nat.zero_mul]
      exact Nat.le_zero.mp (roundDiv_le h (Nat.zero_le _))
    rw [toRat, none _ _ (scale_pos positive _), Nat.cast_zero, zero_mul]
    exact (two_zpow_pos k).le
  · have order := two_zpow_le_iff.mp (leading_le numPos positive le)
    generalize leadingPower num den = p at *
    obtain ⟨j, same⟩ := Int.eq_ofNat_of_zero_le (show 0 ≤ 52 - p + (k - e) by omega)
    refine toRat_le (j := j) (roundDiv_le (scale_pos positive _) (scale_le_iff.mpr ?_)) (by omega)
    have exponents : (2 : ℚ) ^ (52 - p) * 2 ^ k = 2 ^ j * 2 ^ e := by
      rw [← zpow_natCast, ← two_zpow_add, ← two_zpow_add]
      congr 1
      omega
    refine le_of_mul_le_mul_right ?_ (two_zpow_pos e)
    calc (num : ℚ) * 2 ^ (52 - p) * 2 ^ e = num * 2 ^ e * 2 ^ (52 - p) := by ring
      _ ≤ 2 ^ k * den * 2 ^ (52 - p) := mul_le_mul_of_nonneg_right le (two_zpow_pos _).le
      _ = 2 ^ (52 - p) * 2 ^ k * den := by ring
      _ = ((2 ^ j : Nat) : ℚ) * den * 2 ^ e := by
          rw [exponents, Nat.cast_pow]
          push_cast
          ring

theorem toRat_div_le (positive : 0 < y.mantissa) (le : x.toRat ≤ 2 ^ k * y.toRat) :
    (x / y).toRat ≤ 2 ^ k := by
  change (if x.mantissa = 0 then zero else ofRatio x.mantissa y.mantissa
    (x.exponent - y.exponent)).toRat ≤ _
  split
  · rw [toRat, zero, Nat.cast_zero, zero_mul]
    exact (two_zpow_pos k).le
  · apply toRat_ofRatio_le positive
    refine le_of_mul_le_mul_right ?_ (two_zpow_pos y.exponent)
    rw [mul_assoc, ← two_zpow_add, Int.sub_add_cancel, mul_assoc]
    exact le

theorem ofScaled_of_lt (short : n < 2 ^ 53) (e : Int) : ofScaled n e = ⟨n, e⟩ := by
  have none : n.log2 - 52 = 0 := by
    rcases Nat.eq_zero_or_pos n with rfl | positive
    · decide
    · have length := (Nat.log2_lt (by omega)).mpr short
      omega
  unfold ofScaled
  rw [none]
  simp [twoPower_eq, roundDiv_one]

theorem toRat_toDyadic (z : Single) : z.toDyadic.toRat = z.quanta * 2 ^ (-149 : Int) := by
  rw [Single.quanta_eq, toRat, Single.toDyadic, Int.sub_eq_add_neg, two_zpow_add, zpow_natCast]
  push_cast
  ring

theorem magnitude_toSingle_le {z : Single} (le : x.toRat ≤ z.quanta * 2 ^ (-149 : Int)) :
    x.toSingle.magnitude ≤ z.magnitude := by
  apply Single.magnitude_ofQuanta_le Nat.one_pos
  rw [Nat.one_mul]
  have whole : scale x.mantissa (x.exponent + 149) ≤ z.quanta * scale 1 (-(x.exponent + 149)) :=
    scale_le_iff.mpr ?_
  · unfold scale at whole
    rwa [twoPower_eq, twoPower_eq, Nat.one_mul] at whole
  · rw [two_zpow_add, ← mul_assoc, Nat.cast_one, mul_one]
    calc (x.mantissa : ℚ) * 2 ^ x.exponent * 2 ^ (149 : Int)
        ≤ z.quanta * 2 ^ (-149 : Int) * 2 ^ (149 : Int) :=
          mul_le_mul_of_nonneg_right le (two_zpow_pos _).le
      _ = z.quanta := by
          rw [mul_assoc, ← two_zpow_add, Int.add_left_neg, zpow_zero, mul_one]

theorem isFinite_toSingle (le : x.toRat ≤ 2 ^ (64 : Int)) : x.toSingle.isFinite = true := by
  let large : Single := ⟨false, 191 * 2 ^ 23, by decide⟩
  have quanta : large.quanta = 2 ^ 213 := by decide +kernel
  have bounded : x.toSingle.magnitude ≤ large.magnitude := by
    apply magnitude_toSingle_le
    rw [quanta]
    refine le.trans (le_of_eq ?_)
    norm_num
  rw [Single.isFinite_iff_lt]
  exact Nat.lt_of_le_of_lt bounded (by decide)

theorem inverseSine_le {t term : Nat} (small : t ≤ 2 ^ 128) (terms k : Nat) :
    Series.inverseSine t term terms k ≤ terms * term := by
  induction terms generalizing term k with
  | zero => exact Nat.zero_le _
  | succ terms ih =>
    have product : Series.times term t ≤ term := by
      rw [Series.times, Nat.shiftRight_eq_div_pow]
      exact Nat.div_le_of_le_mul (by rw [Nat.mul_comm]; exact Nat.mul_le_mul_right _ small)
    have next : Series.times term t * (2 * k + 1) / (2 * k + 2) ≤ term :=
      Nat.div_le_of_le_mul (by nlinarith)
    calc term / (2 * k + 1) +
          Series.inverseSine t (Series.times term t * (2 * k + 1) / (2 * k + 2)) terms (k + 1)
        ≤ term + terms * (Series.times term t * (2 * k + 1) / (2 * k + 2)) :=
          Nat.add_le_add (Nat.div_le_self _ _) (ih (k + 1))
      _ ≤ term + terms * term := Nat.add_le_add_left (Nat.mul_le_mul_left _ next) _
      _ = (terms + 1) * term := by rw [Nat.succ_mul, Nat.add_comm]

theorem toRat_arcsine_le (le : x.toRat ≤ 1) : x.arcsine.toRat ≤ 2 ^ (5 : Int) := by
  unfold arcsine
  dsimp only
  have sine : scale x.mantissa (x.exponent + 128) / scale 1 (-(x.exponent + 128)) ≤ 2 ^ 128 := by
    refine Nat.div_le_of_le_mul ?_
    rw [Nat.mul_comm]
    refine scale_le_iff.mpr ?_
    rw [two_zpow_add, ← mul_assoc]
    calc (x.mantissa : ℚ) * 2 ^ x.exponent * 2 ^ (128 : Int)
        ≤ 1 * 2 ^ (128 : Int) := mul_le_mul_of_nonneg_right le (two_zpow_pos _).le
      _ = ((2 ^ 128 : Nat) : ℚ) * (1 : Nat) := by norm_num
  generalize scale x.mantissa (x.exponent + 128) / scale 1 (-(x.exponent + 128)) = s at *
  have square : Series.times s s ≤ 2 ^ 128 := by
    rw [Series.times, Nat.shiftRight_eq_div_pow]
    exact Nat.div_le_of_le_mul (Nat.mul_le_mul sine sine)
  apply toRat_ofScaled_le
  have sum : Series.inverseSine (Series.times s s) s 24 0 ≤ 24 * 2 ^ 128 :=
    (inverseSine_le square 24 0).trans (Nat.mul_le_mul_left 24 sine)
  calc (Series.inverseSine (Series.times s s) s 24 0 : ℚ) * 2 ^ (-128 : Int)
      ≤ ((24 * 2 ^ 128 : Nat) : ℚ) * 2 ^ (-128 : Int) :=
        mul_le_mul_of_nonneg_right (by exact_mod_cast sum) (two_zpow_pos _).le
    _ ≤ 2 ^ (5 : Int) := by norm_num

end Dyadic

namespace Series

variable {p : Nat}

theorem one_le_rising (t terms k : Nat) : one ≤ rising t terms k := by
  cases terms with
  | zero => exact Nat.le_refl _
  | succ terms => exact Nat.le_add_right _ _

theorem one_le_square (count : Nat) (large : one ≤ p) : one ≤ square count p := by
  induction count generalizing p with
  | zero => exact large
  | succ count ih =>
    apply ih
    rw [times, Nat.shiftRight_eq_div_pow]
    exact (Nat.le_div_iff_mul_le (Nat.two_pow_pos 128)).mpr (Nat.mul_le_mul large large)

theorem one_le_growth (quanta : Nat) : one ≤ growth quanta :=
  one_le_square 16 (one_le_rising _ 8 1)

end Series

namespace Single

theorem exponential_bounds {x : Single} (number : x.isNaN = false) :
    x.exponential.IsPlus ∧ x.exponential.magnitude ≤ one.magnitude := by
  unfold exponential
  rw [number, if_neg Bool.false_ne_true]
  split
  · exact ⟨isPlus_zero, by decide⟩
  · refine ⟨Dyadic.isPlus_toSingle _, Dyadic.magnitude_toSingle_le ?_⟩
    have growth := Series.one_le_growth x.quanta
    have positive : 0 < Series.growth x.quanta := Nat.lt_of_lt_of_le (by decide) growth
    have bound : (Dyadic.ofRatio Series.one (Series.growth x.quanta) 0).toRat ≤ 2 ^ (0 : Int) := by
      apply Dyadic.toRat_ofRatio_le positive
      rw [zpow_zero, mul_one, one_mul]
      exact_mod_cast growth
    rw [quanta_one]
    refine bound.trans (le_of_eq ?_)
    norm_num

end Single

variable {num den k : Nat} {e : Int}

theorem ceilDiv_le_iff (positive : 0 < den) : ceilDiv num den ≤ k ↔ num ≤ k * den := by
  rw [ceilDiv, Nat.mul_comm, ← Nat.add_sub_assoc positive]
  exact Nat.div_le_iff_le_mul_add_pred positive |>.trans (by omega)

theorem two_mul_le_of_roundDiv_le (positive : 0 < den) (le : roundDiv num den ≤ k) :
    2 * num ≤ (2 * k + 1) * den := by
  rcases (roundDiv_le_iff positive).mp le with less | ⟨same, _⟩
  · exact less.le
  · exact same.le

-- Two multiples of one power of two that differ do so by that power at least.
theorem gap_le (above : (k : ℚ) * den < num * 2 ^ e) :
    (k : ℚ) * den + 2 ^ min e 0 ≤ num * 2 ^ e := by
  rcases Int.le_total 0 e with whole | fraction
  · obtain ⟨n, rfl⟩ := Int.eq_ofNat_of_zero_le whole
    rw [Int.min_eq_right whole, zpow_zero, zpow_natCast] at *
    exact_mod_cast above
  · obtain ⟨n, same⟩ := Int.eq_ofNat_of_zero_le (Int.neg_nonneg_of_nonpos fraction)
    obtain rfl : e = -(n : Int) := by omega
    have positive : (0 : ℚ) < 2 ^ n := by positivity
    rw [Int.min_eq_left fraction, zpow_neg, zpow_natCast] at *
    rw [← div_eq_mul_inv, lt_div_iff₀ positive] at above
    rw [← div_eq_mul_inv, le_div_iff₀ positive, add_mul, inv_mul_cancel₀ positive.ne']
    exact_mod_cast above

namespace Dyadic

variable {x y : Dyadic} {m j : Nat}

theorem toRat_le_natCast_iff : (⟨m, -(j : Int)⟩ : Dyadic).toRat ≤ k ↔ m ≤ k * 2 ^ j := by
  have positive : (0 : ℚ) < 2 ^ j := by positivity
  rw [toRat, zpow_neg, zpow_natCast, ← div_eq_mul_inv, div_le_iff₀ positive]
  exact_mod_cast Iff.rfl

theorem ceil_le_iff : x.ceil ≤ k ↔ x.toRat ≤ k := by
  rw [ceil, ceilDiv_le_iff (scale_pos Nat.one_pos _), scale_le_iff, Nat.cast_one, mul_one, toRat]

theorem le_mantissa_ofRatio (numPos : 0 < num) (denPos : 0 < den) (e : Int) :
    2 ^ 52 ≤ (ofRatio num den e).mantissa := by
  apply le_roundDiv (scale_pos denPos _)
  apply le_scale_iff.mpr
  have leading : (den : ℚ) * 2 ^ leadingPower num den ≤ num := leadingPower_le numPos
  have bits : ((2 ^ 52 : Nat) : ℚ) = 2 ^ leadingPower num den * 2 ^ (52 - leadingPower num den) := by
    rw [← two_zpow_add, add_sub_cancel]
    norm_num
  calc ((2 ^ 52 : Nat) : ℚ) * den
      = den * 2 ^ leadingPower num den * 2 ^ (52 - leadingPower num den) := by rw [bits]; ring
    _ ≤ num * 2 ^ (52 - leadingPower num den) :=
        mul_le_mul_of_nonneg_right leading (two_zpow_pos _).le

-- The leading bit of a quotient is still there after the rounding.
theorem leading_le_toRat (numPos : 0 < num) (denPos : 0 < den) (e : Int) :
    (2 : ℚ) ^ (leadingPower num den + e) ≤ (ofRatio num den e).toRat := by
  have bits : ((2 ^ 52 : Nat) : ℚ) ≤ (ofRatio num den e).mantissa := by
    exact_mod_cast le_mantissa_ofRatio numPos denPos e
  have powers : ((2 ^ 52 : Nat) : ℚ) = 2 ^ (52 : Int) := by norm_num
  calc (2 : ℚ) ^ (leadingPower num den + e)
      = (2 ^ 52 : Nat) * 2 ^ (e - (52 - leadingPower num den)) := by
        rw [powers, ← two_zpow_add]
        congr 1
        omega
    _ ≤ (ofRatio num den e).toRat := mul_le_mul_of_nonneg_right bits (two_zpow_pos _).le

theorem power_lt {power : Int} (le : (2 : ℚ) ^ power ≤ k) (small : k < 2 ^ 30) : power < 30 := by
  have bound : (k : ℚ) < 2 ^ (30 : Int) := by exact_mod_cast small
  exact (zpow_lt_zpow_iff_right₀ (by norm_num)).mp (le.trans_lt bound)

-- Half a unit of the 53rd bit is less than the distance that two different quotients over `den` keep
-- from each other, be it a whole share of `den` or a part of one.
theorem half_unit_lt (numShort : num < 2 ^ 24) (denShort : den < 2 ^ 24) (numPos : 0 < num)
    (unit : 52 - (leadingPower num den + e) = j) (fine : 23 ≤ j) :
    (den : ℚ) < 2 ^ (min e 0 + j + 1) := by
  have den24 : (den : ℚ) < 2 ^ (24 : Int) := by exact_mod_cast denShort
  rcases Int.le_total 0 e with whole | fraction
  · refine den24.trans_le (two_zpow_le_iff.mpr ?_)
    omega
  · have num53 : (num : ℚ) < 2 ^ (53 : Int) := by
      have num24 : (num : ℚ) < 2 ^ (24 : Int) := by exact_mod_cast numShort
      exact num24.trans (by norm_num)
    have leading : (den : ℚ) * 2 ^ leadingPower num den ≤ num := leadingPower_le numPos
    have bits : (2 : ℚ) ^ (53 : Int) =
        2 ^ (min e 0 + j + 1) * 2 ^ leadingPower num den := by
      rw [← two_zpow_add]
      congr 1
      omega
    rw [bits] at num53
    exact lt_of_mul_lt_mul_right (leading.trans_lt num53) (two_zpow_pos _).le

theorem toRat_ofRatio_le_iff (numShort : num < 2 ^ 24) (denShort : den < 2 ^ 24) (numPos : 0 < num)
    (denPos : 0 < den) (small : k < 2 ^ 30) (e : Int) :
    (ofRatio num den e).toRat ≤ k ↔ (num : ℚ) * 2 ^ e ≤ k * den := by
  by_cases high : 30 ≤ leadingPower num den + e
  · -- Both sides fail: what is at least `2 ^ 30` stays so.
    refine iff_of_false ?_ ?_
    · intro le
      exact absurd (power_lt ((leading_le_toRat numPos denPos e).trans le) small) (by omega)
    · intro le
      exact absurd (power_lt (leading_le numPos denPos le) small) (by omega)
  · obtain ⟨j, unit⟩ := Int.eq_ofNat_of_zero_le (show 0 ≤ 52 - (leadingPower num den + e) by omega)
    have powers : (2 : ℚ) ^ (52 - leadingPower num den) = 2 ^ e * 2 ^ j := by
      rw [← zpow_natCast, ← two_zpow_add]
      congr 1
      omega
    have exponent : e - (52 - leadingPower num den) = -(j : Int) := by omega
    have bound : (ofRatio num den e).toRat ≤ k ↔ (ofRatio num den e).mantissa ≤ k * 2 ^ j := by
      rw [← toRat_le_natCast_iff, ← exponent]
      rfl
    rw [bound]
    constructor
    · intro rounded
      by_contra above
      have gap := mul_le_mul_of_nonneg_right (gap_le (not_le.mp above))
        (show (0 : ℚ) ≤ 2 ^ j by positivity)
      have half := half_unit_lt numShort denShort numPos unit (by omega)
      have near := two_mul_le_of_roundDiv_le (scale_pos denPos _) rounded
      rw [← mul_scale, scale_le_iff, powers] at near
      push_cast at near
      rw [two_zpow_add, two_zpow_add, zpow_natCast, zpow_one] at half
      -- The quotient is within half a unit of the whole number, and the gap is more than that.
      linarith
    · intro le
      apply roundDiv_le (scale_pos denPos _)
      apply scale_le_iff.mpr
      rw [powers]
      push_cast
      calc (num : ℚ) * (2 ^ e * 2 ^ j) = num * 2 ^ e * 2 ^ j := by ring
        _ ≤ k * den * 2 ^ j := mul_le_mul_of_nonneg_right le (by positivity)
        _ = k * 2 ^ j * den := by ring

theorem ceil_div_le_iff (xShort : x.mantissa < 2 ^ 24) (yShort : y.mantissa < 2 ^ 24)
    (positive : 0 < y.mantissa) (small : k < 2 ^ 30) :
    (x / y).ceil ≤ k ↔ x.toRat ≤ k * y.toRat := by
  rw [ceil_le_iff]
  change (if x.mantissa = 0 then zero else ofRatio x.mantissa y.mantissa
    (x.exponent - y.exponent)).toRat ≤ k ↔ _
  split
  · rename_i none
    have quotient : zero.toRat = 0 := by simp [toRat, zero]
    have dividend : x.toRat = 0 := by simp [toRat, none]
    rw [quotient, dividend]
    exact iff_of_true (Nat.cast_nonneg k) (mul_nonneg (Nat.cast_nonneg k) y.toRat_nonneg)
  · rename_i some
    rw [toRat_ofRatio_le_iff xShort yShort (Nat.pos_of_ne_zero some) positive small,
      ← mul_le_mul_iff_left₀ (two_zpow_pos y.exponent), mul_assoc, ← two_zpow_add,
      Int.sub_add_cancel, mul_assoc]
    exact Iff.rfl

end Dyadic

end ScanAlign
