import Mathlib.Algebra.Order.Field.Rat
import Mathlib.Tactic.Positivity
import ScanAlign.Proofs.Number.Wrapping

namespace ScanAlign

namespace Single

variable {x y z : Single}

theorem sameNumber_iff_value (xFinite : x.isFinite = true) (yFinite : y.isFinite = true) :
    x.SameNumber y ↔ x.value = y.value := by
  rw [SameNumber, le_iff_value xFinite yFinite, le_iff_value yFinite xFinite]
  omega

theorem value_eq_zero_iff : x.value = 0 ↔ x.isZero = true := by
  rw [← quanta_eq_zero_iff, ← natAbs_value, Int.natAbs_eq_zero]

theorem SameNumber.magnitude_eq (same : x.SameNumber y) : x.magnitude = y.magnitude := by
  have forth := (le_iff.mp same.1).2.2
  have back := (le_iff.mp same.2).2.2
  rw [← natAbs_position x, ← natAbs_position y, Int.le_antisymm forth back]

theorem SameNumber.eq_or_zero (same : x.SameNumber y) : x = y ∨ x.isZero = true ∧ y.isZero = true := by
  have size := same.magnitude_eq
  have forth := (le_iff.mp same.1).2.2
  have back := (le_iff.mp same.2).2.2
  by_cases zero : x.magnitude = 0
  · exact .inr ⟨isZero_iff.mpr zero, isZero_iff.mpr (size.symm.trans zero)⟩
  · refine .inl (eq_of_parts ?_ size)
    simp only [position] at forth back
    cases xSign : x.negative <;> cases ySign : y.negative <;> simp only [xSign, ySign] at * <;>
      simp at * <;> omega

theorem add_isZero (finite : x.isFinite = true) (zero : z.isZero = true) : (x + z).SameNumber x := by
  have none := value_eq_zero_iff.mpr zero
  obtain ⟨sumFinite, sum⟩ := value_add (z := x) finite (isFinite_of_isZero zero) finite (by omega)
  rw [sameNumber_iff_value sumFinite finite]
  omega

theorem zero_div (finite : x.isFinite = true) (nonzero : x.isZero = false) (plus : x.IsPlus) :
    Single.zero / x = Single.zero := by
  rw [div_of_finite (by decide) finite nonzero]
  apply eq_of_parts
  · rw [negative_ofQuanta, plus.plus]
    rfl
  · have none : Single.zero.significand = 0 := by decide
    rw [magnitude_ofQuanta (significand_pos nonzero), none, Nat.zero_mul, nearestWord_zero]
    rfl

theorem isZero_div (xZero : x.isZero = true) (finite : y.isFinite = true) (nonzero : y.isZero = false) :
    (x / y).isZero = true := by
  have none : x.quanta = 0 := quanta_eq_zero_iff.mpr xZero
  have le := magnitude_div_le (z := Single.zero) (isFinite_of_isZero xZero) finite nonzero
    (by rw [none]; omega)
  exact isZero_iff.mpr (Nat.le_zero.mp le)

theorem floorWhole_isZero (zero : x.isZero = true) : x.floorWhole = 0 := by
  rw [floorWhole_of_isFinite (isFinite_of_isZero zero), value_eq_zero_iff.mpr zero]
  decide

theorem one_mul_self (finite : x.isFinite = true) : one * x = x := by
  apply eq_of_parts
  · rw [negative_mul one_isFinite finite]
    exact Bool.false_xor x.negative
  · rw [mul_of_finite one_isFinite finite]
    refine magnitude_ofQuanta_exact Nat.one_pos (isFinite_iff.mp finite).1 ?_
    rw [significands_mul, quanta_one, Nat.one_mul, Nat.mul_comm]

theorem div_self (finite : x.isFinite = true) (nonzero : x.isZero = false) : x / x = one := by
  rw [div_of_finite finite finite nonzero]
  apply eq_of_parts
  · exact Bool.xor_self x.negative
  · refine magnitude_ofQuanta_exact (significand_pos nonzero) (by decide) ?_
    rw [quanta_one, Nat.pow_add]
    ring

theorem value_sub_of_isZero (zero : z.isZero = true) (finite : x.isFinite = true) :
    (z - x).isFinite = true ∧ (z - x).value = -x.value := by
  have zFinite := isFinite_of_isZero zero
  have none := value_eq_zero_iff.mpr zero
  have opposite := value_neg x
  obtain ⟨sumFinite, sum⟩ := value_add (y := -x) (z := -x) zFinite finite finite (by omega)
  rw [sub_eq_add_neg (isFinite_iff.mp zFinite).1 (isFinite_iff.mp finite).1]
  exact ⟨sumFinite, by omega⟩

-- The zeros leave the offset as it is, up to the sign of a zero, and a zero lies in the cell `0`.
theorem place_congr {o r : Single} (same : x.SameNumber y) (oFinite : o.isFinite = true)
    (rFinite : r.isFinite = true) (nonzero : r.isZero = false) :
    ((x - o) / r).floorWhole = ((y - o) / r).floorWhole := by
  rcases same.eq_or_zero with rfl | ⟨xZero, yZero⟩
  · rfl
  · obtain ⟨xFinite, xValue⟩ := value_sub_of_isZero xZero oFinite
    obtain ⟨yFinite, yValue⟩ := value_sub_of_isZero yZero oFinite
    have offset := (sameNumber_iff_value xFinite yFinite).mpr (xValue.trans yValue.symm)
    rcases offset.eq_or_zero with equal | ⟨xNone, yNone⟩
    · rw [equal]
    · rw [floorWhole_isZero (isZero_div xNone rFinite nonzero),
        floorWhole_isZero (isZero_div yNone rFinite nonzero)]

variable {negative : Bool} {num den up down : Nat}

theorem quantaOf_nearestWord (num : Nat) (positive : 0 < den) :
    quantaOf (nearestWord num den) =
      roundDiv num (den * 2 ^ exponentOf num den) * 2 ^ exponentOf num den := by
  have binade := inBinade_exponentOf num positive
  generalize exponentOf num den = e at *
  have most := binade.rounded_le positive
  have least := binade.le_rounded positive
  rw [nearestWord_eq positive binade]
  generalize roundDiv num (den * 2 ^ e) = m at *
  rcases Nat.lt_or_eq_of_le most with short | rfl
  · refine quantaOf_word short ?_
    by_cases none : e = 0
    · exact .inl none
    · exact .inr (least none)
  · -- The rounding reached the first word of the next binade.
    have next : e * 2 ^ 23 + 2 ^ 24 = (e + 1) * 2 ^ 23 + 2 ^ 23 := by omega
    rw [next, quantaOf_word (by decide) (.inr (Nat.le_refl _)), Nat.pow_succ]
    omega

theorem nearestWord_half_unit (num : Nat) (positive : 0 < den) :
    |(quantaOf (nearestWord num den) : ℚ) - num / den| ≤ 2 ^ exponentOf num den / 2 := by
  have unit : 0 < den * 2 ^ exponentOf num den := Nat.mul_pos positive (Nat.two_pow_pos _)
  have upper := roundDiv_mul_le num _ unit
  have lower := le_roundDiv_mul num _ unit
  rw [quantaOf_nearestWord num positive]
  generalize roundDiv num (den * 2 ^ exponentOf num den) = m at *
  generalize exponentOf num den = e at *
  have upper' : 2 * ((m : ℚ) * (den * 2 ^ e)) ≤ 2 * num + den * 2 ^ e := by exact_mod_cast upper
  have lower' : 2 * (num : ℚ) ≤ 2 * (m * (den * 2 ^ e)) + den * 2 ^ e := by exact_mod_cast lower
  have denPos : (0 : ℚ) < den := by exact_mod_cast positive
  have quotient : (num : ℚ) = num / den * den := (div_mul_cancel₀ _ denPos.ne').symm
  generalize (num : ℚ) / den = q at *
  rw [quotient] at upper' lower'
  push_cast
  rw [abs_le]
  constructor
  · refine le_of_mul_le_mul_right ?_ denPos
    linarith
  · refine le_of_mul_le_mul_right ?_ denPos
    linarith

theorem half_unit_le (num : Nat) (positive : 0 < den) (some : exponentOf num den ≠ 0) :
    (2 : ℚ) ^ exponentOf num den / 2 ≤ num / den / 2 ^ 24 := by
  have normal := (inBinade_exponentOf num positive).normal.resolve_left some
  have denPos : (0 : ℚ) < den := by exact_mod_cast positive
  have bound : (den : ℚ) * 2 ^ (exponentOf num den + 23) ≤ num := by exact_mod_cast normal
  rw [mul_comm, ← le_div_iff₀ denPos, pow_add] at bound
  linarith

theorem nearestWord_error (num : Nat) (positive : 0 < den) :
    |(quantaOf (nearestWord num den) : ℚ) - num / den| ≤ num / den / 2 ^ 24 + 1 / 2 := by
  have half := nearestWord_half_unit num positive
  by_cases none : exponentOf num den = 0
  · rw [none, pow_zero] at half
    have nonneg : (0 : ℚ) ≤ num / den / 2 ^ 24 := by positivity
    linarith
  · have part := half_unit_le num positive none
    linarith

theorem nearestWord_whole_error (num : Nat) :
    |(quantaOf (nearestWord num 1) : ℚ) - num| ≤ num / 2 ^ 24 := by
  have half := nearestWord_half_unit num Nat.one_pos
  rw [Nat.cast_one, div_one] at half
  by_cases none : exponentOf num 1 = 0
  · have exact : quantaOf (nearestWord num 1) = num := by
      rw [quantaOf_nearestWord num Nat.one_pos, none, Nat.pow_zero, Nat.mul_one, Nat.mul_one,
        roundDiv_one]
    rw [exact, sub_self, abs_zero]
    positivity
  · have part := half_unit_le num Nat.one_pos none
    rw [Nat.cast_one, div_one] at part
    linarith

def signum (negative : Bool) : ℚ := if negative then -1 else 1

theorem abs_signum_mul (negative : Bool) (q : ℚ) : |signum negative * q| = |q| := by
  cases negative <;> simp [signum]

theorem signum_xor (a b : Bool) : signum (a != b) = signum a * signum b := by
  cases a <;> cases b <;> norm_num [signum]

theorem cast_value (x : Single) : (x.value : ℚ) = signum x.negative * x.quanta := by
  unfold value signum
  cases x.negative <;> simp

theorem abs_cast_value (x : Single) : |(x.value : ℚ)| = x.quanta := by
  rw [cast_value, abs_signum_mul, Nat.abs_cast]

theorem quanta_ofQuanta (positive : 0 < den)
    (finite : (ofQuanta negative num den up down).isFinite = true) :
    (ofQuanta negative num den up down).quanta =
      quantaOf (nearestWord (num * 2 ^ up) (den * 2 ^ down)) := by
  rw [isFinite_iff_lt, magnitude_ofQuanta positive] at finite
  rw [quanta, magnitude_ofQuanta positive, Nat.min_eq_left]
  omega

theorem ofQuanta_error (positive : 0 < den)
    (finite : (ofQuanta negative num den up down).isFinite = true) :
    |((ofQuanta negative num den up down).value : ℚ) -
        signum negative * ((num * 2 ^ up : Nat) / (den * 2 ^ down : Nat))| ≤
      |signum negative * ((num * 2 ^ up : Nat) / (den * 2 ^ down : Nat))| / 2 ^ 24 + 1 / 2 := by
  have nonneg : (0 : ℚ) ≤ (num * 2 ^ up : Nat) / (den * 2 ^ down : Nat) := by positivity
  rw [cast_value, negative_ofQuanta, ← mul_sub, abs_signum_mul, abs_signum_mul, abs_of_nonneg nonneg,
    quanta_ofQuanta positive finite]
  exact nearestWord_error _ (Nat.mul_pos positive (Nat.two_pow_pos down))

-- What a sum rounds is a whole number of quanta.
theorem exact_sum (xFinite : x.isFinite = true) (yFinite : y.isFinite = true) :
    ∃ sign num low, x + y = ofQuanta sign num 1 low 0 ∧
      (x.value + y.value : ℚ) = signum sign * ((num * 2 ^ low : Nat) / (1 * 2 ^ 0 : Nat)) := by
  obtain ⟨sign, num, low, sum, total, _⟩ := add_of_finite xFinite yFinite
  refine ⟨sign, num, low, sum, ?_⟩
  rw [← Int.cast_add, total, signum]
  cases sign <;> simp

theorem add_error (xFinite : x.isFinite = true) (yFinite : y.isFinite = true)
    (finite : (x + y).isFinite = true) :
    |((x + y).value : ℚ) - (x.value + y.value)| ≤ |(x.value + y.value : ℚ)| / 2 ^ 24 := by
  obtain ⟨sign, num, low, sum, exact⟩ := exact_sum xFinite yFinite
  rw [sum] at finite ⊢
  rw [exact, cast_value, negative_ofQuanta, ← mul_sub, abs_signum_mul, abs_signum_mul,
    quanta_ofQuanta Nat.one_pos finite, Nat.pow_zero, Nat.mul_one, Nat.cast_one, div_one, Nat.abs_cast]
  exact nearestWord_whole_error _

theorem sub_error (xFinite : x.isFinite = true) (yFinite : y.isFinite = true)
    (finite : (x - y).isFinite = true) :
    |((x - y).value : ℚ) - (x.value - y.value)| ≤ |(x.value - y.value : ℚ)| / 2 ^ 24 := by
  rw [sub_eq_add_neg (isFinite_iff.mp xFinite).1 (isFinite_iff.mp yFinite).1] at finite ⊢
  have error := add_error xFinite (y := -y) yFinite finite
  rwa [value_neg, Int.cast_neg, ← Rat.sub_eq_add_neg] at error

theorem exact_product (x y : Single) :
    (x.value * y.value / 2 ^ 149 : ℚ) = signum (x.negative != y.negative) *
      ((x.significand * y.significand * 2 ^ (x.power + y.power) : Nat) / (1 * 2 ^ 149 : Nat)) := by
  rw [significands_mul, cast_value, cast_value, signum_xor]
  push_cast
  ring

theorem exact_quotient (x y : Single) :
    (x.value * 2 ^ 149 / y.value : ℚ) = signum (x.negative != y.negative) *
      ((x.significand * 2 ^ (x.power + 149) : Nat) / (y.significand * 2 ^ y.power : Nat)) := by
  rw [Nat.pow_add, ← Nat.mul_assoc, ← quanta_eq, ← quanta_eq, cast_value, cast_value, signum_xor]
  push_cast
  cases x.negative <;> cases y.negative <;> norm_num [signum] <;> ring

theorem mul_error (xFinite : x.isFinite = true) (yFinite : y.isFinite = true)
    (finite : (x * y).isFinite = true) :
    |((x * y).value : ℚ) - x.value * y.value / 2 ^ 149| ≤
      |(x.value * y.value / 2 ^ 149 : ℚ)| / 2 ^ 24 + 1 / 2 := by
  rw [mul_of_finite xFinite yFinite] at finite ⊢
  rw [exact_product]
  exact ofQuanta_error Nat.one_pos finite

theorem div_error (xFinite : x.isFinite = true) (yFinite : y.isFinite = true)
    (nonzero : y.isZero = false) (finite : (x / y).isFinite = true) :
    |((x / y).value : ℚ) - x.value * 2 ^ 149 / y.value| ≤
      |(x.value * 2 ^ 149 / y.value : ℚ)| / 2 ^ 24 + 1 / 2 := by
  rw [div_of_finite xFinite yFinite nonzero] at finite ⊢
  rw [exact_quotient]
  exact ofQuanta_error (significand_pos nonzero) finite

def mostQuanta : Nat := quantaOf (infinityWord - 1)

theorem isFinite_ofQuanta (positive : 0 < den)
    (le : |signum negative * ((num * 2 ^ up : Nat) / (den * 2 ^ down : Nat))| ≤ (mostQuanta : ℚ)) :
    (ofQuanta negative num den up down).isFinite = true := by
  let greatest : Single := ⟨negative, infinityWord - 1, by decide⟩
  have finite : greatest.isFinite = true := isFinite_iff_lt.mpr (show infinityWord - 1 < _ by decide)
  have downPos : (0 : ℚ) < (den * 2 ^ down : Nat) := by
    exact_mod_cast Nat.mul_pos positive (Nat.two_pow_pos down)
  have nonneg : (0 : ℚ) ≤ (num * 2 ^ up : Nat) / (den * 2 ^ down : Nat) := by positivity
  rw [abs_signum_mul, abs_of_nonneg nonneg, div_le_iff₀ downPos] at le
  have below : (ofQuanta negative num den up down).magnitude ≤ greatest.magnitude :=
    magnitude_ofQuanta_le positive (by exact_mod_cast le)
  exact isFinite_of_le finite below

theorem isFinite_add_of_le (xFinite : x.isFinite = true) (yFinite : y.isFinite = true)
    (le : |(x.value + y.value : ℚ)| ≤ mostQuanta) : (x + y).isFinite = true := by
  obtain ⟨sign, num, low, sum, exact⟩ := exact_sum xFinite yFinite
  rw [exact] at le
  rw [sum]
  exact isFinite_ofQuanta Nat.one_pos le

theorem isFinite_sub_of_le (xFinite : x.isFinite = true) (yFinite : y.isFinite = true)
    (le : |(x.value - y.value : ℚ)| ≤ mostQuanta) : (x - y).isFinite = true := by
  rw [sub_eq_add_neg (isFinite_iff.mp xFinite).1 (isFinite_iff.mp yFinite).1]
  apply isFinite_add_of_le xFinite (y := -y) yFinite
  rwa [value_neg, Int.cast_neg, ← Rat.sub_eq_add_neg]

theorem isFinite_mul_of_le (xFinite : x.isFinite = true) (yFinite : y.isFinite = true)
    (le : |(x.value * y.value / 2 ^ 149 : ℚ)| ≤ mostQuanta) : (x * y).isFinite = true := by
  rw [exact_product] at le
  rw [mul_of_finite xFinite yFinite]
  exact isFinite_ofQuanta Nat.one_pos le

theorem isFinite_div_of_le (xFinite : x.isFinite = true) (yFinite : y.isFinite = true)
    (nonzero : y.isZero = false) (le : |(x.value * 2 ^ 149 / y.value : ℚ)| ≤ mostQuanta) :
    (x / y).isFinite = true := by
  rw [exact_quotient] at le
  rw [div_of_finite xFinite yFinite nonzero]
  exact isFinite_ofQuanta (significand_pos nonzero) le

end Single

end ScanAlign
