import Mathlib.Tactic.FieldSimp
import ScanAlign.Proofs.Map.Indexing
import ScanAlign.Proofs.Number.Errors

namespace ScanAlign

namespace Single

variable {o r x y : Single}

theorem floorWhole_eq {k : Nat} (finite : x.isFinite = true) (range : k < 2 ^ 31)
    (low : (k : ℚ) * 2 ^ 149 ≤ x.value) (high : (x.value : ℚ) < (k + 1) * 2 ^ 149) :
    x.floorWhole = k := by
  have low' : (k : Int) * 2 ^ 149 ≤ x.value := by exact_mod_cast low
  have high' : x.value < ((k : Int) + 1) * 2 ^ 149 := by exact_mod_cast high
  have quotient : x.value / 2 ^ 149 = k := by omega
  rw [floorWhole_of_isFinite finite, twoPower_eq, show ((2 ^ 149 : Nat) : Int) = 2 ^ 149 by norm_num,
    quotient, saturate, leastWhole, greatestWhole]
  omega

theorem value_middle {i : Nat} (few : i < 2 ^ 23) :
    (ofInt i + Limits.half).isFinite = true ∧
      (ofInt i + Limits.half).value = (2 * i + 1) * 2 ^ 148 := by
  have half : Limits.half.isFinite = true ∧ Limits.half.value = 2 ^ 148 := by decide +kernel
  have whole : (ofInt i).value = i * 2 ^ 149 := by
    rw [value_of_zero_le (isPlus_ofInt i).zero_le, quanta_ofInt (by omega)]
    push_cast
    rfl
  obtain ⟨z, finite, plus, quanta⟩ := exists_short (m := 2 * i + 1) (j := 148) (by omega) (by omega) false
  have total : z.value = (ofInt i).value + Limits.half.value := by
    rw [whole, half.2, value, plus, quanta]
    simp only [Bool.false_eq_true, if_false]
    push_cast
    ring
  obtain ⟨sumFinite, sum⟩ := value_add (isFinite_ofInt (by omega)) half.1 finite total
  refine ⟨sumFinite, ?_⟩
  rw [sum, whole, half.2]
  ring

-- From zero to the far side of the cell there are fewer than `2 ^ 21` cells, those up to the origin
-- counted again, and the far side is not beyond the greatest number.
structure InScale (o r : Single) (i : Int) : Prop where
  near : (o.quanta : Int) + (i + 1) * r.quanta + 2 ^ 21 ≤ 2 ^ 21 * r.quanta
  bounded : (o.quanta : Int) + (i + 1) * r.quanta ≤ mostQuanta

section
variable {o r i p c d q : ℚ}

theorem middle_abs (size : 2 ≤ r) (start : 0 ≤ i) : |(i + 1 / 2) * r| = (i + 1 / 2) * r :=
  abs_of_nonneg (by positivity)

theorem product_le (size : 2 ≤ r) (start : 0 ≤ i) (near : |o| + (i + 1) * r + 2 ^ 21 ≤ 2 ^ 21 * r)
    (product : |p - (i + 1 / 2) * r| ≤ |(i + 1 / 2) * r| / 2 ^ 24 + 1 / 2) :
    |p| ≤ (i + 1 / 2) * r + (r + 3) / 8 := by
  have origin := abs_nonneg o
  have parts := abs_sub_abs_le_abs_sub p ((i + 1 / 2) * r)
  rw [middle_abs size start] at product parts
  linarith

theorem back_le (size : 2 ≤ r) (near : |o| + (i + 1) * r + 2 ^ 21 ≤ 2 ^ 21 * r)
    (product : |p| ≤ (i + 1 / 2) * r + (r + 3) / 8) (sum : |c - (o + p)| ≤ |o + p| / 2 ^ 24) :
    |c - o| ≤ (i + 1) * r := by
  have total := abs_add_le o p
  have parts := abs_sub_abs_le_abs_sub (c - o) p
  rw [sub_sub] at parts
  linarith

theorem rest_le (size : 2 ≤ r) (start : 0 ≤ i) (back : |c - o| ≤ (i + 1) * r)
    (difference : |d - (c - o)| ≤ |c - o| / 2 ^ 24) : |d| ≤ 2 * ((i + 1) * r) := by
  have nonneg : 0 ≤ (i + 1) * r := by positivity
  have parts := abs_sub_abs_le_abs_sub d (c - o)
  linarith

theorem quotient_le (wide : 0 < r)
    (quotient : |q - d * 2 ^ 149 / r| ≤ |d| * 2 ^ 149 / r / 2 ^ 24 + 1 / 2) :
    |q / 2 ^ 149 * r - d| ≤ |d| / 2 ^ 24 + r / 2 ^ 150 := by
  have factor : q / 2 ^ 149 * r - d = (q - d * 2 ^ 149 / r) * (r / 2 ^ 149) := by
    field_simp
  rw [factor, abs_mul, abs_of_pos (show 0 < r / 2 ^ 149 by positivity)]
  calc _ ≤ (|d| * 2 ^ 149 / r / 2 ^ 24 + 1 / 2) * (r / 2 ^ 149) := by gcongr
    _ = _ := by field_simp

-- The errors of the product, the sum, the difference and the quotient, in this order, add up to less
-- than half a cell.
theorem drift_lt (size : 2 ≤ r) (start : 0 ≤ i) (near : |o| + (i + 1) * r + 2 ^ 21 ≤ 2 ^ 21 * r)
    (product : |p - (i + 1 / 2) * r| ≤ |(i + 1 / 2) * r| / 2 ^ 24 + 1 / 2)
    (sum : |c - (o + p)| ≤ |o + p| / 2 ^ 24)
    (difference : |d - (c - o)| ≤ |c - o| / 2 ^ 24)
    (quotient : |q * r - d| ≤ |d| / 2 ^ 24 + r / 2 ^ 150) :
    |q * r - (i + 1 / 2) * r| < r / 2 := by
  have shifted := product_le size start near product
  have back := back_le size near shifted sum
  have origin := abs_nonneg o
  have total := abs_add_le o p
  have parts := abs_sub_abs_le_abs_sub d (c - o)
  have steps : |q * r - (i + 1 / 2) * r| ≤
      |q * r - d| + (|d - (c - o)| + (|c - (o + p)| + |p - (i + 1 / 2) * r|)) := by
    calc |q * r - (i + 1 / 2) * r|
        ≤ |q * r - d| + |d - (i + 1 / 2) * r| := abs_sub_le _ _ _
      _ ≤ |q * r - d| + (|d - (c - o)| + |c - o - (i + 1 / 2) * r|) := by
          gcongr
          exact abs_sub_le _ _ _
      _ ≤ |q * r - d| + (|d - (c - o)| + (|c - o - p| + |p - (i + 1 / 2) * r|)) := by
          gcongr
          exact abs_sub_le _ _ _
      _ = _ := by rw [sub_sub]
  rw [middle_abs size start] at product
  linarith

end

namespace InScale

variable {i : Nat}

theorem size_le (scale : InScale o r i) (nonzero : r.isZero = false) : 2 ≤ r.quanta := by
  have near := scale.near
  have some : r.quanta ≠ 0 := by
    rw [ne_eq, quanta_eq_zero_iff, nonzero]
    exact Bool.false_ne_true
  have more : r.quanta ≠ 1 := by
    intro one
    rw [one] at near
    omega
  omega

theorem index_lt (scale : InScale o r i) : i < 2 ^ 21 := by
  have near := scale.near
  by_contra many
  nlinarith

theorem near_abs (scale : InScale o r i) :
    |(o.value : ℚ)| + (i + 1) * r.quanta + 2 ^ 21 ≤ 2 ^ 21 * r.quanta := by
  rw [abs_cast_value]
  exact_mod_cast scale.near

theorem bounded_abs (scale : InScale o r i) : |(o.value : ℚ)| + (i + 1) * r.quanta ≤ mostQuanta := by
  rw [abs_cast_value]
  exact_mod_cast scale.bounded

end InScale

section
variable {i : Nat} {s d : Single}

theorem product_step (scale : InScale o r i) (sFinite : s.isFinite = true) (rFinite : r.isFinite = true)
    (rPlus : r.IsPlus) (size : (2 : ℚ) ≤ r.quanta) (place : s.value = (2 * i + 1) * 2 ^ 148) :
    (s * r).isFinite = true ∧
      |((s * r).value - (i + 1 / 2) * r.quanta : ℚ)| ≤ |((i + 1 / 2) * r.quanta : ℚ)| / 2 ^ 24 + 1 / 2 := by
  have rValue : (r.value : ℚ) = r.quanta := by exact_mod_cast value_of_zero_le rPlus.zero_le
  have start : (0 : ℚ) ≤ i := Nat.cast_nonneg i
  have exact : (s.value * r.value / 2 ^ 149 : ℚ) = (i + 1 / 2) * r.quanta := by
    rw [place, rValue]
    push_cast
    ring
  have finite : (s * r).isFinite = true := by
    apply isFinite_mul_of_le sFinite rFinite
    rw [exact, middle_abs size start]
    linarith [scale.bounded_abs, abs_nonneg (o.value : ℚ)]
  have error := mul_error sFinite rFinite finite
  rw [exact] at error
  exact ⟨finite, error⟩

theorem quotient_step (few : i < 2 ^ 21) (dFinite : d.isFinite = true) (rFinite : r.isFinite = true)
    (rPlus : r.IsPlus) (nonzero : r.isZero = false) (wide : (0 : ℚ) < r.quanta)
    (rest : |(d.value : ℚ)| ≤ 2 * ((i + 1) * r.quanta)) :
    (d / r).isFinite = true ∧
      |((d / r).value / 2 ^ 149 * r.quanta - d.value : ℚ)| ≤
        |(d.value : ℚ)| / 2 ^ 24 + r.quanta / 2 ^ 150 := by
  have rValue : (r.value : ℚ) = r.quanta := by exact_mod_cast value_of_zero_le rPlus.zero_le
  have unit : (0 : ℚ) < 2 ^ 149 := by norm_num
  have ratio : |(d.value * 2 ^ 149 / r.value : ℚ)| = |(d.value : ℚ)| * 2 ^ 149 / r.quanta := by
    rw [abs_div, abs_mul, rValue, abs_of_pos wide, abs_of_pos unit]
  have finite : (d / r).isFinite = true := by
    have most : (2 : ℚ) ^ 171 ≤ mostQuanta := by
      exact_mod_cast (show 2 ^ 171 ≤ mostQuanta by decide +kernel)
    have count : (i : ℚ) + 1 ≤ 2 ^ 21 := by exact_mod_cast few
    apply isFinite_div_of_le dFinite rFinite nonzero
    rw [ratio, div_le_iff₀ wide]
    nlinarith
  have error := div_error dFinite rFinite nonzero finite
  rw [ratio, rValue] at error
  exact ⟨finite, quotient_le wide error⟩

end

def middle (o r : Single) (i : Int) : Single := o + (ofInt i + Limits.half) * r

theorem floorWhole_middle {i : Nat} (oFinite : o.isFinite = true) (rFinite : r.isFinite = true)
    (rPos : Single.zero < r) (scale : InScale o r i) :
    ((middle o r i - o) / r).floorWhole = i := by
  obtain ⟨rPlus, rNonzero⟩ := isPlus_of_pos rPos
  have few := scale.index_lt
  have start : (0 : ℚ) ≤ i := Nat.cast_nonneg i
  have size : (2 : ℚ) ≤ r.quanta := by exact_mod_cast scale.size_le rNonzero
  have wide : (0 : ℚ) < r.quanta := by linarith
  have near := scale.near_abs
  have bounded := scale.bounded_abs
  have origin := abs_nonneg (o.value : ℚ)
  obtain ⟨sFinite, sValue⟩ := value_middle (i := i) (by omega)
  unfold middle
  -- Each step is finite, so its error is known and bounds the next one.
  obtain ⟨pFinite, product⟩ := product_step scale sFinite rFinite rPlus size sValue
  have shifted := product_le size start near product
  generalize (ofInt (i : Int) + Limits.half) * r = p at *
  have cFinite : (o + p).isFinite = true := by
    apply isFinite_add_of_le oFinite pFinite
    have total := abs_add_le (o.value : ℚ) p.value
    linarith
  have sum := add_error oFinite pFinite cFinite
  have back := back_le size near shifted sum
  generalize o + p = c at *
  have dFinite : (c - o).isFinite = true := by
    apply isFinite_sub_of_le cFinite oFinite
    linarith
  have difference := sub_error cFinite oFinite dFinite
  have rest := rest_le size start back difference
  generalize c - o = d at *
  obtain ⟨qFinite, quotient⟩ := quotient_step few dFinite rFinite rPlus rNonzero wide rest
  obtain ⟨left, right⟩ := abs_lt.1 (drift_lt size start near product sum difference quotient)
  have unit : (0 : ℚ) < 2 ^ 149 := by norm_num
  apply floorWhole_eq qFinite (by omega)
  · rw [← le_div_iff₀ unit]
    refine (lt_of_mul_lt_mul_right ?_ wide.le).le
    linarith
  · rw [← div_lt_iff₀ unit]
    refine lt_of_mul_lt_mul_right ?_ wide.le
    linarith

-- Less than twice as far from zero the errors can add up to half a cell.
example :
    let o := ofQuanta false 40689182179328 1 0 0
    let r := ofQuanta false 29134896 1 0 0
    o.quanta + (2440736 + 1) * r.quanta < 2 ^ 22 * r.quanta ∧
      ((middle o r 2440736 - o) / r).floorWhole = 2440737 := by
  decide +kernel

end Single

namespace Limits

-- The map is fine enough at a cell: on both axes the numbers there still tell half cells apart.
structure Resolves (l : Limits) (c : Cell) : Prop where
  x : Single.InScale l.origin.x l.resolution c.x
  y : Single.InScale l.origin.y l.resolution c.y

theorem cellOf_center {l : Limits} {c : Cell} (inside : l.contains c = true) (resolves : l.Resolves c) :
    l.cellOf (l.center c) = c := by
  obtain ⟨⟨left, -⟩, low, -⟩ := contains_iff.mp inside
  have origin := Point.isFinite_iff.mp l.origin_finite
  cases c with
  | mk x y =>
    obtain ⟨i, rfl⟩ := Int.eq_ofNat_of_zero_le left
    obtain ⟨j, rfl⟩ := Int.eq_ofNat_of_zero_le low
    refine Cell.mk.injEq .. |>.mpr ⟨?_, ?_⟩
    · exact Single.floorWhole_middle origin.1 l.resolution_finite l.resolution_pos resolves.x
    · exact Single.floorWhole_middle origin.2 l.resolution_finite l.resolution_pos resolves.y

theorem cellOf_center_twelveCells :
    twelveCells.contains ⟨3, 2⟩ = true ∧ twelveCells.Resolves ⟨3, 2⟩ ∧
      twelveCells.cellOf (twelveCells.center ⟨3, 2⟩) = ⟨3, 2⟩ := by
  have resolves : twelveCells.Resolves ⟨3, 2⟩ :=
    ⟨⟨by decide +kernel, by decide +kernel⟩, by decide +kernel, by decide +kernel⟩
  exact ⟨rfl, resolves, cellOf_center rfl resolves⟩

-- The center of every cell of the map lies in that cell.
def CentersReturn (l : Limits) : Prop :=
  ∀ c, l.contains c = true → l.cellOf (l.center c) = c

-- The small map, `2 ^ 24` meters from the origin of the coordinates, where numbers are two meters apart.
def farCells : Limits :=
  { twelveCells with
    origin := ⟨.ofInt (2 ^ 24), .zero⟩
    origin_finite := by decide +kernel }

theorem not_centersReturn_farCells :
    farCells.cellOf (farCells.center ⟨1, 0⟩) = ⟨0, 0⟩ ∧ ¬ farCells.CentersReturn := by
  have drifted : farCells.cellOf (farCells.center ⟨1, 0⟩) = ⟨0, 0⟩ := by decide +kernel
  refine ⟨drifted, ?_⟩
  intro returned
  have same := returned ⟨1, 0⟩ rfl
  rw [drifted] at same
  cases same

end Limits

end ScanAlign
