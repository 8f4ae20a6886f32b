import Mathlib.Data.Rat.Floor
import Mathlib.Order.Bounds.Basic
import ScanAlign.Proofs.Number.Dyadic
import ScanAlign.Proofs.Number.Sums
import ScanAlign.Proofs.Search.Hypotheses

namespace ScanAlign

namespace Single

variable {x y : Single}

theorem le_larger (plus : y.IsPlus) (nonzero : y.isZero = false) :
    (x.larger y).IsPlus ∧ y.magnitude ≤ (x.larger y).magnitude := by
  unfold larger
  cases xNumber : x.isNaN with
  | true => exact ⟨plus, Nat.le_refl _⟩
  | false =>
    simp only [plus.number, Bool.false_eq_true, if_false]
    split
    · exact ⟨plus, Nat.le_refl _⟩
    · rename_i notLess
      rw [lt_iff] at notLess
      simp only [xNumber, plus.number, true_and, Int.not_lt, position, plus.plus] at notLess
      have some : y.magnitude ≠ 0 := isZero_eq_false_iff.mp nonzero
      cases sign : x.negative with
      | true =>
        simp only [sign, Bool.false_eq_true, if_true, if_false] at notLess
        omega
      | false =>
        simp only [sign, Bool.false_eq_true, if_false] at notLess
        exact ⟨⟨xNumber, sign⟩, by omega⟩

end Single

namespace SearchSpace

variable {resolution : Single}

theorem resolution_le_reach (finite : resolution.isFinite = true)
    (positive : Single.zero < resolution) (range : Single) :
    (range.larger (.ofInt 3 * resolution)).IsPlus ∧
      resolution.magnitude ≤ (range.larger (.ofInt 3 * resolution)).magnitude := by
  obtain ⟨plus, nonzero⟩ := Single.isPlus_of_pos positive
  have three : (Single.ofInt 3).isFinite = true := by decide +kernel
  have triple : resolution.magnitude ≤ (Single.ofInt 3 * resolution).magnitude := by
    apply Single.le_magnitude_mul three finite plus.number
    rw [Nat.mul_comm]
    refine Nat.mul_le_mul_right _ ?_
    decide +kernel
  have triplePlus : (Single.ofInt 3 * resolution).IsPlus := by
    refine ⟨Single.isNaN_mul three finite, ?_⟩
    rw [Single.negative_mul three finite, plus.plus]
    decide +kernel
  have tripleNonzero : (Single.ofInt 3 * resolution).isZero = false := by
    rw [Single.isZero_eq_false_iff] at nonzero ⊢
    omega
  obtain ⟨reachPlus, le⟩ := Single.le_larger (x := range) triplePlus tripleNonzero
  exact ⟨reachPlus, triple.trans le⟩

theorem toRat_chord_le {reach : Single} (le : resolution.quanta ≤ reach.quanta)
    (nonzero : reach.isZero = false) :
    (resolution.toDyadic / (⟨1, 1⟩ * reach.toDyadic)).toRat ≤ 1 := by
  have twice : (⟨1, 1⟩ * reach.toDyadic : Dyadic) =
      ⟨1 * reach.significand, 1 + ((reach.power : Int) - 149)⟩ := by
    apply Dyadic.ofScaled_of_lt
    have short := reach.significand_lt
    change 1 * reach.significand < 2 ^ 53
    omega
  have double : (⟨1, 1⟩ * reach.toDyadic : Dyadic).toRat = 2 * reach.toDyadic.toRat := by
    rw [twice, Nat.one_mul, Dyadic.toRat, two_zpow_add, zpow_one, Dyadic.toRat, Single.toDyadic]
    ring
  rw [← zpow_zero (2 : ℚ)]
  apply Dyadic.toRat_div_le
  · rw [twice]
    exact Nat.mul_pos Nat.one_pos (Single.significand_pos nonzero)
  · rw [double, zpow_zero, one_mul]
    have order : resolution.toDyadic.toRat ≤ reach.toDyadic.toRat := by
      rw [Dyadic.toRat_toDyadic, Dyadic.toRat_toDyadic]
      exact mul_le_mul_of_nonneg_right (by exact_mod_cast le) (two_zpow_pos _).le
    linarith [reach.toDyadic.toRat_nonneg]

theorem toRat_stepFor_le (finite : resolution.isFinite = true) (positive : Single.zero < resolution)
    (cloud : Cloud) : (stepFor cloud resolution).toRat ≤ 2 ^ (6 : Int) := by
  have smallest : smallestStep.toDyadic.toRat ≤ 2 ^ (6 : Int) := by
    have quanta : smallestStep.quanta ≤ 2 ^ 149 := by decide +kernel
    rw [Dyadic.toRat_toDyadic]
    calc (smallestStep.quanta : ℚ) * 2 ^ (-149 : Int)
        ≤ ((2 ^ 149 : Nat) : ℚ) * 2 ^ (-149 : Int) :=
          mul_le_mul_of_nonneg_right (by exact_mod_cast quanta) (two_zpow_pos _).le
      _ ≤ 2 ^ (6 : Int) := by norm_num
  obtain ⟨plus, le⟩ := resolution_le_reach finite positive cloud.range
  obtain ⟨_, nonzero⟩ := Single.isPlus_of_pos positive
  unfold stepFor
  dsimp only
  generalize cloud.range.larger (.ofInt 3 * resolution) = reach at *
  split
  · exact smallest
  · have reachNonzero : reach.isZero = false := by
      rw [Single.isZero_eq_false_iff] at nonzero ⊢
      omega
    have chord := toRat_chord_le (Single.quanta_le_iff.mpr le) reachNonzero
    have wide : (⟨1, 1⟩ : Dyadic).toRat ≤ 2 ^ (1 : Int) := by norm_num [Dyadic.toRat]
    have share : margin.toRat ≤ 2 ^ (0 : Int) := by norm_num [Dyadic.toRat, margin]
    have step := Dyadic.toRat_mul_le (Dyadic.toRat_mul_le wide share)
      (Dyadic.toRat_arcsine_le chord)
    unfold Dyadic.larger
    split
    · exact smallest
    · exact step

theorem stepFor_isFinite (finite : resolution.isFinite = true) (positive : Single.zero < resolution)
    (cloud : Cloud) : (stepFor cloud resolution).toSingle.isFinite = true :=
  Dyadic.isFinite_toSingle
    ((toRat_stepFor_le finite positive cloud).trans (two_zpow_le_iff.mpr (by decide)))

theorem quanta_stepFor_le (finite : resolution.isFinite = true)
    (positive : Single.zero < resolution) (cloud : Cloud) :
    (stepFor cloud resolution).toSingle.quanta ≤ 2 ^ 155 := by
  let bound : Single := ⟨false, 133 * 2 ^ 23, by decide⟩
  have quanta : bound.quanta = 2 ^ 155 := by decide +kernel
  rw [← quanta]
  refine Single.quanta_le_iff.mpr (Dyadic.magnitude_toSingle_le ?_)
  rw [quanta]
  refine (toRat_stepFor_le finite positive cloud).trans (le_of_eq ?_)
  norm_num

variable {s : SearchSpace} {c : Candidate} {place : Nat}

-- So few steps, each so short, do not overflow.
theorem angle_isFinite (sound : s.Sound) (short : s.step.quanta ≤ 2 ^ 155)
    (inside : place < s.rotations) : (s.angle place).isFinite = true := by
  have turns : s.turns ≤ 31416 := sound.turns_le
  unfold rotations at inside
  have steps : (Single.ofInt ((place : Int) - s.turns)).quanta ≤ 2 ^ (15 + 149) :=
    Single.quanta_ofInt_le (by omega)
  have product : (s.angle place).quanta ≤ 2 ^ (15 + 155) :=
    Single.quanta_mul_le (Single.isFinite_of_quanta_le steps (by decide))
      (Single.isFinite_of_quanta_le short (by decide)) steps short
  exact Single.isFinite_of_quanta_le product (by decide)

theorem ofInt_isFinite {n : Int} (small : n.natAbs ≤ mostShifts) : (Single.ofInt n).isFinite = true := by
  have quanta : (Single.ofInt n).quanta ≤ 2 ^ (30 + 149) := by
    apply Single.quanta_ofInt_le
    unfold mostShifts at small
    omega
  exact Single.isFinite_of_quanta_le quanta (by decide)

theorem hypothesis_numbers (sound : s.Sound) (short : s.step.quanta ≤ 2 ^ 155)
    (finite : s.resolution.isFinite = true) (member : c ∈ s.hypotheses) :
    c.x.isNaN = false ∧ c.y.isNaN = false ∧ c.orientation.isFinite = true := by
  obtain ⟨w, found, allowed, same⟩ := mem_hypotheses.mp member
  have around := sound.around w (List.mem_of_getElem? found)
  unfold Window.Around at around
  unfold Window.Allows at allowed
  have dx : (Single.ofInt c.dx).isFinite = true := ofInt_isFinite (by omega)
  have dy : (Single.ofInt c.dy).isFinite = true := ofInt_isFinite (by omega)
  rw [same]
  refine ⟨Single.isNaN_mul dx finite, Single.isNaN_mul dy finite, ?_⟩
  exact angle_isFinite sound short (rotation_lt sound member)

end SearchSpace

namespace Single

variable {x y : Single} {k : Nat}

def toRat (x : Single) : ℚ := x.value * 2 ^ (-149 : Int)

theorem toRat_eq (nonneg : Single.zero ≤ x) : x.toRat = x.quanta * 2 ^ (-149 : Int) := by
  obtain ⟨_, plus | zero⟩ := zero_le_iff.mp nonneg
  · simp [toRat, value, plus]
  · simp [toRat, value, quanta_eq_zero_iff.mpr zero]

theorem toRat_le_mul_iff (xNonneg : Single.zero ≤ x) (yNonneg : Single.zero ≤ y) :
    x.toRat ≤ k * y.toRat ↔ x.quanta ≤ k * y.quanta := by
  rw [toRat_eq xNonneg, toRat_eq yNonneg, ← mul_assoc, mul_le_mul_iff_left₀ (two_zpow_pos _)]
  exact_mod_cast Iff.rfl

end Single

namespace SearchSpace

variable {linear resolution : Single} {n k : Nat}

theorem shiftsFor_le_iff (window : linear.isNonnegative = true) (finite : resolution.isFinite = true)
    (positive : Single.zero < resolution) (below : k < mostShifts) :
    shiftsFor linear resolution ≤ k ↔ linear.toRat ≤ k * resolution.toRat := by
  obtain ⟨windowFinite, nonneg⟩ := Single.isNonnegative_iff.mp window
  obtain ⟨number, bounded⟩ := Single.isFinite_iff.mp windowFinite
  have small : k < 2 ^ 30 := Nat.lt_trans below (by decide)
  obtain ⟨plus, nonzero⟩ := Single.isPlus_of_pos positive
  have cells := Single.toRat_eq plus.zero_le
  cases sign : linear.negative with
  | true =>
    -- A window of negative zero: no shift is needed, and none is made.
    have zero : linear.isZero = true := by simpa [sign] using (Single.zero_le_iff.mp nonneg).2
    have count : shiftsFor linear resolution = 0 := by simp [shiftsFor, sign]
    rw [count, Single.toRat_eq nonneg, Single.quanta_eq_zero_iff.mpr zero, cells]
    exact iff_of_true (Nat.zero_le k) (by rw [Nat.cast_zero, zero_mul]; positivity)
  | false =>
    have count : shiftsFor linear resolution =
        min mostShifts (linear.toDyadic / resolution.toDyadic).ceil := by
      simp [shiftsFor, number, sign, bounded, (Single.isFinite_iff.mp finite).2]
    have quotient := Dyadic.ceil_div_le_iff (x := linear.toDyadic) (y := resolution.toDyadic)
      linear.significand_lt resolution.significand_lt (Single.significand_pos nonzero) small
    rw [Dyadic.toRat_toDyadic, Dyadic.toRat_toDyadic, ← cells, ← Single.toRat_eq nonneg] at quotient
    rw [count, ← quotient]
    omega

-- The counts whose cells cover the window, side by side.
def Covers (linear resolution : Single) : Set Nat := {n | linear.toRat ≤ n * resolution.toRat}

theorem exists_least_count (linear : Single) (positive : Single.zero < resolution) :
    ∃ n, IsLeast (Covers linear resolution) n := by
  obtain ⟨plus, nonzero⟩ := Single.isPlus_of_pos positive
  have some : 0 < resolution.quanta := by
    rw [Nat.pos_iff_ne_zero, ne_eq, Single.quanta_eq_zero_iff, nonzero]
    exact Bool.false_ne_true
  have size : 0 < resolution.toRat := by
    rw [Single.toRat_eq plus.zero_le]
    exact mul_pos (by exact_mod_cast some) (two_zpow_pos _)
  have covers (n : Nat) : n ∈ Covers linear resolution ↔ ⌈linear.toRat / resolution.toRat⌉₊ ≤ n := by
    rw [Nat.ceil_le, div_le_iff₀ size]
    exact Iff.rfl
  exact ⟨_, (covers _).mpr (Nat.le_refl _), fun n member => (covers n).mp member⟩

theorem shiftsFor_eq (window : linear.isNonnegative = true) (finite : resolution.isFinite = true)
    (positive : Single.zero < resolution) (least : IsLeast (Covers linear resolution) n) :
    shiftsFor linear resolution = min mostShifts n := by
  have capped := shiftsFor_le linear resolution
  have enough (k : Nat) (below : k < mostShifts) := shiftsFor_le_iff window finite positive below
  apply Nat.le_antisymm
  · apply Nat.le_min.mpr ⟨capped, ?_⟩
    rcases Nat.lt_or_ge n mostShifts with below | above
    · exact (enough n below).mpr least.1
    · exact Nat.le_trans capped above
  · rcases Nat.lt_or_eq_of_le capped with below | full
    · exact Nat.le_trans (Nat.min_le_right _ _) (least.2 ((enough _ below).mp (Nat.le_refl _)))
    · rw [full]
      exact Nat.min_le_left _ _

theorem covering_least_shifts (window : linear.isNonnegative = true)
    (finite : resolution.isFinite = true) (positive : Single.zero < resolution) (angular : Single)
    (cloud : Cloud) :
    ∃ (s : SearchSpace) (n : Nat), covering linear angular cloud resolution = .ok s ∧
      IsLeast (Covers linear resolution) n ∧
      s.windows = List.replicate s.rotations (.centered (min mostShifts n : Nat)) := by
  obtain ⟨n, least⟩ := exists_least_count linear positive
  refine ⟨wide linear angular cloud resolution, n, covering_eq positive linear angular cloud, least, ?_⟩
  rw [← shiftsFor_eq window finite positive least]
  rfl

-- Cells of nearly two meters, and a window wider than 598387371 of them by less than one part in
-- `2 ^ 53`. The rounded quotient still asks for one cell more.
def tightCell : Single := ⟨false, 127 * 2 ^ 23 + 8388605, by decide⟩

def tightWindow : Single := ⟨false, 157 * 2 ^ 23 + 961193, by decide⟩

theorem least_tightWindow : IsLeast (Covers tightWindow tightCell) 598387372 := by
  have window : Single.zero ≤ tightWindow := by decide +kernel
  have cell : Single.zero ≤ tightCell := by decide +kernel
  have covers (n : Nat) : n ∈ Covers tightWindow tightCell ↔
      9349801 * 2 ^ 156 ≤ n * (16777213 * 2 ^ 126) := by
    have windowQuanta : tightWindow.quanta = 9349801 * 2 ^ 156 := by decide +kernel
    have cellQuanta : tightCell.quanta = 16777213 * 2 ^ 126 := by decide +kernel
    rw [← windowQuanta, ← cellQuanta]
    exact Single.toRat_le_mul_iff window cell
  refine ⟨(covers _).mpr (by decide), ?_⟩
  intro n member
  have enough := (covers n).mp member
  omega

theorem covering_least_shifts_tight :
    ∃ s, covering tightWindow .one .empty tightCell = .ok s ∧
      s.windows = List.replicate s.rotations (.centered 598387372) := by
  have window : tightWindow.isNonnegative = true := by decide +kernel
  have finite : tightCell.isFinite = true := by decide +kernel
  have positive : Single.zero < tightCell := by decide +kernel
  obtain ⟨s, n, covered, least, windows⟩ := covering_least_shifts window finite positive .one .empty
  obtain rfl := least.unique least_tightWindow
  exact ⟨s, covered, windows⟩

end SearchSpace

end ScanAlign
