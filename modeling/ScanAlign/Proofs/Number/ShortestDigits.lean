import ScanAlign.Number.Decimal
import ScanAlign.Proofs.Number.Sums

namespace ScanAlign

variable {w count n e m num den : Nat} {tie : Tie} {power : Int}

namespace Single

theorem exists_parts (w : Nat) :
    ∃ e m, w = e * 2 ^ 23 + m ∧ powerOf w = e ∧ m < 2 ^ 24 ∧ (e = 0 ∨ 2 ^ 23 ≤ m) := by
  by_cases small : w < 2 ^ 23
  · exact ⟨0, w, by omega, by unfold powerOf; omega, by omega, .inl rfl⟩
  · exact ⟨w / 2 ^ 23 - 1, 2 ^ 23 + w % 2 ^ 23, by omega, rfl, by omega, .inr (by omega)⟩

theorem quantaOf_next (short : m < 2 ^ 24) (normal : e = 0 ∨ 2 ^ 23 ≤ m) :
    quantaOf (e * 2 ^ 23 + m + 1) = (m + 1) * 2 ^ e := by
  rcases Nat.lt_or_eq_of_le short with less | last
  · rw [Nat.add_assoc, quantaOf_word less (by omega)]
  · -- The significand is full, and the next word begins a new power.
    have next : e * 2 ^ 23 + m + 1 = (e + 1) * 2 ^ 23 + 2 ^ 23 := by omega
    have full : m + 1 = 2 ^ 24 := last
    rw [next, quantaOf_word (by decide) (.inr (Nat.le_refl _)), full, Nat.pow_succ 2 e]
    omega

theorem quantaOf_succ (w : Nat) : quantaOf (w + 1) = quantaOf w + 2 ^ powerOf w := by
  obtain ⟨e, m, rfl, power, short, normal⟩ := exists_parts w
  rw [power, quantaOf_word short normal, quantaOf_next short normal, Nat.succ_mul]

-- A quotient goes down to a word up to the middle between it and the next one, and from the middle
-- itself to the even one of the two.
theorem nearestWord_le_iff (positive : 0 < den) :
    nearestWord num den ≤ w ↔
      2 * num < (quantaOf w + quantaOf (w + 1)) * den ∨
        (2 * num = (quantaOf w + quantaOf (w + 1)) * den ∧ w % 2 = 0) := by
  have rises : quantaOf w < quantaOf (w + 1) := by
    rw [quantaOf_succ]
    exact Nat.lt_add_of_pos_right (Nat.two_pow_pos _)
  by_cases below : num ≤ quantaOf w * den
  · refine iff_of_true (nearestWord_le positive below) (.inl ?_)
    nlinarith
  by_cases above : quantaOf (w + 1) * den ≤ num
  · have beyond := le_nearestWord positive above
    refine iff_of_false (by omega) ?_
    rintro (less | ⟨same, _⟩) <;> nlinarith
  obtain ⟨e, m, rfl, _, short, normal⟩ := exists_parts w
  rw [quantaOf_word short normal, quantaOf_next short normal] at *
  have binade : InBinade num den e := by
    constructor
    · have most : (m + 1) * 2 ^ e * den ≤ 2 ^ 24 * 2 ^ e * den := by gcongr; omega
      rw [Nat.pow_add]
      nlinarith
    · refine normal.imp_right fun full => ?_
      have least : 2 ^ 23 * 2 ^ e * den ≤ m * 2 ^ e * den := by gcongr
      rw [Nat.pow_add]
      nlinarith
  have middle : (m * 2 ^ e + (m + 1) * 2 ^ e) * den = (2 * m + 1) * (den * 2 ^ e) := by ring
  rw [nearestWord_eq positive binade, Nat.add_le_add_iff_left, middle,
    roundDiv_le_iff (Nat.mul_pos positive (Nat.two_pow_pos e))]
  have parity : (e * 2 ^ 23 + m) % 2 = m % 2 := by omega
  rw [parity]

theorem quantaOf_lt (w : Nat) : quantaOf w < 2 ^ (24 + powerOf w) := by
  unfold quantaOf significandOf
  rw [twoPower_eq, Nat.pow_add]
  apply Nat.mul_lt_mul_of_pos_right _ (Nat.two_pow_pos _)
  split <;> omega

end Single

namespace Shortest

open Single

theorem one_le_scaled (nonzero : w ≠ 0) : 1 ≤ quantaOf w * 10 ^ 60 / 2 ^ 149 := by
  have positive : 1 ≤ quantaOf w := Nat.pos_of_ne_zero (mt quantaOf_eq_zero_iff.mp nonzero)
  rw [Nat.le_div_iff_mul_le (Nat.two_pow_pos 149)]
  calc 1 * 2 ^ 149 ≤ 1 * 10 ^ 60 := by decide
    _ ≤ quantaOf w * 10 ^ 60 := Nat.mul_le_mul_right _ positive

theorem pow_length_le (positive : 0 < n) : 10 ^ ((Nat.toDigits 10 n).length - 1) ≤ n := by
  cases length : (Nat.toDigits 10 n).length - 1 with
  | zero => exact positive
  | succ k =>
    have longer := mt (Nat.length_toDigits_le_iff (b := 10) (n := n) (k := k + 1) (by decide)
      (Nat.succ_pos k)).mpr
    exact Nat.le_of_not_lt (longer (by omega))

theorem leadingPower_spec (nonzero : w ≠ 0) :
    ∃ length : Nat, leadingPower w = length - 60 ∧ 10 ^ length * 2 ^ 149 ≤ quantaOf w * 10 ^ 60 := by
  have low := pow_length_le (one_le_scaled nonzero)
  have some := Nat.length_toDigits_pos (b := 10) (n := quantaOf w * 10 ^ 60 / 2 ^ 149)
  refine ⟨(Nat.toDigits 10 (quantaOf w * 10 ^ 60 / 2 ^ 149)).length - 1, ?_, ?_⟩
  · simp only [leadingPower, tenPower_eq, twoPower_eq]
    omega
  · exact (Nat.le_div_iff_mul_le (Nat.two_pow_pos 149)).mp low

theorem step_lt_gap (nonzero : w ≠ 0) :
    (step (leadingPower w - 8)).1 < 2 ^ powerOf w * (step (leadingPower w - 8)).2 := by
  obtain ⟨length, lead, low⟩ := leadingPower_spec nonzero
  generalize up : (leadingPower w - 8).toNat = u
  generalize down : (-(leadingPower w - 8)).toNat = d
  have same : u + 68 = d + length := by omega
  simp only [step, up, down, tenPower_eq, twoPower_eq]
  apply Nat.lt_of_mul_lt_mul_right (a := 10 ^ 68)
  calc 10 ^ u * 2 ^ 150 * 10 ^ 68 = 10 ^ (u + 68) * 2 ^ 150 := by rw [Nat.pow_add]; ring
    _ = 2 * 10 ^ d * (10 ^ length * 2 ^ 149) := by rw [same, Nat.pow_add]; ring
    _ ≤ 2 * 10 ^ d * (quantaOf w * 10 ^ 60) := Nat.mul_le_mul_left _ low
    _ < 2 * 10 ^ d * (2 ^ (24 + powerOf w) * 10 ^ 60) := by
      have positive : 0 < 10 ^ d := Nat.pow_pos (by decide)
      exact Nat.mul_lt_mul_of_pos_left
        (Nat.mul_lt_mul_of_pos_right (quantaOf_lt w) (by decide)) (by omega)
    _ = 2 ^ powerOf w * 10 ^ d * (2 ^ 25 * 10 ^ 60) := by rw [Nat.pow_add]; ring
    _ ≤ 2 ^ powerOf w * 10 ^ d * 10 ^ 68 := Nat.mul_le_mul_left _ (by decide)

-- That many steps are nearer to the number than to its neighbours, or halfway if it is even.
def ReadsBack (w : Nat) (power : Int) (count : Nat) : Prop :=
  if w % 2 = 0 then
    (quantaOf (w - 1) + quantaOf w) * (step power).2 ≤ count * (step power).1 ∧
      count * (step power).1 ≤ (quantaOf w + quantaOf (w + 1)) * (step power).2
  else
    (quantaOf (w - 1) + quantaOf w) * (step power).2 < count * (step power).1 ∧
      count * (step power).1 < (quantaOf w + quantaOf (w + 1)) * (step power).2

instance : Decidable (ReadsBack w power count) := by
  unfold ReadsBack
  infer_instance

def stepsBelow (w : Nat) (power : Int) : Nat := 2 * quantaOf w * (step power).2 / (step power).1

theorem nearest?_cases (tie : Tie) (w : Nat) (power : Int) :
    (∃ count, nearest? tie w power = some count ∧ ReadsBack w power count) ∨
      (nearest? tie w power = none ∧ ¬ ReadsBack w power (stepsBelow w power + 1)) := by
  have test (count : Nat) :
      (if w % 2 = 0 then
        decide ((quantaOf (w - 1) + quantaOf w) * (step power).2 ≤ count * (step power).1) &&
          decide (count * (step power).1 ≤ (quantaOf w + quantaOf (w + 1)) * (step power).2)
      else
        decide ((quantaOf (w - 1) + quantaOf w) * (step power).2 < count * (step power).1) &&
          decide (count * (step power).1 < (quantaOf w + quantaOf (w + 1)) * (step power).2)) =
        decide (ReadsBack w power count) := by
    unfold ReadsBack
    split <;> simp
  simp only [nearest?, test, stepsBelow]
  generalize 2 * quantaOf w * (step power).2 / (step power).1 = lower
  by_cases below : ReadsBack w power lower <;> by_cases above : ReadsBack w power (lower + 1) <;>
    simp only [below, above, decide_true, decide_false]
  · refine .inl ?_
    split
    · exact ⟨lower, rfl, below⟩
    · split
      · exact ⟨lower + 1, rfl, above⟩
      · cases tie with
        | up => exact ⟨lower + 1, rfl, above⟩
        | even =>
          by_cases even : lower % 2 = 0
          · exact ⟨lower, by simp only [even, if_true], below⟩
          · exact ⟨lower + 1, by simp only [even, if_false], above⟩
  · exact .inl ⟨lower, rfl, below⟩
  · exact .inl ⟨lower + 1, rfl, above⟩
  · exact .inr ⟨trivial, not_false⟩

theorem step_pos (power : Int) : 0 < (step power).1 ∧ 0 < (step power).2 :=
  ⟨Nat.mul_pos (Nat.pow_pos (by decide)) (Nat.two_pow_pos 150), Nat.pow_pos (by decide)⟩

theorem readsBack_above (small : (step power).1 < 2 ^ powerOf w * (step power).2) :
    ReadsBack w power (stepsBelow w power + 1) := by
  have positive := (step_pos power).1
  have next := quantaOf_succ w
  have previous : quantaOf (w - 1) ≤ quantaOf w := quantaOf_le_iff.mpr (Nat.sub_le w 1)
  unfold ReadsBack stepsBelow
  generalize (step power).1 = num at *
  generalize (step power).2 = den at *
  have beyond : 2 * quantaOf w * den < (2 * quantaOf w * den / num + 1) * num := by
    rw [Nat.mul_comm _ num]
    exact Nat.lt_mul_div_succ _ positive
  have near := Nat.div_mul_le_self (2 * quantaOf w * den) num
  have low : (quantaOf (w - 1) + quantaOf w) * den < (2 * quantaOf w * den / num + 1) * num := by
    nlinarith
  have high : (2 * quantaOf w * den / num + 1) * num < (quantaOf w + quantaOf (w + 1)) * den := by
    nlinarith
  split
  · exact ⟨Nat.le_of_lt low, Nat.le_of_lt high⟩
  · exact ⟨low, high⟩

theorem nearest?_ninth (tie : Tie) (nonzero : w ≠ 0) :
    ∃ count, nearest? tie w (leadingPower w - 8) = some count := by
  rcases nearest?_cases tie w (leadingPower w - 8) with ⟨count, found, _⟩ | ⟨_, refused⟩
  · exact ⟨count, found⟩
  · exact absurd (readsBack_above (step_lt_gap nonzero)) refused

theorem ReadsBack.pos (readsBack : ReadsBack w power count) (nonzero : w ≠ 0) : 0 < count := by
  have den := (step_pos power).2
  have quanta : quantaOf w ≠ 0 := mt quantaOf_eq_zero_iff.mp nonzero
  have low : 0 < (quantaOf (w - 1) + quantaOf w) * (step power).2 :=
    Nat.mul_pos (by omega) den
  apply Nat.pos_of_ne_zero
  rintro rfl
  unfold ReadsBack at readsBack
  split at readsBack <;> omega

theorem ReadsBack.nearestWord_eq (readsBack : ReadsBack w power count) (nonzero : w ≠ 0) :
    nearestWord (count * 10 ^ power.toNat * 2 ^ 149) (10 ^ (-power).toNat) = w := by
  obtain ⟨v, rfl⟩ := Nat.exists_eq_add_one_of_ne_zero nonzero
  have den := (step_pos power).2
  have steps : count * (step power).1 = 2 * (count * 10 ^ power.toNat * 2 ^ 149) := by
    simp only [step, tenPower_eq, twoPower_eq]
    ring
  unfold ReadsBack at readsBack
  rw [steps, Nat.add_sub_cancel] at readsBack
  change nearestWord _ (step power).2 = _
  refine Nat.le_antisymm ((nearestWord_le_iff den).mpr ?_) (Nat.lt_of_not_le ?_)
  · split at readsBack
    · rename_i even
      exact (Nat.lt_or_eq_of_le readsBack.2).imp_right fun same => ⟨same, even⟩
    · exact .inl readsBack.2
  · rw [nearestWord_le_iff den]
    split at readsBack <;> omega

theorem readsBack_of_nearest? (found : nearest? tie w power = some count) :
    ReadsBack w power count := by
  rcases nearest?_cases tie w power with ⟨other, same, readsBack⟩ | ⟨none, _⟩
  · rw [found] at same
    cases same
    exact readsBack
  · rw [found] at none
    cases none

theorem digits_found (tie : Tie) (nonzero : w ≠ 0) :
    ∃ count power, ReadsBack w power count ∧ (List.range 9).findSome? (fun (extra : Nat) =>
      (nearest? tie w (leadingPower w - extra)).map fun count => (count, leadingPower w - extra)) =
        some (count, power) := by
  obtain ⟨last, ninth⟩ := nearest?_ninth tie nonzero
  cases found : (List.range 9).findSome? (fun (extra : Nat) =>
      (nearest? tie w (leadingPower w - extra)).map fun count => (count, leadingPower w - extra)) with
  | none =>
    have missed := List.findSome?_eq_none_iff.mp found 8 (by decide)
    simp [ninth] at missed
  | some entry =>
    obtain ⟨extra, _, here⟩ := List.exists_of_findSome?_eq_some found
    obtain ⟨count, nearest, rfl⟩ := Option.map_eq_some_iff.mp here
    exact ⟨count, _, readsBack_of_nearest? nearest, rfl⟩

end Shortest

end ScanAlign
