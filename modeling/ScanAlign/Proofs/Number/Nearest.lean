import Mathlib.Tactic.Linarith
import Mathlib.Tactic.Ring
import ScanAlign.Number.Single

namespace ScanAlign

variable {num den num' den' k : Nat}

theorem roundDiv_le_iff (positive : 0 < den) :
    roundDiv num den ≤ k ↔
      2 * num < (2 * k + 1) * den ∨ (2 * num = (2 * k + 1) * den ∧ k % 2 = 0) := by
  have split := Nat.div_add_mod num den
  have small := Nat.mod_lt num positive
  unfold roundDiv
  dsimp only
  generalize num / den = q at *
  generalize num % den = r at *
  subst split
  rcases Nat.lt_trichotomy q k with below | rfl | above
  · have far : (q + 1) * den ≤ k * den := Nat.mul_le_mul_right den below
    constructor
    · intro _
      refine .inl ?_
      nlinarith
    · intro _
      split
      · omega
      · split <;> omega
  · have parts : (2 * q + 1) * den = 2 * (den * q) + den := by ring
    rw [parts]
    split
    · omega
    · split <;> omega
  · have far : (k + 1) * den ≤ q * den := Nat.mul_le_mul_right den above
    have parts : (2 * k + 1) * den + den = 2 * ((k + 1) * den) := by ring
    rw [Nat.mul_comm den q]
    constructor
    · intro held
      split at held
      · omega
      · split at held <;> omega
    · intro held
      rcases held with less | ⟨same, even⟩
      · omega
      · split
        · omega
        · split <;> omega

theorem roundDiv_mono (positive : 0 < den) (positive' : 0 < den')
    (le : num * den' ≤ num' * den) : roundDiv num den ≤ roundDiv num' den' := by
  have upper := (roundDiv_le_iff positive').mp (Nat.le_refl (roundDiv num' den'))
  generalize roundDiv num' den' = k at *
  refine (roundDiv_le_iff positive).mpr ?_
  rcases upper with less | ⟨same, even⟩
  · refine .inl (Nat.lt_of_mul_lt_mul_right (a := den') ?_)
    calc 2 * num * den' ≤ 2 * num' * den := by nlinarith
      _ < (2 * k + 1) * den' * den := Nat.mul_lt_mul_of_pos_right less positive
      _ = (2 * k + 1) * den * den' := by ring
  · have le' : 2 * num ≤ (2 * k + 1) * den := by
      refine Nat.le_of_mul_le_mul_right (c := den') ?_ positive'
      calc 2 * num * den' ≤ 2 * num' * den := by nlinarith
        _ = (2 * k + 1) * den * den' := by rw [same]; ring
    rcases Nat.lt_or_eq_of_le le' with less | equal
    · exact .inl less
    · exact .inr ⟨equal, even⟩

theorem roundDiv_congr (positive : 0 < den) (positive' : 0 < den')
    (same : num * den' = num' * den) : roundDiv num den = roundDiv num' den' :=
  Nat.le_antisymm (roundDiv_mono positive positive' (Nat.le_of_eq same))
    (roundDiv_mono positive' positive (Nat.le_of_eq same.symm))

theorem lt_mul_iff_of_same (positive : 0 < den) (positive' : 0 < den')
    (same : num * den' = num' * den) : num < den * k ↔ num' < den' * k := by
  have aside : den * k * den' = den' * k * den := by ring
  rw [← Nat.mul_lt_mul_right positive', same, aside, Nat.mul_lt_mul_right positive]

theorem roundDiv_le (positive : 0 < den) (le : num ≤ k * den) : roundDiv num den ≤ k := by
  rw [← roundDiv_one k]
  exact roundDiv_mono positive Nat.one_pos (by rwa [Nat.mul_one])

theorem le_roundDiv (positive : 0 < den) (le : k * den ≤ num) : k ≤ roundDiv num den := by
  rw [← roundDiv_one k]
  exact roundDiv_mono Nat.one_pos positive (by rwa [Nat.mul_one])

-- The exponent that a quotient is rounded in: 24 bits before the point are kept, or all of them.
structure InBinade (num den e : Nat) : Prop where
  below : num < den * 2 ^ (e + 24)
  normal : e = 0 ∨ den * 2 ^ (e + 23) ≤ num

def exponentOf (num den : Nat) : Nat := (num / den).log2 - 23

-- The word of the magnitude nearest to `num / den` quanta.
def nearestWord (num den : Nat) : Nat :=
  exponentOf num den * 2 ^ 23 + roundDiv num (den * 2 ^ exponentOf num den)

theorem inBinade_exponentOf (num : Nat) (positive : 0 < den) :
    InBinade num den (exponentOf num den) := by
  unfold exponentOf
  constructor
  · have top : num / den < 2 ^ ((num / den).log2 - 23 + 24) :=
      Nat.lt_of_lt_of_le Nat.lt_log2_self (Nat.pow_le_pow_right (by decide) (by omega))
    rw [Nat.mul_comm]
    exact (Nat.div_lt_iff_lt_mul positive).mp top
  · by_cases least : (num / den).log2 - 23 = 0
    · exact .inl least
    · refine .inr ?_
      have length : (num / den).log2 - 23 + 23 = (num / den).log2 := by omega
      rw [length, Nat.mul_comm]
      refine (Nat.le_div_iff_mul_le positive).mp (Nat.log2_self_le ?_)
      intro zero
      rw [zero] at least
      exact least (by decide)

theorem InBinade.le {e e' : Nat} (one : InBinade num den e) (two : InBinade num' den' e')
    (positive : 0 < den) (le : num * den' ≤ num' * den) : e ≤ e' := by
  rcases one.normal with zero | normal
  · omega
  · by_contra above
    have gap : 2 ^ (e' + 24) ≤ 2 ^ (e + 23) := Nat.pow_le_pow_right (by decide) (by omega)
    have below := two.below
    have chain : den * den' * 2 ^ (e + 23) < den * den' * 2 ^ (e' + 24) := by
      calc den * den' * 2 ^ (e + 23) = den * 2 ^ (e + 23) * den' := by ring
        _ ≤ num * den' := Nat.mul_le_mul_right den' normal
        _ ≤ num' * den := le
        _ < den' * 2 ^ (e' + 24) * den := Nat.mul_lt_mul_of_pos_right below positive
        _ = den * den' * 2 ^ (e' + 24) := by ring
    exact absurd (Nat.lt_of_mul_lt_mul_left chain) (Nat.not_lt.mpr gap)

theorem InBinade.of_long {b e : Nat} (low : 2 ^ (b + (e + 23)) ≤ num) (high : den < 2 ^ b)
    (below : num < den * 2 ^ (e + 24)) : InBinade num den e := by
  refine ⟨below, .inr ?_⟩
  calc den * 2 ^ (e + 23) ≤ 2 ^ b * 2 ^ (e + 23) := Nat.mul_le_mul_right _ (Nat.le_of_lt high)
    _ = 2 ^ (b + (e + 23)) := (Nat.pow_add 2 b (e + 23)).symm
    _ ≤ num := low

theorem InBinade.of_short {b e : Nat} (high : num < 2 ^ (b + (e + 24))) (low : 2 ^ b ≤ den)
    (normal : e = 0 ∨ den * 2 ^ (e + 23) ≤ num) : InBinade num den e := by
  refine ⟨?_, normal⟩
  calc num < 2 ^ (b + (e + 24)) := high
    _ = 2 ^ b * 2 ^ (e + 24) := Nat.pow_add 2 b (e + 24)
    _ ≤ den * 2 ^ (e + 24) := Nat.mul_le_mul_right _ low

theorem nearestWord_eq {e : Nat} (positive : 0 < den) (binade : InBinade num den e) :
    nearestWord num den = e * 2 ^ 23 + roundDiv num (den * 2 ^ e) := by
  have found := inBinade_exponentOf num positive
  have same : exponentOf num den = e :=
    Nat.le_antisymm (found.le binade positive (Nat.le_refl _))
      (binade.le found positive (Nat.le_refl _))
  rw [nearestWord, same]

-- Of the bits that are kept there are at most 24, or the next power of two.
theorem InBinade.rounded_le {e : Nat} (binade : InBinade num den e) (positive : 0 < den) :
    roundDiv num (den * 2 ^ e) ≤ 2 ^ 24 := by
  refine roundDiv_le (Nat.mul_pos positive (Nat.two_pow_pos e)) ?_
  have below := binade.below
  rw [Nat.pow_add] at below
  nlinarith

theorem InBinade.le_rounded {e : Nat} (binade : InBinade num den e) (positive : 0 < den)
    (normal : e ≠ 0) : 2 ^ 23 ≤ roundDiv num (den * 2 ^ e) := by
  refine le_roundDiv (Nat.mul_pos positive (Nat.two_pow_pos e)) ?_
  have above := binade.normal.resolve_left normal
  rw [Nat.pow_add] at above
  nlinarith

-- Within a binade the words run from its first word to the first one of the next.
theorem InBinade.word_le {e : Nat} (binade : InBinade num den e) (positive : 0 < den) :
    nearestWord num den ≤ (e + 2) * 2 ^ 23 := by
  have rounded := binade.rounded_le positive
  rw [nearestWord_eq positive binade]
  omega

theorem InBinade.le_word {e : Nat} (binade : InBinade num den e) (positive : 0 < den)
    (normal : e ≠ 0) : (e + 1) * 2 ^ 23 ≤ nearestWord num den := by
  have rounded := binade.le_rounded positive normal
  rw [nearestWord_eq positive binade]
  omega

theorem nearestWord_mono (positive : 0 < den) (positive' : 0 < den')
    (le : num * den' ≤ num' * den) : nearestWord num den ≤ nearestWord num' den' := by
  have one := inBinade_exponentOf num positive
  have two := inBinade_exponentOf num' positive'
  generalize exponentOf num den = e at one
  generalize exponentOf num' den' = e' at two
  rcases Nat.lt_or_eq_of_le (one.le two positive le) with less | same
  · calc nearestWord num den ≤ (e + 2) * 2 ^ 23 := one.word_le positive
      _ ≤ (e' + 1) * 2 ^ 23 := Nat.mul_le_mul_right _ (by omega)
      _ ≤ nearestWord num' den' := two.le_word positive' (by omega)
  · subst same
    rw [nearestWord_eq positive one, nearestWord_eq positive' two]
    refine Nat.add_le_add_left (roundDiv_mono ?_ ?_ ?_) _
    · exact Nat.mul_pos positive (Nat.two_pow_pos e)
    · exact Nat.mul_pos positive' (Nat.two_pow_pos e)
    · nlinarith [Nat.mul_le_mul_right (2 ^ e) le]

theorem nearestWord_congr (positive : 0 < den) (positive' : 0 < den')
    (same : num * den' = num' * den) : nearestWord num den = nearestWord num' den' :=
  Nat.le_antisymm (nearestWord_mono positive positive' (Nat.le_of_eq same))
    (nearestWord_mono positive' positive (Nat.le_of_eq same.symm))

@[simp] theorem nearestWord_zero (den : Nat) : nearestWord 0 den = 0 := by
  simp [nearestWord, exponentOf, roundDiv]

namespace Single

variable {up down w w' : Nat}

theorem scaled_bounds (positive : 0 < num) (up : Nat) :
    2 ^ (num.log2 + up) ≤ num * 2 ^ up ∧ num * 2 ^ up < 2 ^ (num.log2 + up + 1) := by
  have low : 2 ^ num.log2 ≤ num := Nat.log2_self_le (by omega)
  have high : num < 2 ^ (num.log2 + 1) := Nat.lt_log2_self
  constructor
  · rw [Nat.pow_add]
    exact Nat.mul_le_mul_right _ low
  · rw [Nat.add_right_comm, Nat.pow_add]
    exact Nat.mul_lt_mul_of_pos_right high (Nat.two_pow_pos up)

theorem shifted_same (num den up down d : Nat) :
    num * twoPower (up - (down + d)) * (den * 2 ^ down * 2 ^ d) =
      num * 2 ^ up * (den * twoPower (down + d - up)) := by
  have moved := mul_twoPower_sub num up (down + d)
  simp only [twoPower_eq, Nat.pow_add] at moved ⊢
  calc num * 2 ^ (up - (down + d)) * (den * 2 ^ down * 2 ^ d)
      = num * 2 ^ (up - (down + d)) * (2 ^ down * 2 ^ d) * den := by ring
    _ = num * 2 ^ up * 2 ^ (down + d - up) * den := by rw [moved]
    _ = num * 2 ^ up * (den * 2 ^ (down + d - up)) := by ring

-- The lengths of the operands give the exponent, or one too many; the comparison with the first word
-- of the binade tells which.
theorem roundWord_eq (positive : 0 < den) (num up down : Nat) :
    roundWord num den up down = nearestWord (num * 2 ^ up) (den * 2 ^ down) := by
  unfold roundWord
  split
  · rename_i zero
    rw [zero, Nat.zero_mul, nearestWord_zero]
  rename_i nonzero
  dsimp only
  obtain ⟨topLow, topHigh⟩ := scaled_bounds (Nat.pos_of_ne_zero nonzero) up
  obtain ⟨bottomLow, bottomHigh⟩ := scaled_bounds positive down
  have bottomPos : 0 < den * 2 ^ down := Nat.mul_pos positive (Nat.two_pow_pos down)
  have lengths : num.log2 + up - (den.log2 + down + 23) =
      num.log2 + up - (den.log2 + down) - 23 := by omega
  rw [lengths]
  generalize num.log2 + up = a at *
  generalize den.log2 + down = b at *
  generalize dropped : a - b - 23 = d at *
  have scaledPos : 0 < den * 2 ^ down * 2 ^ d := Nat.mul_pos bottomPos (Nat.two_pow_pos d)
  have shiftedPos : 0 < den * twoPower (down + d - up) := Nat.mul_pos positive (twoPower_pos _)
  have same := shifted_same num den up down d
  generalize num * twoPower (up - (down + d)) = num' at *
  generalize den * twoPower (down + d - up) = den' at *
  generalize num * 2 ^ up = top at *
  generalize den * 2 ^ down = bottom at *
  have first : num' < den' * 2 ^ 23 ↔ top < bottom * 2 ^ (d + 23) := by
    rw [lt_mul_iff_of_same shiftedPos scaledPos same, Nat.mul_assoc, ← Nat.pow_add]
  split
  · rename_i one
    obtain ⟨some, less⟩ := one
    obtain ⟨e, rfl⟩ : ∃ e, d = e + 1 := ⟨d - 1, by omega⟩
    have length : a = b + 1 + (e + 23) := by omega
    have below : top < bottom * 2 ^ (e + 24) := first.mp less
    rw [length] at topLow
    have binade : InBinade top bottom e := .of_long topLow bottomHigh below
    rw [Nat.add_sub_cancel, nearestWord_eq bottomPos binade]
    congr 1
    refine roundDiv_congr shiftedPos (Nat.mul_pos bottomPos (Nat.two_pow_pos e)) ?_
    rw [Nat.pow_succ] at same
    linarith
  · rename_i other
    have binade : InBinade top bottom d := by
      refine .of_short (Nat.lt_of_lt_of_le topHigh ?_) bottomLow ?_
      · exact Nat.pow_le_pow_right (by decide) (by omega)
      · by_cases zero : d = 0
        · exact .inl zero
        · refine .inr (Nat.le_of_not_lt ?_)
          intro less
          exact other ⟨Nat.pos_of_ne_zero zero, first.mpr less⟩
    rw [nearestWord_eq bottomPos binade]
    congr 1
    exact roundDiv_congr shiftedPos scaledPos same

theorem nearestWord_quantaOf (w : Nat) : nearestWord (quantaOf w) 1 = w := by
  unfold quantaOf significandOf powerOf
  rw [twoPower_eq]
  split
  · rename_i small
    have none : w / 0x800000 - 1 = 0 := by omega
    have binade : InBinade w 1 0 := ⟨by omega, .inl rfl⟩
    rw [none, Nat.pow_zero, Nat.mul_one, nearestWord_eq Nat.one_pos binade]
    simp [roundDiv_one]
  · rename_i large
    generalize exponent : w / 0x800000 - 1 = e
    generalize significand : 0x800000 + w % 0x800000 = m
    have range : 2 ^ 23 ≤ m ∧ m < 2 ^ 24 := by omega
    have binade : InBinade (m * 2 ^ e) 1 e := by
      refine ⟨?_, .inr ?_⟩
      · rw [Nat.one_mul, Nat.add_comm, Nat.pow_add]
        exact Nat.mul_lt_mul_of_pos_right range.2 (Nat.two_pow_pos e)
      · rw [Nat.one_mul, Nat.add_comm, Nat.pow_add]
        exact Nat.mul_le_mul_right _ range.1
    rw [nearestWord_eq Nat.one_pos binade, Nat.one_mul, roundDiv_mul_self _ _ (Nat.two_pow_pos e)]
    omega

theorem quantaOf_le_iff : quantaOf w ≤ quantaOf w' ↔ w ≤ w' := by
  have forth {u v : Nat} (le : quantaOf u ≤ quantaOf v) : u ≤ v := by
    rw [← nearestWord_quantaOf u, ← nearestWord_quantaOf v]
    exact nearestWord_mono Nat.one_pos Nat.one_pos (by omega)
  constructor
  · exact forth
  · intro le
    by_contra above
    have same : w = w' := Nat.le_antisymm le (forth (by omega))
    rw [same] at above
    exact above (Nat.le_refl _)

@[simp] theorem quantaOf_eq_zero_iff : quantaOf w = 0 ↔ w = 0 := by
  have least : quantaOf w ≤ quantaOf 0 ↔ w ≤ 0 := quantaOf_le_iff
  rw [show quantaOf 0 = 0 by decide] at least
  omega

theorem nearestWord_le (positive : 0 < den) (le : num ≤ quantaOf w * den) :
    nearestWord num den ≤ w := by
  rw [← nearestWord_quantaOf w]
  exact nearestWord_mono positive Nat.one_pos (by rwa [Nat.mul_one])

theorem le_nearestWord (positive : 0 < den) (le : quantaOf w * den ≤ num) :
    w ≤ nearestWord num den := by
  rw [← nearestWord_quantaOf w]
  exact nearestWord_mono Nat.one_pos positive (by rwa [Nat.mul_one])

theorem nearestWord_exact (positive : 0 < den) (same : num = quantaOf w * den) :
    nearestWord num den = w :=
  Nat.le_antisymm (nearestWord_le positive (Nat.le_of_eq same))
    (le_nearestWord positive (Nat.le_of_eq same.symm))

-- Up to half a quantum is rounded away; the tie goes to zero, which is even.
theorem nearestWord_eq_zero_iff (positive : 0 < den) : nearestWord num den = 0 ↔ 2 * num ≤ den := by
  by_cases below : num < den * 2 ^ 24
  · have binade : InBinade num den 0 := ⟨below, .inl rfl⟩
    have small : roundDiv num den ≤ 0 ↔ _ := roundDiv_le_iff positive
    rw [nearestWord_eq positive binade, Nat.zero_mul, Nat.zero_add, Nat.pow_zero, Nat.mul_one]
    omega
  · have one : quantaOf 1 = 1 := by decide
    have least : 1 ≤ nearestWord num den := by
      apply le_nearestWord positive
      rw [one]
      omega
    omega

end Single

end ScanAlign
