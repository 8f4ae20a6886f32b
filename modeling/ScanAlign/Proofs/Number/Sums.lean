import ScanAlign.Proofs.Number.Arithmetic

namespace ScanAlign

namespace Single

variable {x y z v : Single} {m e j num w : Nat} {terms : List Single}

theorem quantaOf_word (short : m < 2 ^ 24) (normal : e = 0 ∨ 2 ^ 23 ≤ m) :
    quantaOf (e * 2 ^ 23 + m) = m * 2 ^ e := by
  unfold quantaOf significandOf powerOf
  rw [twoPower_eq]
  split
  · obtain rfl : e = 0 := by omega
    have none : (0 * 2 ^ 23 + m) / 0x800000 - 1 = 0 := by omega
    rw [none, Nat.zero_mul, Nat.zero_add]
  · have power : (e * 2 ^ 23 + m) / 0x800000 - 1 = e := by omega
    have significand : 0x800000 + (e * 2 ^ 23 + m) % 0x800000 = m := by omega
    rw [power, significand]

theorem exists_quantaOf (short : m ≤ 2 ^ 24) (j : Nat) : ∃ w, quantaOf w = m * 2 ^ j := by
  rcases Nat.lt_or_eq_of_le short with less | rfl
  · rcases Nat.eq_zero_or_pos m with rfl | positive
    · exact ⟨0, by rw [Nat.zero_mul]; decide⟩
    · have length : m.log2 < 24 := (Nat.log2_lt (by omega)).mpr less
      have low : 2 ^ m.log2 ≤ m := Nat.log2_self_le (by omega)
      have high : m < 2 ^ (m.log2 + 1) := Nat.lt_log2_self
      -- The bits move up until the first one is in place or the power is used up.
      obtain ⟨d, most, le, full⟩ : ∃ d, d ≤ 23 - m.log2 ∧ d ≤ j ∧ (d = j ∨ d = 23 - m.log2) :=
        ⟨min (23 - m.log2) j, by omega⟩
      refine ⟨(j - d) * 2 ^ 23 + m * 2 ^ d, ?_⟩
      have below : m * 2 ^ d < 2 ^ 24 :=
        calc m * 2 ^ d < 2 ^ (m.log2 + 1) * 2 ^ d :=
              Nat.mul_lt_mul_of_pos_right high (Nat.two_pow_pos d)
          _ = 2 ^ (m.log2 + 1 + d) := (Nat.pow_add 2 _ d).symm
          _ ≤ 2 ^ 24 := Nat.pow_le_pow_right (by decide) (by omega)
      rw [quantaOf_word below ?_, Nat.mul_assoc, ← Nat.pow_add, Nat.add_sub_cancel' le]
      rcases full with rfl | rfl
      · exact .inl (Nat.sub_self d)
      · refine .inr ?_
        calc 2 ^ 23 = 2 ^ m.log2 * 2 ^ (23 - m.log2) := by
              rw [← Nat.pow_add, Nat.add_sub_cancel' (by omega)]
          _ ≤ m * 2 ^ (23 - m.log2) := Nat.mul_le_mul_right _ low
  · refine ⟨(j + 1) * 2 ^ 23 + 2 ^ 23, ?_⟩
    rw [quantaOf_word (by decide) (.inr (Nat.le_refl _)), Nat.pow_succ]
    omega

theorem quanta_ofQuanta_le {negative : Bool} {den up down : Nat} (positive : 0 < den)
    (le : num * 2 ^ up ≤ 2 ^ j * (den * 2 ^ down)) :
    (ofQuanta negative num den up down).quanta ≤ 2 ^ j := by
  obtain ⟨w, word⟩ := exists_quantaOf (m := 1) (by decide) j
  rw [Nat.one_mul] at word
  rw [← word] at le ⊢
  rw [quanta, quantaOf_le_iff, magnitude_ofQuanta positive]
  refine (Nat.min_le_left _ _).trans (nearestWord_le ?_ le)
  exact Nat.mul_pos positive (Nat.two_pow_pos down)

theorem quanta_mul_le {i : Nat} (xFinite : x.isFinite = true) (yFinite : y.isFinite = true)
    (first : x.quanta ≤ 2 ^ (i + 149)) (second : y.quanta ≤ 2 ^ j) :
    (x * y).quanta ≤ 2 ^ (i + j) := by
  rw [mul_of_finite xFinite yFinite]
  apply quanta_ofQuanta_le Nat.one_pos
  rw [significands_mul, Nat.one_mul]
  calc x.quanta * y.quanta ≤ 2 ^ (i + 149) * 2 ^ j := Nat.mul_le_mul first second
    _ = 2 ^ (i + j) * 2 ^ 149 := by ring

theorem quanta_ofInt_le {n : Int} (le : n.natAbs ≤ 2 ^ j) : (ofInt n).quanta ≤ 2 ^ (j + 149) := by
  apply quanta_ofQuanta_le Nat.one_pos
  rw [Nat.pow_zero, Nat.mul_one, Nat.pow_add]
  exact Nat.mul_le_mul_right _ le

theorem quanta_infinity : quantaOf infinityWord = 2 ^ 277 := by decide +kernel

theorem isFinite_of_quanta_lt (less : x.quanta < 2 ^ 277) : x.isFinite = true := by
  rw [isFinite_iff_lt]
  by_contra above
  have le : quantaOf infinityWord ≤ x.quanta := quantaOf_le_iff.mpr (Nat.le_of_not_lt above)
  rw [quanta_infinity] at le
  omega

theorem isFinite_of_quanta_le (le : x.quanta ≤ 2 ^ j) (range : j < 277) : x.isFinite = true := by
  apply isFinite_of_quanta_lt
  calc x.quanta ≤ 2 ^ j := le
    _ < 2 ^ 277 := pow_lt_pow_right₀ (by decide) range

theorem isNaN_eq_false_of_zero_le (nonneg : Single.zero ≤ y) : y.isNaN = false :=
  (zero_le_iff.mp nonneg).1

theorem magnitude_add (plus : x.IsPlus) (xFinite : x.isFinite = true) (yFinite : y.isFinite = true)
    (nonneg : Single.zero ≤ y) :
    (x + y).magnitude = min (nearestWord (x.quanta + y.quanta) 1) infinityWord := by
  have total : x.value + y.value = (x.quanta + y.quanta : Nat) := by
    rw [value_of_zero_le plus.zero_le, value_of_zero_le nonneg, Int.natCast_add]
  exact (add_of_nonneg xFinite yFinite total (.inl plus.plus)).2

theorem magnitude_add_of_infinite (plus : x.IsPlus) (nonneg : Single.zero ≤ y)
    (infinite : x.isInfinite = true ∨ y.isInfinite = true) : (x + y).magnitude = infinityWord := by
  rw [add_of_infinite plus nonneg infinite]
  rfl

theorem magnitude_add_mono (xPlus : x.IsPlus) (zPlus : z.IsPlus) (yNonneg : Single.zero ≤ y)
    (vNonneg : Single.zero ≤ v) (first : x.magnitude ≤ z.magnitude)
    (second : y.magnitude ≤ v.magnitude) : (x + y).magnitude ≤ (z + v).magnitude := by
  by_cases infinite : z.isInfinite = true ∨ v.isInfinite = true
  · rw [magnitude_add_of_infinite zPlus vNonneg infinite]
    exact isNaN_eq_false_iff.mp (xPlus.add yNonneg).number
  · rw [not_or, Bool.not_eq_true, Bool.not_eq_true] at infinite
    have zFinite := isFinite_of_bounded zPlus.number infinite.1
    have vFinite := isFinite_of_bounded (isNaN_eq_false_of_zero_le vNonneg) infinite.2
    have xFinite := isFinite_of_le zFinite first
    have yFinite := isFinite_of_le vFinite second
    rw [magnitude_add xPlus xFinite yFinite yNonneg, magnitude_add zPlus zFinite vFinite vNonneg]
    refine min_le_min_right _ (nearestWord_mono Nat.one_pos Nat.one_pos ?_)
    rw [Nat.mul_one, Nat.mul_one]
    exact Nat.add_le_add (quanta_le_iff.mpr first) (quanta_le_iff.mpr second)

-- Half a unit above `2 ^ (j + 24)` quanta is a tie, and the even word is below.
theorem nearestWord_stalls (le : num ≤ 2 ^ (j + 24) + 2 ^ j) (word : quantaOf w = 2 ^ (j + 24)) :
    nearestWord num 1 ≤ w := by
  have binade : InBinade (2 ^ (j + 24) + 2 ^ j) 1 (j + 1) := by
    have parts : 2 ^ (j + 1 + 24) = 2 ^ (j + 24) + 2 ^ (j + 24) := by ring
    have less : 2 ^ j < 2 ^ (j + 24) := Nat.pow_lt_pow_right (by decide) (by omega)
    refine ⟨by omega, .inr ?_⟩
    rw [Nat.one_mul, show j + 1 + 23 = j + 24 by omega]
    exact Nat.le_add_right _ _
  have rounded : roundDiv (2 ^ (j + 24) + 2 ^ j) (1 * 2 ^ (j + 1)) ≤ 2 ^ 23 := by
    rw [roundDiv_le_iff (Nat.mul_pos Nat.one_pos (Nat.two_pow_pos _))]
    refine .inr ⟨?_, by decide⟩
    ring
  have same : w = (j + 1) * 2 ^ 23 + 2 ^ 23 := by
    rw [← nearestWord_quantaOf w, word]
    refine nearestWord_exact Nat.one_pos ?_
    rw [quantaOf_word (by decide) (.inr (Nat.le_refl _))]
    ring
  calc nearestWord num 1 ≤ nearestWord (2 ^ (j + 24) + 2 ^ j) 1 :=
        nearestWord_mono Nat.one_pos Nat.one_pos (by omega)
    _ = (j + 1) * 2 ^ 23 + roundDiv (2 ^ (j + 24) + 2 ^ j) (1 * 2 ^ (j + 1)) :=
        nearestWord_eq Nat.one_pos binade
    _ ≤ w := by omega

-- What a sum of so many terms, each of at most `2 ^ j` quanta, cannot exceed.
structure Capped (j count : Nat) (x : Single) : Prop where
  plus : x.IsPlus
  quanta_le : x.quanta ≤ min count (2 ^ 24) * 2 ^ j

theorem Capped.isFinite {count : Nat} (capped : Capped j count x) (range : j ≤ 252) :
    x.isFinite = true := by
  have le : x.quanta ≤ 2 ^ (24 + j) :=
    calc x.quanta ≤ min count (2 ^ 24) * 2 ^ j := capped.quanta_le
      _ ≤ 2 ^ 24 * 2 ^ j := Nat.mul_le_mul_right _ (Nat.min_le_right _ _)
      _ = 2 ^ (24 + j) := (Nat.pow_add 2 24 j).symm
  exact isFinite_of_quanta_le le (by omega)

theorem Capped.add {count : Nat} (capped : Capped j count x) (range : j ≤ 252)
    (nonneg : Single.zero ≤ y) (small : y.quanta ≤ 2 ^ j) : Capped j (count + 1) (x + y) := by
  refine ⟨capped.plus.add nonneg, ?_⟩
  have le := capped.quanta_le
  have yFinite : y.isFinite = true := isFinite_of_quanta_le small (by omega)
  obtain ⟨w, word⟩ := exists_quantaOf (Nat.min_le_right (count + 1) (2 ^ 24)) j
  rw [quanta, ← word, quantaOf_le_iff,
    magnitude_add capped.plus (capped.isFinite range) yFinite nonneg]
  refine Nat.le_trans (Nat.min_le_left _ _) ?_
  by_cases room : count < 2 ^ 24
  · apply nearestWord_le Nat.one_pos
    rw [Nat.min_eq_left (by omega)] at le
    rw [word, Nat.mul_one, Nat.min_eq_left (by omega), Nat.succ_mul]
    omega
  · rw [Nat.min_eq_right (by omega), ← Nat.pow_add, Nat.add_comm 24] at le word
    exact nearestWord_stalls (by omega) word

theorem Capped.foldl_add {count : Nat} (capped : Capped j count x) (range : j ≤ 252)
    (nonneg : ∀ y ∈ terms, Single.zero ≤ y) (small : ∀ y ∈ terms, y.quanta ≤ 2 ^ j) :
    Capped j (count + terms.length) (terms.foldl (· + ·) x) := by
  induction terms generalizing x count with
  | nil => exact capped
  | cons y rest ih =>
    rw [List.forall_mem_cons] at nonneg small
    rw [List.foldl_cons, List.length_cons, Nat.add_comm rest.length, ← Nat.add_assoc]
    exact ih (capped.add range nonneg.1 small.1) nonneg.2 small.2

theorem capped_zero (j : Nat) : Capped j 0 Single.zero :=
  ⟨isPlus_zero, by rw [Nat.zero_min, Nat.zero_mul]; decide⟩

-- As long as every term counts, a sum of so many positive terms has at least as many quanta.
theorem le_quanta_add {count : Nat} (plus : x.IsPlus) (le : count ≤ x.quanta) (yPlus : y.IsPlus)
    (nonzero : y.isZero = false) (few : count < 2 ^ 24) : count + 1 ≤ (x + y).quanta := by
  obtain ⟨w, word⟩ := exists_quantaOf (m := count + 1) few 0
  rw [Nat.pow_zero, Nat.mul_one] at word
  have inRange : w ≤ infinityWord := by
    rw [← quantaOf_le_iff, word, quanta_infinity]
    omega
  rw [← word, quanta, quantaOf_le_iff]
  by_cases infinite : x.isInfinite = true ∨ y.isInfinite = true
  · rw [magnitude_add_of_infinite plus yPlus.zero_le infinite]
    exact inRange
  · rw [not_or, Bool.not_eq_true, Bool.not_eq_true] at infinite
    rw [magnitude_add plus (isFinite_of_bounded plus.number infinite.1)
      (isFinite_of_bounded yPlus.number infinite.2) yPlus.zero_le]
    refine Nat.le_min.mpr ⟨le_nearestWord Nat.one_pos ?_, inRange⟩
    have some : y.quanta ≠ 0 := by
      rw [ne_eq, quanta_eq_zero_iff, nonzero]
      decide
    omega

theorem le_quanta_foldl_add {count : Nat} (plus : x.IsPlus) (le : count ≤ x.quanta)
    (positive : ∀ y ∈ terms, y.IsPlus ∧ y.isZero = false) (few : count + terms.length ≤ 2 ^ 24) :
    count + terms.length ≤ (terms.foldl (· + ·) x).quanta := by
  induction terms generalizing x count with
  | nil => exact le
  | cons y rest ih =>
    rw [List.forall_mem_cons] at positive
    obtain ⟨⟨yPlus, nonzero⟩, others⟩ := positive
    rw [List.length_cons] at few ⊢
    rw [List.foldl_cons, Nat.add_comm rest.length, ← Nat.add_assoc]
    refine ih (plus.add yPlus.zero_le) ?_ others (by omega)
    exact le_quanta_add plus le yPlus nonzero (by omega)

theorem isPlus_ofInt (n : Nat) : (ofInt n).IsPlus := by
  refine ⟨isNaN_ofQuanta, ?_⟩
  rw [ofInt, negative_ofQuanta, decide_eq_false_iff_not]
  omega

-- Whole numbers are exact up to `2 ^ 24`, and no greater one falls below that.
theorem le_quanta_ofInt (n : Nat) : min n (2 ^ 24) * 2 ^ 149 ≤ (ofInt n).quanta := by
  obtain ⟨w, word⟩ := exists_quantaOf (Nat.min_le_right n (2 ^ 24)) 149
  rw [← word, quanta, quantaOf_le_iff, ofInt, magnitude_ofQuanta Nat.one_pos]
  refine Nat.le_min.mpr ⟨le_nearestWord (by decide) ?_, ?_⟩
  · rw [word, Nat.pow_zero, Nat.mul_one, Int.natAbs_natCast]
    exact Nat.mul_le_mul_right _ (Nat.min_le_left _ _)
  · rw [← quantaOf_le_iff, word, quanta_infinity]
    calc min n (2 ^ 24) * 2 ^ 149 ≤ 2 ^ 24 * 2 ^ 149 :=
          Nat.mul_le_mul_right _ (Nat.min_le_right _ _)
      _ = 2 ^ (24 + 149) := (Nat.pow_add 2 24 149).symm
      _ ≤ 2 ^ 277 := pow_le_pow_right₀ (by decide) (by decide)

theorem quanta_ofInt {n : Nat} (few : n ≤ 2 ^ 24) : (ofInt n).quanta = n * 2 ^ 149 := by
  obtain ⟨w, word⟩ := exists_quantaOf few 149
  refine Nat.le_antisymm ?_ ?_
  · rw [← word, quanta, quantaOf_le_iff, ofInt, magnitude_ofQuanta Nat.one_pos]
    refine Nat.le_trans (Nat.min_le_left _ _) (nearestWord_le (by decide) ?_)
    rw [word, Nat.pow_zero, Nat.mul_one, Int.natAbs_natCast]
  · have le := le_quanta_ofInt n
    rwa [Nat.min_eq_left few] at le

theorem isFinite_ofInt {n : Nat} (few : n ≤ 2 ^ 24) : (ofInt n).isFinite = true := by
  have capped : Capped 149 n (ofInt n) := by
    refine ⟨isPlus_ofInt n, ?_⟩
    rw [quanta_ofInt few, Nat.min_eq_left few]
  exact capped.isFinite (by decide)

theorem isZero_ofInt {n : Nat} (positive : 0 < n) : (ofInt n).isZero = false := by
  have le := le_quanta_ofInt n
  cases zero : (ofInt n).isZero with
  | false => rfl
  | true =>
    rw [quanta_eq_zero_iff.mpr zero] at le
    omega

theorem ceilWhole_eq_leastWhole_iff : x.ceilWhole = leastWhole ↔ x ≤ ofInt leastWhole := by
  have floor : (ofInt leastWhole).isNaN = false ∧
      (ofInt leastWhole).position = -((158 * 2 ^ 23 : Nat) : Int) := by decide +kernel
  have floorQuanta : quantaOf (158 * 2 ^ 23) = 2 ^ 180 := by decide +kernel
  have large : 158 * 2 ^ 23 < infinityWord := by decide
  have apart : leastWhole ≠ 0 ∧ leastWhole ≠ greatestWhole := by decide
  rw [le_iff, floor.1, floor.2, position, ceilWhole]
  rcases x.class_cases with nan | infinite | finite
  · simp [nan, apart.1.symm]
  · have word : x.magnitude = infinityWord := of_decide_eq_true infinite
    have number : x.isNaN = false := isNaN_eq_false_iff.mpr (Nat.le_of_eq word)
    simp only [number, infinite, word, Bool.false_eq_true, if_false, if_true, true_and]
    cases x.negative with
    | true =>
      simp only [if_true, true_iff]
      omega
    | false =>
      simp only [Bool.false_eq_true, if_false, apart.2.symm, false_iff]
      omega
  · obtain ⟨number, bounded⟩ := isFinite_iff.mp finite
    have quanta : 158 * 2 ^ 23 ≤ x.magnitude ↔ 2 ^ 180 ≤ x.quanta := by
      rw [quanta, ← floorQuanta, quantaOf_le_iff]
    have quotient : 2 ^ 31 ≤ -x.value / twoPower 149 ↔ 2 ^ 180 ≤ -x.value := by
      rw [Int.le_ediv_iff_mul_le (by decide), twoPower_eq]
      norm_num
    simp only [number, bounded, Bool.false_eq_true, if_false, true_and]
    have stops : saturate (-(-x.value / twoPower 149)) = leastWhole ↔
        2 ^ 31 ≤ -x.value / twoPower 149 := by
      simp only [saturate, leastWhole, greatestWhole]
      omega
    rw [stops, quotient, value]
    cases x.negative with
    | true =>
      simp only [if_true]
      omega
    | false =>
      simp only [Bool.false_eq_true, if_false]
      omega

theorem ceilWhole_range (x : Single) : leastWhole ≤ x.ceilWhole ∧ x.ceilWhole ≤ greatestWhole := by
  have zero : leastWhole ≤ 0 ∧ (0 : Int) ≤ greatestWhole := by decide
  have ends : leastWhole ≤ greatestWhole := by decide
  unfold ceilWhole
  split
  · exact zero
  · split
    · split
      · exact ⟨Int.le_refl _, ends⟩
      · exact ⟨ends, Int.le_refl _⟩
    · simp only [saturate]
      omega

theorem div_of_infinite (xFinite : x.isFinite = true) (infinite : y.isInfinite = true) :
    x / y = ⟨x.negative != y.negative, 0, by decide⟩ := by
  obtain ⟨xNumber, xBounded⟩ := isFinite_iff.mp xFinite
  have yNumber : y.isNaN = false := isNaN_eq_false_iff.mpr (Nat.le_of_eq (of_decide_eq_true infinite))
  change (if x.isNaN then x else if y.isNaN then y else _) = _
  simp only [xNumber, yNumber, xBounded, infinite, Bool.false_eq_true, if_false, if_true]

theorem IsPlus.div_le_one (xPlus : x.IsPlus) (yPlus : y.IsPlus) (finite : x.isFinite = true)
    (nonzero : y.isZero = false) (le : x.magnitude ≤ y.magnitude) :
    (x / y).IsPlus ∧ (x / y).magnitude ≤ one.magnitude := by
  have bounded : (x / y).magnitude ≤ one.magnitude := by
    cases infinite : y.isInfinite with
    | true =>
      rw [div_of_infinite finite infinite]
      exact Nat.zero_le _
    | false =>
      apply magnitude_div_le finite (isFinite_of_bounded yPlus.number infinite) nonzero
      rw [quanta_one, Nat.mul_comm]
      exact Nat.mul_le_mul_left _ (quanta_le_iff.mpr le)
  refine ⟨xPlus.div yPlus ?_, bounded⟩
  rw [isNaN_eq_false_iff]
  exact Nat.le_trans bounded (by decide)

theorem le_magnitude_div (xFinite : x.isFinite = true) (yFinite : y.isFinite = true)
    (nonzero : y.isZero = false) (number : z.isNaN = false)
    (le : z.quanta * y.quanta ≤ x.quanta * 2 ^ 149) : z.magnitude ≤ (x / y).magnitude := by
  rw [div_of_finite xFinite yFinite nonzero]
  apply le_magnitude_ofQuanta (significand_pos nonzero) number
  calc z.quanta * (y.significand * 2 ^ y.power) = z.quanta * y.quanta := by rw [y.quanta_eq]
    _ ≤ x.quanta * 2 ^ 149 := le
    _ = x.significand * 2 ^ (x.power + 149) := by rw [x.quanta_eq, Nat.pow_add, Nat.mul_assoc]

-- A number between zero and one, both included; either zero will do.
def InUnit (x : Single) : Prop := Single.zero ≤ x ∧ x ≤ one

theorem IsPlus.inUnit (plus : x.IsPlus) (le : x.magnitude ≤ one.magnitude) : x.InUnit := by
  have unit : one.IsPlus := ⟨by decide, rfl⟩
  exact ⟨plus.zero_le, (plus.le_iff unit).mpr le⟩

theorem magnitude_mul_le (xFinite : x.isFinite = true) (yFinite : y.isFinite = true)
    (share : x.magnitude ≤ one.magnitude) : (x * y).magnitude ≤ y.magnitude := by
  have quanta : x.quanta ≤ 2 ^ 149 := by
    rw [← quanta_one]
    exact quanta_le_iff.mpr share
  rw [mul_of_finite xFinite yFinite]
  apply magnitude_ofQuanta_le Nat.one_pos
  rw [significands_mul, Nat.one_mul, Nat.mul_comm]
  exact Nat.mul_le_mul_left _ quanta

theorem isZero_mul_iff (xFinite : x.isFinite = true) (yFinite : y.isFinite = true) :
    (x * y).isZero = true ↔ 2 * (x.quanta * y.quanta) ≤ 2 ^ 149 := by
  have large : infinityWord ≠ 0 := by decide
  rw [isZero_iff, magnitude_mul xFinite yFinite, ← nearestWord_eq_zero_iff (Nat.two_pow_pos 149)]
  omega

end Single

end ScanAlign
