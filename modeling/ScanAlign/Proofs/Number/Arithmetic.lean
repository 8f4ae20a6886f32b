import ScanAlign.Proofs.Number.Nearest

namespace ScanAlign

namespace Single

variable {x y z v : Single} {negative : Bool} {num den num' den' up down up' down' : Nat}

theorem eq_of_parts (sign : x.negative = y.negative) (size : x.magnitude = y.magnitude) : x = y := by
  cases x
  cases y
  cases sign
  cases size
  rfl

theorem class_cases (x : Single) :
    x.isNaN = true ∨ x.isInfinite = true ∨ x.isFinite = true := by
  simp only [isNaN, isInfinite, isFinite, decide_eq_true_eq]
  omega

theorem isFinite_iff : x.isFinite = true ↔ x.isNaN = false ∧ x.isInfinite = false := by
  simp only [isNaN, isInfinite, isFinite, decide_eq_true_eq, decide_eq_false_iff_not]
  omega

theorem isNaN_eq_false_iff : x.isNaN = false ↔ x.magnitude ≤ infinityWord := by
  simp [isNaN]

theorem isFinite_iff_lt : x.isFinite = true ↔ x.magnitude < infinityWord := by
  simp [isFinite]

theorem isFinite_of_le (finite : y.isFinite = true) (le : x.magnitude ≤ y.magnitude) :
    x.isFinite = true := isFinite_iff_lt.mpr (Nat.lt_of_le_of_lt le (isFinite_iff_lt.mp finite))

theorem isZero_iff : x.isZero = true ↔ x.magnitude = 0 := by
  simp [isZero]

theorem isZero_eq_false_iff : x.isZero = false ↔ x.magnitude ≠ 0 := by
  simp [isZero]

theorem isFinite_of_isZero (zero : x.isZero = true) : x.isFinite = true := by
  rw [isFinite_iff_lt, isZero_iff.mp zero]
  decide

theorem zero_le_iff : Single.zero ≤ x ↔ x.isNaN = false ∧ (x.negative = false ∨ x.isZero = true) := by
  have start : Single.zero.isNaN = false ∧ Single.zero.position = 0 := by decide
  rw [le_iff, start.1, start.2, isZero_iff, position]
  cases x.negative <;> simp

theorem isNonnegative_iff : x.isNonnegative = true ↔ x.isFinite = true ∧ Single.zero ≤ x := by
  simp [isNonnegative]

theorem quanta_le_iff : x.quanta ≤ y.quanta ↔ x.magnitude ≤ y.magnitude := quantaOf_le_iff

theorem quanta_eq (x : Single) : x.quanta = x.significand * 2 ^ x.power := by
  rw [quanta, quantaOf, twoPower_eq]
  rfl

theorem significand_lt (x : Single) : x.significand < 2 ^ 24 := by
  unfold significand significandOf
  split <;> omega

theorem quanta_eq_zero_iff : x.quanta = 0 ↔ x.isZero = true := by
  rw [isZero_iff]
  exact quantaOf_eq_zero_iff

theorem value_neg (x : Single) : (-x).value = -x.value := by
  change (if !x.negative then -(x.quanta : Int) else x.quanta) = _
  cases h : x.negative <;> simp [value, h]

theorem natAbs_value (x : Single) : x.value.natAbs = x.quanta := by
  unfold value
  split <;> omega

theorem natAbs_position (x : Single) : x.position.natAbs = x.magnitude := by
  unfold position
  split <;> omega

theorem le_iff_value (xFinite : x.isFinite = true) (yFinite : y.isFinite = true) :
    x ≤ y ↔ x.value ≤ y.value := by
  have forth : x.quanta ≤ y.quanta ↔ x.magnitude ≤ y.magnitude := quanta_le_iff
  have back : y.quanta ≤ x.quanta ↔ y.magnitude ≤ x.magnitude := quanta_le_iff
  have xNone : x.quanta = 0 ↔ x.magnitude = 0 := by rw [quanta_eq_zero_iff, isZero_iff]
  have yNone : y.quanta = 0 ↔ y.magnitude = 0 := by rw [quanta_eq_zero_iff, isZero_iff]
  rw [le_iff, (isFinite_iff.mp xFinite).1, (isFinite_iff.mp yFinite).1]
  simp only [true_and, position, value]
  cases x.negative <;> cases y.negative <;> simp only [if_true, Bool.false_eq_true, if_false] <;> omega

theorem lt_iff_value (xFinite : x.isFinite = true) (yFinite : y.isFinite = true) :
    x < y ↔ x.value < y.value := by
  have le := le_iff_value yFinite xFinite
  rw [le_iff, (isFinite_iff.mp xFinite).1, (isFinite_iff.mp yFinite).1] at le
  rw [lt_iff, (isFinite_iff.mp xFinite).1, (isFinite_iff.mp yFinite).1, ← Int.not_le, ← Int.not_le, ← le]
  simp

theorem value_of_zero_le (nonneg : Single.zero ≤ x) : x.value = x.quanta := by
  unfold value
  rcases (zero_le_iff.mp nonneg).2 with plus | zero
  · rw [plus]
    rfl
  · rw [quanta_eq_zero_iff.mpr zero, Int.natCast_zero, Int.neg_zero, ite_self]

theorem le_refl (number : x.isNaN = false) : x ≤ x := le_iff.mpr ⟨number, number, Int.le_refl _⟩

theorem le_of_lt (less : x < y) : x ≤ y := by
  obtain ⟨xNumber, yNumber, below⟩ := lt_iff.mp less
  exact le_iff.mpr ⟨xNumber, yNumber, Int.le_of_lt below⟩

theorem le_trans (one : x ≤ y) (two : y ≤ z) : x ≤ z := by
  obtain ⟨xNumber, _, below⟩ := le_iff.mp one
  obtain ⟨_, zNumber, above⟩ := le_iff.mp two
  exact le_iff.mpr ⟨xNumber, zNumber, Int.le_trans below above⟩

theorem le_of_not_lt (xNumber : x.isNaN = false) (yNumber : y.isNaN = false) (kept : ¬ y < x) :
    x ≤ y := by
  rw [lt_iff, xNumber, yNumber] at kept
  exact le_iff.mpr ⟨xNumber, yNumber, by simpa using kept⟩

theorem clamp_of_within (low : y ≤ x) (high : x ≤ z) : x.clamp y z = x := by
  have above : ¬ x < y := fun less => absurd (lt_iff.mp less).2.2 (Int.not_lt.mpr (le_iff.mp low).2.2)
  have below : ¬ z < x := fun less => absurd (lt_iff.mp less).2.2 (Int.not_lt.mpr (le_iff.mp high).2.2)
  rw [clamp, if_neg above, if_neg below]

@[simp] theorem negative_ofQuanta : (ofQuanta negative num den up down).negative = negative := rfl

theorem magnitude_ofQuanta (positive : 0 < den) :
    (ofQuanta negative num den up down).magnitude =
      min (nearestWord (num * 2 ^ up) (den * 2 ^ down)) infinityWord := by
  rw [← roundWord_eq positive]
  rfl

@[simp] theorem isNaN_ofQuanta : (ofQuanta negative num den up down).isNaN = false := by
  rw [isNaN_eq_false_iff]
  exact Nat.min_le_right _ _

theorem magnitude_ofQuanta_exact (positive : 0 < den)
    (number : x.isNaN = false) (same : num * 2 ^ up = x.quanta * (den * 2 ^ down)) :
    (ofQuanta negative num den up down).magnitude = x.magnitude := by
  have denPos : 0 < den * 2 ^ down := Nat.mul_pos positive (Nat.two_pow_pos down)
  rw [magnitude_ofQuanta positive, nearestWord_exact denPos same]
  exact Nat.min_eq_left (isNaN_eq_false_iff.mp number)

theorem ofQuanta_exact {low : Nat} (finite : z.isFinite = true) (same : num * 2 ^ low = z.quanta) :
    ofQuanta negative num 1 low 0 = ⟨negative, z.magnitude, z.magnitude_lt⟩ := by
  refine eq_of_parts rfl (magnitude_ofQuanta_exact Nat.one_pos (isFinite_iff.mp finite).1 ?_)
  rw [same, Nat.pow_zero, Nat.mul_one]
  rfl

theorem magnitude_ofQuanta_le (positive : 0 < den)
    (le : num * 2 ^ up ≤ x.quanta * (den * 2 ^ down)) :
    (ofQuanta negative num den up down).magnitude ≤ x.magnitude := by
  have denPos : 0 < den * 2 ^ down := Nat.mul_pos positive (Nat.two_pow_pos down)
  rw [magnitude_ofQuanta positive]
  exact Nat.le_trans (Nat.min_le_left _ _) (nearestWord_le denPos le)

theorem le_magnitude_ofQuanta (positive : 0 < den) (number : x.isNaN = false)
    (le : x.quanta * (den * 2 ^ down) ≤ num * 2 ^ up) :
    x.magnitude ≤ (ofQuanta negative num den up down).magnitude := by
  have denPos : 0 < den * 2 ^ down := Nat.mul_pos positive (Nat.two_pow_pos down)
  rw [magnitude_ofQuanta positive]
  exact Nat.le_min.mpr ⟨le_nearestWord denPos le, isNaN_eq_false_iff.mp number⟩

theorem mul_of_finite (xFinite : x.isFinite = true) (yFinite : y.isFinite = true) :
    x * y = ofQuanta (x.negative != y.negative) (x.significand * y.significand) 1
      (x.power + y.power) 149 := by
  obtain ⟨xNumber, xBounded⟩ := isFinite_iff.mp xFinite
  obtain ⟨yNumber, yBounded⟩ := isFinite_iff.mp yFinite
  change (if x.isNaN then x else if y.isNaN then y else _) = _
  simp only [xNumber, yNumber, xBounded, yBounded, Bool.or_self, Bool.false_eq_true, if_false]

theorem negative_mul (xFinite : x.isFinite = true) (yFinite : y.isFinite = true) :
    (x * y).negative = (x.negative != y.negative) := by
  rw [mul_of_finite xFinite yFinite]
  rfl

theorem isNaN_mul (xFinite : x.isFinite = true) (yFinite : y.isFinite = true) :
    (x * y).isNaN = false := by
  rw [mul_of_finite xFinite yFinite, isNaN_ofQuanta]

theorem significands_mul (x y : Single) :
    x.significand * y.significand * 2 ^ (x.power + y.power) = x.quanta * y.quanta := by
  rw [quanta_eq, quanta_eq, Nat.pow_add]
  ring

theorem magnitude_mul (xFinite : x.isFinite = true) (yFinite : y.isFinite = true) :
    (x * y).magnitude = min (nearestWord (x.quanta * y.quanta) (2 ^ 149)) infinityWord := by
  rw [mul_of_finite xFinite yFinite, magnitude_ofQuanta Nat.one_pos, significands_mul, Nat.one_mul]

theorem le_magnitude_mul (xFinite : x.isFinite = true) (yFinite : y.isFinite = true)
    (number : z.isNaN = false) (le : z.quanta * 2 ^ 149 ≤ x.quanta * y.quanta) :
    z.magnitude ≤ (x * y).magnitude := by
  rw [mul_of_finite xFinite yFinite]
  apply le_magnitude_ofQuanta Nat.one_pos number
  rwa [significands_mul, Nat.one_mul]

theorem magnitude_mul_mono (xFinite : x.isFinite = true) (yFinite : y.isFinite = true)
    (zFinite : z.isFinite = true) (vFinite : v.isFinite = true) (first : x.magnitude ≤ z.magnitude)
    (second : y.magnitude ≤ v.magnitude) : (x * y).magnitude ≤ (z * v).magnitude := by
  rw [magnitude_mul xFinite yFinite, magnitude_mul zFinite vFinite]
  refine min_le_min_right _ (nearestWord_mono (Nat.two_pow_pos 149) (Nat.two_pow_pos 149) ?_)
  exact Nat.mul_le_mul_right _
    (Nat.mul_le_mul (quanta_le_iff.mpr first) (quanta_le_iff.mpr second))

theorem mul_of_infinite (infinite : x.isInfinite = true) (yFinite : y.isFinite = true) :
    x * y = if y.isZero then invalid else infinity (x.negative != y.negative) := by
  have word : x.magnitude = infinityWord := of_decide_eq_true infinite
  have number : x.isNaN = false := isNaN_eq_false_iff.mpr (Nat.le_of_eq word)
  have large : x.isZero = false := by
    rw [isZero_eq_false_iff, word]
    decide
  change (if x.isNaN then x else if y.isNaN then y else
    if x.isInfinite || y.isInfinite then
      if x.isZero || y.isZero then invalid else infinity (x.negative != y.negative)
    else _) = _
  simp only [number, infinite, large, (isFinite_iff.mp yFinite).1, Bool.true_or, Bool.false_or,
    Bool.false_eq_true, if_true, if_false]

theorem isZero_mul (xFinite : x.isFinite = true) (yFinite : y.isFinite = true)
    (zero : x.isZero = true ∨ y.isZero = true) : (x * y).isZero = true := by
  have product : x.quanta * y.quanta = 0 := by
    rw [Nat.mul_eq_zero, quanta_eq_zero_iff, quanta_eq_zero_iff]
    exact zero
  rw [isZero_iff, magnitude_mul xFinite yFinite, product, nearestWord_zero]
  rfl

theorem one_isFinite : one.isFinite = true := by decide

theorem quanta_one : one.quanta = 2 ^ 149 := by decide +kernel

theorem mul_one_self (x : Single) : x * one = x := by
  rcases x.class_cases with nan | infinite | finite
  · change (if x.isNaN then x else _) = x
    rw [if_pos nan]
  · rw [mul_of_infinite infinite one_isFinite, show one.isZero = false by decide]
    apply eq_of_parts
    · exact Bool.xor_false x.negative
    · exact (of_decide_eq_true infinite).symm
  · apply eq_of_parts
    · rw [negative_mul finite one_isFinite]
      exact Bool.xor_false x.negative
    · rw [mul_of_finite finite one_isFinite]
      refine magnitude_ofQuanta_exact Nat.one_pos (isFinite_iff.mp finite).1 ?_
      rw [significands_mul, quanta_one, Nat.one_mul]

theorem zero_le_mul (xFinite : x.isFinite = true) (yFinite : y.isFinite = true)
    (xNonneg : Single.zero ≤ x) (yNonneg : Single.zero ≤ y) : Single.zero ≤ x * y := by
  refine zero_le_iff.mpr ⟨isNaN_mul xFinite yFinite, ?_⟩
  rcases (zero_le_iff.mp xNonneg).2 with xPlus | xZero
  · rcases (zero_le_iff.mp yNonneg).2 with yPlus | yZero
    · rw [negative_mul xFinite yFinite, xPlus, yPlus]
      exact .inl rfl
    · exact .inr (isZero_mul xFinite yFinite (.inr yZero))
  · exact .inr (isZero_mul xFinite yFinite (.inl xZero))

-- Both are numbers, and they differ at most in the sign of a zero.
def SameNumber (x y : Single) : Prop := x ≤ y ∧ y ≤ x

instance (x y : Single) : Decidable (x.SameNumber y) := by
  unfold SameNumber
  infer_instance

theorem sub_of_numbers (xNumber : x.isNaN = false) (yNumber : y.isNaN = false) :
    x - y = addNumbers x (-y) := by
  change (if x.isNaN then x else if y.isNaN then y else _) = _
  rw [xNumber, yNumber]
  rfl

theorem add_of_numbers (xNumber : x.isNaN = false) (yNumber : y.isNaN = false) :
    x + y = addNumbers x y := by
  change (if x.isNaN then x else if y.isNaN then y else _) = _
  rw [xNumber, yNumber]
  rfl

theorem multipleOf_mul {low : Nat} (lies : low ≤ x.power ∨ x.isZero = true) :
    x.multipleOf low * 2 ^ low = x.quanta := by
  rw [quanta_eq, multipleOf, twoPower_eq, Nat.mul_assoc]
  rcases lies with le | zero
  · rw [← Nat.pow_add, Nat.sub_add_cancel le]
  · have none : x.significand = 0 := by
      rw [significand, isZero_iff.mp zero]
      rfl
    rw [none, Nat.zero_mul, Nat.zero_mul]

theorem commonPower_lies (x y : Single) :
    (commonPower x y ≤ x.power ∨ x.isZero = true) ∧
      (commonPower x y ≤ y.power ∨ y.isZero = true) := by
  unfold commonPower
  cases xZero : x.isZero with
  | true => simp
  | false =>
    cases yZero : y.isZero with
    | true => simp
    | false => simp

theorem multiples (x y : Single) :
    x.multipleOf (commonPower x y) * 2 ^ commonPower x y = x.quanta ∧
      y.multipleOf (commonPower x y) * 2 ^ commonPower x y = y.quanta :=
  ⟨multipleOf_mul (commonPower_lies x y).1, multipleOf_mul (commonPower_lies x y).2⟩

-- What an addition rounds is the exact sum; opposite numbers of one size have the sum `zero`.
theorem add_of_finite (xFinite : x.isFinite = true) (yFinite : y.isFinite = true) :
    ∃ sign num low, x + y = ofQuanta sign num 1 low 0 ∧
      x.value + y.value = (if sign then -((num * 2 ^ low : Nat) : Int) else (num * 2 ^ low : Nat)) ∧
      (num = 0 → sign = (x.negative && y.negative)) := by
  obtain ⟨xNumber, xBounded⟩ := isFinite_iff.mp xFinite
  obtain ⟨yNumber, yBounded⟩ := isFinite_iff.mp yFinite
  obtain ⟨xWhole, yWhole⟩ := multiples x y
  rw [add_of_numbers xNumber yNumber, value, value]
  unfold addNumbers
  simp only [xBounded, yBounded, Bool.false_eq_true, if_false]
  generalize commonPower x y = low at *
  generalize x.multipleOf low = p at *
  generalize y.multipleOf low = q at *
  have order (k l : Nat) : k ≤ l → k * 2 ^ low ≤ l * 2 ^ low := Nat.mul_le_mul_right _
  split
  · rename_i signs
    refine ⟨_, _, low, rfl, ?_, ?_⟩
    · rw [Nat.add_mul, xWhole, yWhole, signs]
      split <;> omega
    · intro _
      rw [signs, Bool.and_self]
  · rename_i signs
    have opposite : y.negative = !x.negative := by
      cases xSign : x.negative <;> cases ySign : y.negative <;> simp_all
    rw [opposite, Bool.and_not_self]
    split
    · rename_i less
      refine ⟨_, _, low, rfl, ?_, by omega⟩
      have le := order q p (Nat.le_of_lt less)
      rw [Nat.sub_mul, xWhole, yWhole]
      cases x.negative <;> simp <;> omega
    · split
      · rename_i less
        refine ⟨_, _, low, rfl, ?_, by omega⟩
        have le := order p q (Nat.le_of_lt less)
        rw [Nat.sub_mul, xWhole, yWhole]
        cases x.negative <;> simp <;> omega
      · refine ⟨false, 0, low, rfl, ?_, fun _ => rfl⟩
        have level : p = q := by omega
        rw [← xWhole, ← yWhole, level]
        cases x.negative <;> simp

theorem sub_eq_add_neg (xNumber : x.isNaN = false) (yNumber : y.isNaN = false) : x - y = x + -y := by
  rw [sub_of_numbers xNumber yNumber, add_of_numbers xNumber (by rwa [isNaN_neg])]

-- A number with a plus sign: the positive zero and all above.
structure IsPlus (x : Single) : Prop where
  number : x.isNaN = false
  plus : x.negative = false

theorem IsPlus.zero_le (plus : x.IsPlus) : Single.zero ≤ x :=
  zero_le_iff.mpr ⟨plus.number, .inl plus.plus⟩

theorem isPlus_zero : Single.zero.IsPlus := ⟨by decide, rfl⟩

theorem isPlus_of_pos (positive : Single.zero < x) : x.IsPlus ∧ x.isZero = false := by
  obtain ⟨_, number, less⟩ := lt_iff.mp positive
  rw [show Single.zero.position = 0 by decide, position] at less
  refine ⟨⟨number, ?_⟩, ?_⟩
  · cases sign : x.negative with
    | true =>
      rw [sign, if_pos rfl] at less
      omega
    | false => rfl
  · rw [isZero_eq_false_iff]
    intro zero
    rw [zero] at less
    split at less <;> omega

theorem IsPlus.rank_eq (plus : x.IsPlus) : x.rank = x.magnitude := by
  rw [rank, plus.plus]
  rfl

theorem IsPlus.position_eq (plus : x.IsPlus) : x.position = x.magnitude := by
  rw [position, plus.plus]
  rfl

theorem IsPlus.lt_iff (xPlus : x.IsPlus) (yPlus : y.IsPlus) :
    x < y ↔ x.magnitude < y.magnitude := by
  rw [Single.lt_iff, xPlus.position_eq, yPlus.position_eq]
  simp [xPlus.number, yPlus.number]

theorem IsPlus.le_iff (xPlus : x.IsPlus) (yPlus : y.IsPlus) :
    x ≤ y ↔ x.magnitude ≤ y.magnitude := by
  rw [Single.le_iff, xPlus.position_eq, yPlus.position_eq]
  simp [xPlus.number, yPlus.number]

theorem IsPlus.eq_of_sameNumber (xPlus : x.IsPlus) (yPlus : y.IsPlus) (same : x.SameNumber y) :
    x = y := by
  have forth := (Single.le_iff.mp same.1).2.2
  have back := (Single.le_iff.mp same.2).2.2
  rw [xPlus.position_eq, yPlus.position_eq] at forth back
  exact eq_of_parts (xPlus.plus.trans yPlus.plus.symm) (by omega)

theorem IsPlus.isZero_mul_eq (plus : y.IsPlus) (finite : y.isFinite = true) (zero : x.isZero = true) :
    x * y = x := by
  have xFinite := isFinite_of_isZero zero
  apply eq_of_parts
  · rw [negative_mul xFinite finite, plus.plus]
    exact Bool.xor_false x.negative
  · rw [isZero_iff.mp zero, isZero_iff.mp (isZero_mul xFinite finite (.inl zero))]

-- A number with a plus sign times a greater one ranks no lower, also where the product has no value.
theorem IsPlus.rank_mul_mono (plus : x.IsPlus) (yPlus : y.IsPlus) (zPlus : z.IsPlus)
    (zFinite : z.isFinite = true) (le : y.magnitude ≤ z.magnitude) :
    (x * y).rank ≤ (x * z).rank := by
  have yFinite := isFinite_of_le zFinite le
  rcases x.class_cases with nan | infinite | finite
  · rw [plus.number] at nan
    cases nan
  · rw [mul_of_infinite infinite yFinite, mul_of_infinite infinite zFinite, plus.plus, yPlus.plus,
      zPlus.plus]
    cases yZero : y.isZero with
    | true => cases z.isZero <;> decide
    | false =>
      have zNonzero : z.isZero = false := by
        rw [isZero_eq_false_iff] at yZero ⊢
        omega
      rw [zNonzero]
  · have isPlus {w : Single} (wPlus : w.IsPlus) (wFinite : w.isFinite = true) : (x * w).IsPlus := by
      refine ⟨isNaN_mul finite wFinite, ?_⟩
      rw [negative_mul finite wFinite, plus.plus, wPlus.plus]
      rfl
    rw [(isPlus yPlus yFinite).rank_eq, (isPlus zPlus zFinite).rank_eq]
    exact_mod_cast magnitude_mul_mono finite yFinite finite zFinite (Nat.le_refl _) le

theorem add_of_nonneg {n : Nat} (xFinite : x.isFinite = true) (yFinite : y.isFinite = true)
    (total : x.value + y.value = n) (sign : x.negative = false ∨ y.negative = false) :
    (x + y).IsPlus ∧ (x + y).magnitude = min (nearestWord n 1) infinityWord := by
  obtain ⟨negative, num, low, sum, signed, none⟩ := add_of_finite xFinite yFinite
  have plus : negative = false := by
    cases negative with
    | false => rfl
    | true =>
      have empty : num * 2 ^ low = 0 := by
        rw [if_pos rfl] at signed
        omega
      have cancelled := none ((Nat.mul_eq_zero.mp empty).resolve_right (Nat.two_pow_pos low).ne')
      rcases sign with xPlus | yPlus
      · rw [xPlus, Bool.false_and] at cancelled
        cases cancelled
      · rw [yPlus, Bool.and_false] at cancelled
        cases cancelled
  have whole : num * 2 ^ low = n := by
    rw [plus, if_neg Bool.false_ne_true] at signed
    omega
  rw [sum, plus, magnitude_ofQuanta Nat.one_pos, whole, Nat.pow_zero, Nat.mul_one]
  exact ⟨⟨isNaN_ofQuanta, rfl⟩, rfl⟩

theorem add_of_infinite (plus : x.IsPlus) (nonneg : Single.zero ≤ y)
    (infinite : x.isInfinite = true ∨ y.isInfinite = true) : x + y = infinity false := by
  obtain ⟨yNumber, sign⟩ := zero_le_iff.mp nonneg
  have yPlus (yInfinite : y.isInfinite = true) : y.negative = false := by
    refine sign.resolve_right ?_
    intro yZero
    rw [(isFinite_iff.mp (isFinite_of_isZero yZero)).2] at yInfinite
    cases yInfinite
  rw [add_of_numbers plus.number yNumber]
  unfold addNumbers
  cases xInfinite : x.isInfinite with
  | true =>
    have together : (y.isInfinite && x.negative != y.negative) = false := by
      cases yInfinite : y.isInfinite with
      | true => rw [plus.plus, yPlus yInfinite]; rfl
      | false => rfl
    rw [if_pos rfl, together, if_neg Bool.false_ne_true]
    exact eq_of_parts plus.plus (of_decide_eq_true xInfinite)
  | false =>
    have yInfinite := infinite.resolve_left (by rw [xInfinite]; exact Bool.false_ne_true)
    rw [if_neg Bool.false_ne_true, if_pos yInfinite]
    exact eq_of_parts (yPlus yInfinite) (of_decide_eq_true yInfinite)

theorem isFinite_of_bounded (number : x.isNaN = false) (bounded : x.isInfinite = false) :
    x.isFinite = true := isFinite_iff.mpr ⟨number, bounded⟩

theorem IsPlus.add (plus : x.IsPlus) (nonneg : Single.zero ≤ y) : (x + y).IsPlus := by
  by_cases infinite : x.isInfinite = true ∨ y.isInfinite = true
  · rw [add_of_infinite plus nonneg infinite]
    exact ⟨by decide, rfl⟩
  · rw [not_or, Bool.not_eq_true, Bool.not_eq_true] at infinite
    have xFinite := isFinite_of_bounded plus.number infinite.1
    have yFinite := isFinite_of_bounded (zero_le_iff.mp nonneg).1 infinite.2
    have total : x.value + y.value = (x.quanta + y.quanta : Nat) := by
      rw [value_of_zero_le plus.zero_le, value_of_zero_le nonneg, Int.natCast_add]
    exact (add_of_nonneg xFinite yFinite total (.inl plus.plus)).1

theorem IsPlus.sub (plus : x.IsPlus) (yPlus : y.IsPlus) (xFinite : x.isFinite = true)
    (yFinite : y.isFinite = true) (le : y.magnitude ≤ x.magnitude) :
    (x - y).IsPlus ∧ (x - y).magnitude ≤ x.magnitude := by
  have quanta := quanta_le_iff.mpr le
  have total : x.value + (-y).value = (x.quanta - y.quanta : Nat) := by
    rw [value_neg, value_of_zero_le plus.zero_le, value_of_zero_le yPlus.zero_le]
    omega
  rw [sub_eq_add_neg plus.number yPlus.number]
  obtain ⟨sum, size⟩ := add_of_nonneg xFinite (y := -y) yFinite total (.inl plus.plus)
  refine ⟨sum, ?_⟩
  rw [size]
  refine (Nat.min_le_left _ _).trans (nearestWord_le Nat.one_pos ?_)
  rw [Nat.mul_one]
  exact Nat.sub_le _ _

theorem div_of_finite (xFinite : x.isFinite = true) (yFinite : y.isFinite = true)
    (nonzero : y.isZero = false) :
    x / y = ofQuanta (x.negative != y.negative) x.significand y.significand (x.power + 149)
      y.power := by
  obtain ⟨xNumber, xBounded⟩ := isFinite_iff.mp xFinite
  obtain ⟨yNumber, yBounded⟩ := isFinite_iff.mp yFinite
  change (if x.isNaN then x else if y.isNaN then y else _) = _
  simp only [xNumber, yNumber, xBounded, yBounded, nonzero, Bool.false_eq_true, if_false]

theorem significand_pos (nonzero : y.isZero = false) : 0 < y.significand := by
  refine Nat.pos_of_ne_zero ?_
  intro zero
  have quanta : y.quanta = 0 := by rw [quanta_eq, zero, Nat.zero_mul]
  rw [quanta_eq_zero_iff, nonzero] at quanta
  cases quanta

theorem magnitude_div_le (xFinite : x.isFinite = true) (yFinite : y.isFinite = true)
    (nonzero : y.isZero = false) (le : x.quanta * 2 ^ 149 ≤ z.quanta * y.quanta) :
    (x / y).magnitude ≤ z.magnitude := by
  rw [div_of_finite xFinite yFinite nonzero]
  apply magnitude_ofQuanta_le (significand_pos nonzero)
  rw [Nat.pow_add, ← Nat.mul_assoc, ← quanta_eq, ← quanta_eq]
  exact le

theorem IsPlus.div (xPlus : x.IsPlus) (yPlus : y.IsPlus) (number : (x / y).isNaN = false) :
    (x / y).IsPlus := by
  refine ⟨number, ?_⟩
  have quotient : x / y =
      if x.isInfinite then
        if y.isInfinite then invalid else infinity (x.negative != y.negative)
      else if y.isInfinite then ⟨x.negative != y.negative, 0, by decide⟩
      else if y.isZero then
        if x.isZero then invalid else infinity (x.negative != y.negative)
      else ofQuanta (x.negative != y.negative) x.significand y.significand
        (x.power + 149) y.power := by
    change (if x.isNaN then x else if y.isNaN then y else _) = _
    rw [xPlus.number, yPlus.number]
    rfl
  have sign : (x.negative != y.negative) = false := by rw [xPlus.plus, yPlus.plus]; rfl
  have undefined : invalid.isNaN = true := by decide
  rw [sign] at quotient
  rw [quotient] at number ⊢
  split at number
  · split at number
    · rw [undefined] at number
      cases number
    · simp_all [infinity]
  · split at number
    · simp_all
    · split at number
      · split at number
        · rw [undefined] at number
          cases number
        · simp_all [infinity]
      · simp_all

end Single

end ScanAlign
