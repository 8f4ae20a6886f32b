import ScanAlign.Proofs.Number.Sums

namespace ScanAlign

namespace Single

variable {a x y z : Single} {m j : Nat}

theorem quanta_lt (finite : x.isFinite = true) : x.quanta < 2 ^ 277 := by
  rw [← quanta_infinity, ← Nat.not_le]
  exact mt quantaOf_le_iff.mp (Nat.not_le.mpr (isFinite_iff_lt.mp finite))

theorem exists_short (short : m ≤ 2 ^ 24) (range : m * 2 ^ j < 2 ^ 277) (negative : Bool) :
    ∃ z : Single, z.isFinite = true ∧ z.negative = negative ∧ z.quanta = m * 2 ^ j := by
  obtain ⟨w, word⟩ := exists_quantaOf short j
  have inRange : w < infinityWord := by
    rw [← Nat.not_le, ← quantaOf_le_iff, word, quanta_infinity]
    exact Nat.not_le.mpr range
  have words : infinityWord < 2 ^ 31 := by decide
  exact ⟨⟨negative, w, by omega⟩, decide_eq_true inRange, rfl, word⟩

-- What is large is counted in a large unit.
theorem exists_multiple (large : 2 ^ (j + 23) ≤ x.quanta) : ∃ m, x.quanta = m * 2 ^ j := by
  have power : j ≤ x.power := by
    have below : x.quanta < 2 ^ (x.power + 24) := by
      rw [quanta_eq, Nat.add_comm, Nat.pow_add]
      exact Nat.mul_lt_mul_of_pos_right x.significand_lt (Nat.two_pow_pos _)
    have exponents := (Nat.pow_lt_pow_iff_right (by decide)).mp (Nat.lt_of_le_of_lt large below)
    omega
  refine ⟨x.significand * 2 ^ (x.power - j), ?_⟩
  rw [quanta_eq, Nat.mul_assoc, ← Nat.pow_add, Nat.sub_add_cancel power]

theorem remainder_of_finite (xFinite : x.isFinite = true) (yFinite : y.isFinite = true)
    (nonzero : y.isZero = false) :
    x.remainder y = ofQuanta x.negative (x.quanta % y.quanta) 1 0 0 := by
  obtain ⟨xNumber, xBounded⟩ := isFinite_iff.mp xFinite
  obtain ⟨yNumber, yBounded⟩ := isFinite_iff.mp yFinite
  simp only [remainder, xNumber, yNumber, xBounded, yBounded, nonzero, Bool.or_self,
    Bool.false_eq_true, if_false]

theorem remainder_of_lt (xFinite : x.isFinite = true) (yFinite : y.isFinite = true)
    (less : x.quanta < y.quanta) : x.remainder y = x := by
  have nonzero : y.isZero = false := by
    rw [← Bool.not_eq_true, ← quanta_eq_zero_iff]
    omega
  rw [remainder_of_finite xFinite yFinite nonzero, Nat.mod_eq_of_lt less]
  exact ofQuanta_exact xFinite (Nat.mul_one _)

-- Below the divisor the remainder is the number itself; otherwise the number is counted in the unit of the
-- divisor, and the remainder has no more bits than the divisor.
theorem exists_remainder (finite : x.isFinite = true) (nonzero : y.isZero = false) :
    ∃ z : Single, z.isFinite = true ∧ z.quanta = x.quanta % y.quanta := by
  rcases Nat.lt_or_ge x.quanta y.quanta with less | le
  · exact ⟨x, finite, (Nat.mod_eq_of_lt less).symm⟩
  · have powers : y.power ≤ x.power := by
      have words := quanta_le_iff.mp le
      unfold power powerOf
      omega
    have units : x.quanta = x.significand * 2 ^ (x.power - y.power) * 2 ^ y.power := by
      rw [quanta_eq, Nat.mul_assoc, ← Nat.pow_add, Nat.sub_add_cancel powers]
    have rest : x.quanta % y.quanta =
        x.significand * 2 ^ (x.power - y.power) % y.significand * 2 ^ y.power := by
      rw [units, y.quanta_eq, Nat.mul_mod_mul_right]
    have fewer := Nat.mod_lt (x.significand * 2 ^ (x.power - y.power)) (significand_pos nonzero)
    have short := y.significand_lt
    have range : x.quanta % y.quanta < 2 ^ 277 :=
      Nat.lt_of_le_of_lt (Nat.mod_le _ _) (quanta_lt finite)
    rw [rest] at range ⊢
    obtain ⟨z, zFinite, _, same⟩ := exists_short (by omega) range false
    exact ⟨z, zFinite, same⟩

theorem value_remainder (xFinite : x.isFinite = true) (yFinite : y.isFinite = true)
    (nonzero : y.isZero = false) :
    (x.remainder y).isFinite = true ∧ (x.remainder y).value = x.value.tmod y.value := by
  obtain ⟨z, finite, same⟩ := exists_remainder xFinite nonzero
  have whole : x.quanta % y.quanta * 2 ^ 0 = z.quanta := by rw [same, Nat.pow_zero, Nat.mul_one]
  rw [remainder_of_finite xFinite yFinite nonzero, ofQuanta_exact finite whole]
  refine ⟨finite, ?_⟩
  change (if x.negative then -(z.quanta : Int) else z.quanta) = _
  rw [same, value, value]
  have signless : ((x.quanta % y.quanta : Nat) : Int) = (x.quanta : Int).tmod y.quanta := rfl
  rw [signless]
  cases x.negative <;> cases y.negative <;> simp [Int.tmod_neg, Int.neg_tmod]

theorem value_add (xFinite : x.isFinite = true) (yFinite : y.isFinite = true)
    (zFinite : z.isFinite = true) (same : z.value = x.value + y.value) :
    (x + y).isFinite = true ∧ (x + y).value = x.value + y.value := by
  obtain ⟨sign, num, low, sum, total, _⟩ := add_of_finite xFinite yFinite
  have whole : num * 2 ^ low = z.quanta := by
    rw [← natAbs_value, same, total]
    split <;> omega
  rw [sum, ofQuanta_exact zFinite whole, total, whole]
  exact ⟨zFinite, rfl⟩

theorem isFinite_add (xFinite : x.isFinite = true) (yFinite : y.isFinite = true)
    (small : x.quanta < 2 ^ 252 ∨ y.quanta < 2 ^ 252) : (x + y).isFinite = true := by
  have greatest : quantaOf (infinityWord - 1) = (2 ^ 24 - 1) * 2 ^ 253 := by decide +kernel
  have rounded : nearestWord ((2 ^ 24 - 1) * 2 ^ 253 + 2 ^ 252 - 1) 1 < infinityWord := by
    decide +kernel
  have most {z : Single} (finite : z.isFinite = true) : z.quanta ≤ (2 ^ 24 - 1) * 2 ^ 253 := by
    rw [← greatest, quanta, quantaOf_le_iff]
    exact Nat.le_sub_one_of_lt (isFinite_iff_lt.mp finite)
  obtain ⟨sign, num, low, sum, total, _⟩ := add_of_finite xFinite yFinite
  have bound : num * 2 ^ low ≤ (2 ^ 24 - 1) * 2 ^ 253 + 2 ^ 252 - 1 := by
    have first := most xFinite
    have second := most yFinite
    have xSize := natAbs_value x
    have ySize := natAbs_value y
    split at total <;> omega
  rw [sum, isFinite_iff_lt, magnitude_ofQuanta Nat.one_pos, Nat.pow_zero, Nat.mul_one]
  refine Nat.lt_of_le_of_lt (Nat.min_le_left _ _) (Nat.lt_of_le_of_lt ?_ rounded)
  exact nearestWord_mono Nat.one_pos Nat.one_pos (Nat.mul_le_mul_right _ bound)

theorem quanta_pi : pi.quanta = 13176795 * 2 ^ 127 := by decide +kernel

theorem value_pi : pi.value = pi.quanta := rfl

theorem pi_isFinite : pi.isFinite = true := by decide +kernel

theorem value_fullTurn : fullTurn.value = 2 * pi.value := by decide +kernel

theorem fullTurn_isFinite : fullTurn.isFinite = true := by decide +kernel

def InTurn (x : Single) : Prop := -pi < x ∧ x ≤ pi

theorem le_neg_pi_iff (finite : x.isFinite = true) : x ≤ -pi ↔ x.value ≤ -pi.value := by
  rw [le_iff_value finite (y := -pi) pi_isFinite, value_neg]

theorem pi_lt_iff (finite : x.isFinite = true) : pi < x ↔ pi.value < x.value :=
  lt_iff_value pi_isFinite finite

theorem inTurn_iff (finite : x.isFinite = true) :
    x.InTurn ↔ -pi.value < x.value ∧ x.value ≤ pi.value := by
  rw [InTurn, lt_iff_value (x := -pi) pi_isFinite finite, le_iff_value finite pi_isFinite, value_neg]

theorem InTurn.isFinite (inTurn : x.InTurn) : x.isFinite = true := by
  obtain ⟨_, _, above⟩ := lt_iff.mp inTurn.1
  obtain ⟨_, _, below⟩ := le_iff.mp inTurn.2
  have half : pi.position < infinityWord := by decide +kernel
  rw [position_neg] at above
  rw [isFinite_iff_lt, ← natAbs_position]
  omega

theorem InTurn.quanta_le (inTurn : x.InTurn) : x.quanta ≤ pi.quanta := by
  obtain ⟨above, below⟩ := (inTurn_iff inTurn.isFinite).mp inTurn
  rw [value_pi] at above below
  rw [← natAbs_value]
  omega

-- Beyond half a turn, what is missing to the full one is held exactly.
theorem exists_missing (far : pi.quanta ≤ x.quanta) (less : x.quanta < 2 * pi.quanta)
    (negative : Bool) :
    ∃ z : Single, z.isFinite = true ∧ z.negative = negative ∧ z.quanta = 2 * pi.quanta - x.quanta := by
  obtain ⟨m, units⟩ : ∃ m, x.quanta = m * 2 ^ 127 := by
    apply exists_multiple
    calc 2 ^ (127 + 23) ≤ pi.quanta := by rw [quanta_pi]; decide
      _ ≤ x.quanta := far
  have missing : 2 * pi.quanta - x.quanta = (2 * 13176795 - m) * 2 ^ 127 := by
    rw [quanta_pi, units, Nat.sub_mul, Nat.mul_assoc]
  rw [missing]
  apply exists_short
  · rw [quanta_pi, units] at far
    have most := Nat.le_of_mul_le_mul_right far (Nat.two_pow_pos 127)
    omega
  · rw [← missing, quanta_pi]
    omega

theorem value_raised (finite : x.isFinite = true) (low : x.value ≤ -pi.value)
    (less : -(2 * pi.value) < x.value) :
    (x + fullTurn).isFinite = true ∧ (x + fullTurn).value = x.value + 2 * pi.value := by
  have size := natAbs_value x
  have half := value_pi
  obtain ⟨z, zFinite, sign, quanta⟩ := exists_missing (x := x) (by omega) (by omega) false
  rw [← value_fullTurn]
  apply value_add finite fullTurn_isFinite zFinite
  rw [value_fullTurn, value, sign, quanta]
  simp only [Bool.false_eq_true, if_false]
  omega

theorem value_lowered (finite : x.isFinite = true) (high : pi.value < x.value)
    (less : x.value < 2 * pi.value) :
    (x - fullTurn).isFinite = true ∧ (x - fullTurn).value = x.value - 2 * pi.value := by
  have size := natAbs_value x
  have half := value_pi
  obtain ⟨z, zFinite, sign, quanta⟩ := exists_missing (x := x) (by omega) (by omega) true
  rw [sub_eq_add_neg (isFinite_iff.mp finite).1 (isFinite_iff.mp fullTurn_isFinite).1,
    Int.sub_eq_add_neg, ← value_fullTurn, ← value_neg]
  apply value_add finite (y := -fullTurn) fullTurn_isFinite zFinite
  rw [value_neg, value_fullTurn, value, sign, quanta]
  simp only [if_true]
  omega

theorem wrapAngle_of_inTurn (inTurn : a.InTurn) : a.wrapAngle = a := by
  have finite := inTurn.isFinite
  have less : a.quanta < fullTurn.quanta := by
    have half := inTurn.quanta_le
    have positive : 0 < pi.quanta := by decide +kernel
    have turn : fullTurn.quanta = 2 * pi.quanta := by decide +kernel
    omega
  obtain ⟨above, below⟩ := (inTurn_iff finite).mp inTurn
  have notBelow : ¬ a ≤ -pi := mt (le_neg_pi_iff finite).mp (by omega)
  have notAbove : ¬ pi < a := mt (pi_lt_iff finite).mp (by omega)
  rw [wrapAngle, finite, remainder_of_lt finite fullTurn_isFinite less]
  simp only [Bool.not_true, Bool.false_eq_true, if_false, if_neg notBelow, if_neg notAbove]

-- What a finite angle becomes: one in the turn, whole turns away without an error, or itself.
structure Wraps (a r : Single) : Prop where
  isFinite : r.isFinite = true
  inTurn : r.InTurn
  turns : ∃ k : Int, r.value = a.value + k * (2 * pi.value)
  kept : a.InTurn → r = a

theorem wrapAngle_turns (finite : a.isFinite = true) :
    a.wrapAngle.InTurn ∧ ∃ k : Int, a.wrapAngle.value = a.value + k * (2 * pi.value) := by
  have nonzero : fullTurn.isZero = false := by decide +kernel
  have positive : 0 < pi.value := by decide +kernel
  obtain ⟨restFinite, restValue⟩ := value_remainder finite fullTurn_isFinite nonzero
  rw [value_fullTurn] at restValue
  have above := Int.lt_tmod_of_pos a.value (b := 2 * pi.value) (by omega)
  have below := Int.tmod_lt_of_pos a.value (b := 2 * pi.value) (by omega)
  have turns := Int.mul_tdiv_add_tmod a.value (2 * pi.value)
  rw [← restValue] at above below turns
  generalize a.value.tdiv (2 * pi.value) = k at turns
  unfold wrapAngle
  rw [finite]
  simp only [Bool.not_true, Bool.false_eq_true, if_false]
  generalize a.remainder fullTurn = rest at *
  by_cases low : rest.value ≤ -pi.value
  · obtain ⟨raisedFinite, raised⟩ := value_raised restFinite low above
    have notAbove : ¬ pi < rest + fullTurn := mt (pi_lt_iff raisedFinite).mp (by omega)
    rw [if_pos ((le_neg_pi_iff restFinite).mpr low), if_neg notAbove, inTurn_iff raisedFinite]
    refine ⟨by omega, 1 - k, ?_⟩
    rw [raised, Int.sub_mul, Int.mul_comm k]
    omega
  · rw [if_neg (mt (le_neg_pi_iff restFinite).mp low)]
    by_cases high : pi.value < rest.value
    · obtain ⟨loweredFinite, lowered⟩ := value_lowered restFinite high below
      rw [if_pos ((pi_lt_iff restFinite).mpr high), inTurn_iff loweredFinite]
      refine ⟨by omega, -1 - k, ?_⟩
      rw [lowered, Int.sub_mul, Int.mul_comm k]
      omega
    · rw [if_neg (mt (pi_lt_iff restFinite).mp high), inTurn_iff restFinite]
      refine ⟨by omega, -k, ?_⟩
      rw [Int.neg_mul, Int.mul_comm k]
      omega

theorem wrapAngle_wraps (finite : a.isFinite = true) : Wraps a a.wrapAngle := by
  obtain ⟨inTurn, turns⟩ := wrapAngle_turns finite
  exact ⟨inTurn.isFinite, inTurn, turns, wrapAngle_of_inTurn⟩

theorem wrapAngle_of_not_finite (infinite : a.isFinite = false) : a.wrapAngle = a := by
  rw [wrapAngle, infinite]
  rfl

theorem wrapAngle_inTurn (finite : a.wrapAngle.isFinite = true) : a.wrapAngle.InTurn := by
  cases known : a.isFinite with
  | true => exact (wrapAngle_wraps known).inTurn
  | false =>
    rw [wrapAngle_of_not_finite known, known] at finite
    cases finite

theorem wrapAngle_add_inTurn (xFinite : x.isFinite = true) (yFinite : y.isFinite = true)
    (inTurn : x.InTurn ∨ y.InTurn) : (x + y).wrapAngle.InTurn := by
  have small {z : Single} (inTurn : z.InTurn) : z.quanta < 2 ^ 252 :=
    calc z.quanta ≤ pi.quanta := inTurn.quanta_le
      _ < 2 ^ 252 := by rw [quanta_pi]; decide
  exact (wrapAngle_wraps (isFinite_add xFinite yFinite (inTurn.imp small small))).inTurn

end Single

end ScanAlign
