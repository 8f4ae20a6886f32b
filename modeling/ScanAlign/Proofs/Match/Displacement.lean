import ScanAlign.Proofs.Candidate.ScoreOrder
import ScanAlign.Proofs.Match.ScoreRange

namespace ScanAlign

variable {num den num' den' : Nat} {e : Int}

theorem lt_leadingPower (positive : 0 < den) :
    (num : ℚ) < den * 2 ^ (leadingPower num den + 1) := by
  unfold leadingPower
  dsimp only
  split
  · have top : (num : ℚ) < 2 ^ ((num.log2 : Int) + 1) := by
      have length : num < 2 ^ (num.log2 + 1) := Nat.lt_log2_self
      rw [← Nat.cast_succ, zpow_natCast]
      exact_mod_cast length
    have bottom : (2 : ℚ) ^ (den.log2 : Int) ≤ den := by
      rw [zpow_natCast]
      exact_mod_cast Nat.log2_self_le (by omega)
    calc (num : ℚ) < 2 ^ ((num.log2 : Int) + 1) := top
      _ = 2 ^ (den.log2 : Int) * 2 ^ ((num.log2 : Int) - den.log2 + 1) := by
          rw [← two_zpow_add]
          congr 1
          omega
      _ ≤ den * 2 ^ ((num.log2 : Int) - den.log2 + 1) :=
          mul_le_mul_of_nonneg_right bottom (two_zpow_pos _).le
  · rename_i above
    have guess := (scale_le_iff (c := 1)).not.mp (by rwa [Nat.one_mul])
    rwa [Nat.cast_one, one_mul, not_le, ← Int.sub_add_cancel ((num.log2 : Int) - den.log2) 1] at guess

namespace Dyadic

variable {x y : Dyadic}

theorem leadingPower_mono (numPos : 0 < num) (denPos : 0 < den) (denPos' : 0 < den')
    (le : num * den' ≤ num' * den) : leadingPower num den ≤ leadingPower num' den' := by
  have low : (den : ℚ) * 2 ^ leadingPower num den ≤ num := leadingPower_le numPos
  have high : (num' : ℚ) < den' * 2 ^ (leadingPower num' den' + 1) := lt_leadingPower denPos'
  have order : (num : ℚ) * den' ≤ num' * den := by exact_mod_cast le
  have dens : (0 : ℚ) < den * den' := by exact_mod_cast Nat.mul_pos denPos denPos'
  have powers : (2 : ℚ) ^ leadingPower num den < 2 ^ (leadingPower num' den' + 1) := by
    refine lt_of_mul_lt_mul_left ?_ dens.le
    calc (den : ℚ) * den' * 2 ^ leadingPower num den = den * 2 ^ leadingPower num den * den' := by ring
      _ ≤ num * den' := mul_le_mul_of_nonneg_right low (Nat.cast_nonneg _)
      _ ≤ num' * den := order
      _ < den' * 2 ^ (leadingPower num' den' + 1) * den :=
          mul_lt_mul_of_pos_right high (by exact_mod_cast denPos)
      _ = den * den' * 2 ^ (leadingPower num' den' + 1) := by ring
  have exponents := (zpow_lt_zpow_iff_right₀ (by norm_num)).mp powers
  omega

theorem toRat_ofRatio_mono (numPos : 0 < num) (denPos : 0 < den) (denPos' : 0 < den')
    (le : num * den' ≤ num' * den) (e : Int) :
    (ofRatio num den e).toRat ≤ (ofRatio num' den' e).toRat := by
  have numPos' : 0 < num' :=
    Nat.pos_of_mul_pos_right (Nat.lt_of_lt_of_le (Nat.mul_pos numPos denPos') le)
  rcases Int.lt_or_eq_of_le (leadingPower_mono numPos denPos denPos' le) with less | same
  · -- A power of two lies between the two quotients, and no rounding crosses it.
    have high : (ofRatio num den e).toRat ≤ 2 ^ (leadingPower num den + 1 + e) := by
      apply toRat_ofRatio_le denPos
      rw [two_zpow_add, mul_comm _ (den : ℚ), ← mul_assoc]
      exact mul_le_mul_of_nonneg_right (lt_leadingPower denPos).le (two_zpow_pos e).le
    calc (ofRatio num den e).toRat ≤ 2 ^ (leadingPower num den + 1 + e) := high
      _ ≤ 2 ^ (leadingPower num' den' + e) := two_zpow_le_iff.mpr (by omega)
      _ ≤ (ofRatio num' den' e).toRat := leading_le_toRat numPos' denPos' e
  · have mantissas : (ofRatio num den e).mantissa ≤ (ofRatio num' den' e).mantissa := by
      unfold ofRatio
      dsimp only
      rw [← same]
      apply roundDiv_mono (scale_pos denPos _) (scale_pos denPos' _)
      unfold scale
      generalize twoPower (52 - leadingPower num den).toNat = up
      generalize twoPower (-(52 - leadingPower num den)).toNat = down
      calc num * up * (den' * down) = num * den' * (up * down) := by ring
        _ ≤ num' * den * (up * down) := Nat.mul_le_mul_right _ le
        _ = num' * up * (den * down) := by ring
    have exponents : (ofRatio num den e).exponent = (ofRatio num' den' e).exponent := by
      unfold ofRatio
      dsimp only
      rw [same]
    rw [toRat, toRat, ← exponents]
    exact mul_le_mul_of_nonneg_right (by exact_mod_cast mantissas) (two_zpow_pos _).le

theorem magnitude_toSingle_mono (le : x.toRat ≤ y.toRat) :
    x.toSingle.magnitude ≤ y.toSingle.magnitude := by
  have parts (z : Dyadic) : (z.mantissa : ℚ) * 2 ^ (z.exponent + 149).toNat =
      z.toRat * 2 ^ (149 : Int) * 2 ^ (-(z.exponent + 149)).toNat := by
    rw [toRat, mul_assoc, mul_assoc, ← zpow_natCast, ← zpow_natCast, ← two_zpow_add, ← two_zpow_add]
    congr 2
    omega
  unfold toSingle
  dsimp only
  rw [Single.magnitude_ofQuanta Nat.one_pos, Single.magnitude_ofQuanta Nat.one_pos, Nat.one_mul,
    Nat.one_mul]
  refine min_le_min_right _ (nearestWord_mono (Nat.two_pow_pos _) (Nat.two_pow_pos _) ?_)
  have scaled : (x.mantissa : ℚ) * 2 ^ (x.exponent + 149).toNat * 2 ^ (-(y.exponent + 149)).toNat ≤
      y.mantissa * 2 ^ (y.exponent + 149).toNat * 2 ^ (-(x.exponent + 149)).toNat := by
    rw [parts, parts, mul_right_comm _ (2 ^ (-(x.exponent + 149)).toNat : ℚ)]
    have moved := mul_le_mul_of_nonneg_right le (two_zpow_pos 149).le
    gcongr
  exact_mod_cast scaled

end Dyadic

namespace Series

variable {p q p' q' t t' : Nat}

theorem times_mono (first : p ≤ p') (second : q ≤ q') : times p q ≤ times p' q' := by
  rw [times, times, Nat.shiftRight_eq_div_pow, Nat.shiftRight_eq_div_pow]
  exact Nat.div_le_div_right (Nat.mul_le_mul first second)

theorem rising_mono (le : t ≤ t') (terms k : Nat) : rising t terms k ≤ rising t' terms k := by
  induction terms generalizing k with
  | zero => exact Nat.le_refl _
  | succ terms ih =>
    exact Nat.add_le_add_left (Nat.div_le_div_right (times_mono le (ih (k + 1)))) one

theorem square_mono (count : Nat) (le : p ≤ p') : square count p ≤ square count p' := by
  induction count generalizing p p' with
  | zero => exact le
  | succ count ih => exact ih (times_mono le le)

theorem growth_mono (le : p ≤ p') : growth p ≤ growth p' := by
  apply square_mono
  apply rising_mono
  rw [Nat.shiftRight_eq_div_pow, Nat.shiftRight_eq_div_pow]
  exact Nat.div_le_div_right le

end Series

namespace Single

variable {x y : Single}

theorem exponential_antitone (xNumber : x.isNaN = false) (yNumber : y.isNaN = false)
    (le : x.magnitude ≤ y.magnitude) : y.exponential.magnitude ≤ x.exponential.magnitude := by
  have quanta := quanta_le_iff.mpr le
  unfold exponential
  rw [xNumber, yNumber, if_neg Bool.false_ne_true, if_neg Bool.false_ne_true]
  by_cases far : (y.isInfinite || 104 * twoPower 149 < y.quanta) = true
  · rw [if_pos far]
    exact Nat.zero_le _
  · have near : ¬ (x.isInfinite || 104 * twoPower 149 < x.quanta) = true := by
      simp only [Bool.or_eq_true, decide_eq_true_eq, not_or, isInfinite] at far ⊢
      rw [isNaN_eq_false_iff] at yNumber
      omega
    rw [if_neg far, if_neg near]
    have growth := Series.growth_mono quanta
    have positive (n : Nat) : 0 < Series.growth n :=
      Nat.lt_of_lt_of_le (by decide) (Series.one_le_growth n)
    apply Dyadic.magnitude_toSingle_mono
    apply Dyadic.toRat_ofRatio_mono (by decide) (positive _) (positive _)
    exact Nat.mul_le_mul_left _ growth

variable {z raw : Single}

theorem rank_mul_mono (nonneg : Single.zero ≤ raw) (yPlus : y.IsPlus) (zPlus : z.IsPlus)
    (zFinite : z.isFinite = true) (le : y.magnitude ≤ z.magnitude) :
    (raw * y).rank ≤ (raw * z).rank := by
  obtain ⟨number, plus | zero⟩ := zero_le_iff.mp nonneg
  · exact IsPlus.rank_mul_mono ⟨number, plus⟩ yPlus zPlus zFinite le
  · rw [yPlus.isZero_mul_eq (isFinite_of_le zFinite le) zero, zPlus.isZero_mul_eq zFinite zero]

theorem magnitude_square_mono (number : y.isNaN = false) (le : x.magnitude ≤ y.magnitude) :
    (x * x).magnitude ≤ (y * y).magnitude := by
  rcases y.class_cases with nan | infinite | finite
  · rw [number] at nan
    cases nan
  · have xNumber : x.isNaN = false := isNaN_eq_false_iff.mpr (le.trans (isNaN_eq_false_iff.mp number))
    rw [square_of_infinite infinite]
    exact isNaN_eq_false_iff.mp (square_isPlus xNumber).number
  · have xFinite := isFinite_of_le finite le
    exact magnitude_mul_mono xFinite xFinite finite finite le le

end Single

-- Finite weights; their signs do not matter, because the weighted offsets are squared.
structure PriorWeights.Bounded (w : PriorWeights) : Prop where
  translation : w.translation.isFinite = true
  rotation : w.rotation.isFinite = true

namespace Candidate

variable {c d near far : Candidate} {w : PriorWeights} {m : Map} {search : Matcher.Search}
  {raw : Single}

structure Bounded (c : Candidate) : Prop where
  distance : (c.x.hypotenuse c.y).isFinite = true
  turn : c.orientation.isFinite = true

-- The other candidate is displaced at least as far, in meters and in radians.
structure NoFarther (near far : Candidate) : Prop where
  distance : near.x.hypotenuse near.y ≤ far.x.hypotenuse far.y
  turn : near.orientation.abs ≤ far.orientation.abs

-- What the prior falls with: the sum of the squares of the weighted offsets.
def displacement (c : Candidate) (w : PriorWeights) : Single :=
  let translation := c.x.hypotenuse c.y * w.translation
  let rotation := c.orientation.abs * w.rotation
  translation * translation + rotation * rotation

theorem prior_eq (c : Candidate) (w : PriorWeights) :
    c.prior w = (-c.displacement w).exponential := rfl

theorem Bounded.distance_isPlus (bounded : c.Bounded) : (c.x.hypotenuse c.y).IsPlus := by
  obtain ⟨x, y⟩ := Single.numbers_of_hypotenuse bounded.distance
  exact Single.hypotenuse_isPlus x y

theorem Bounded.turn_isFinite (bounded : c.Bounded) : c.orientation.abs.isFinite = true :=
  bounded.turn

theorem Bounded.turn_isPlus (bounded : c.Bounded) : c.orientation.abs.IsPlus :=
  ⟨(Single.isFinite_iff.mp bounded.turn).1, rfl⟩

theorem Bounded.moved_number (bounded : c.Bounded) (weights : w.Bounded) :
    (c.x.hypotenuse c.y * w.translation).isNaN = false :=
  Single.isNaN_mul bounded.distance weights.translation

theorem Bounded.turned_number (bounded : c.Bounded) (weights : w.Bounded) :
    (c.orientation.abs * w.rotation).isNaN = false :=
  Single.isNaN_mul bounded.turn_isFinite weights.rotation

theorem displacement_isPlus (bounded : c.Bounded) (weights : w.Bounded) :
    (c.displacement w).IsPlus := by
  have moved := Single.square_isPlus (bounded.moved_number weights)
  exact moved.add (Single.square_isPlus (bounded.turned_number weights)).zero_le

-- The weighted offsets may be infinite, and so may their squares and the sum.
theorem displacement_mono (nearBounded : near.Bounded) (farBounded : far.Bounded)
    (weights : w.Bounded) (order : near.NoFarther far) :
    (near.displacement w).magnitude ≤ (far.displacement w).magnitude := by
  have distance := (nearBounded.distance_isPlus.le_iff farBounded.distance_isPlus).mp order.distance
  have turn := (nearBounded.turn_isPlus.le_iff farBounded.turn_isPlus).mp order.turn
  have moved := Single.magnitude_mul_mono nearBounded.distance weights.translation
    farBounded.distance weights.translation distance (Nat.le_refl _)
  have turned := Single.magnitude_mul_mono nearBounded.turn_isFinite weights.rotation
    farBounded.turn_isFinite weights.rotation turn (Nat.le_refl _)
  have nearMoved := nearBounded.moved_number weights
  have nearTurned := nearBounded.turned_number weights
  have farMoved := farBounded.moved_number weights
  have farTurned := farBounded.turned_number weights
  exact Single.magnitude_add_mono (Single.square_isPlus nearMoved) (Single.square_isPlus farMoved)
    (Single.square_isPlus nearTurned).zero_le (Single.square_isPlus farTurned).zero_le
    (Single.magnitude_square_mono farMoved moved) (Single.magnitude_square_mono farTurned turned)

theorem prior_number (bounded : c.Bounded) (weights : w.Bounded) : (c.prior w).isNaN = false := by
  rw [prior_eq, Single.isNaN_exponential, Single.isNaN_neg]
  exact (displacement_isPlus bounded weights).number

theorem prior_mono (nearBounded : near.Bounded) (farBounded : far.Bounded) (weights : w.Bounded)
    (order : near.NoFarther far) : (far.prior w).magnitude ≤ (near.prior w).magnitude := by
  rw [prior_eq, prior_eq]
  apply Single.exponential_antitone
  · rw [Single.isNaN_neg]
    exact (displacement_isPlus nearBounded weights).number
  · rw [Single.isNaN_neg]
    exact (displacement_isPlus farBounded weights).number
  · exact displacement_mono nearBounded farBounded weights order

structure Mirrored (c d : Candidate) : Prop where
  x : d.x.abs = c.x.abs
  y : d.y.abs = c.y.abs
  turn : d.orientation.abs = c.orientation.abs

theorem prior_mirrored (bounded : c.Bounded) (mirrored : c.Mirrored d) :
    d.prior w = c.prior w := by
  obtain ⟨x, y⟩ := Single.numbers_of_hypotenuse bounded.distance
  have number {p q : Single} (same : q.abs = p.abs) (number : p.isNaN = false) : q.isNaN = false := by
    change q.abs.isNaN = false
    rw [same]
    exact number
  have distance : d.x.hypotenuse d.y = c.x.hypotenuse c.y := by
    rw [← Single.hypotenuse_abs (number mirrored.x x) (number mirrored.y y), mirrored.x, mirrored.y,
      Single.hypotenuse_abs x y]
  unfold prior
  rw [distance, mirrored.turn]

theorem scored_raw (passed : c.scored m search.bank w = .ok d) :
    (search.raw m c).IsPlus ∧ d.score = search.raw m c * c.prior w := by
  have same := eq_valued passed
  refine ⟨?_, by rw [same]; rfl⟩
  cases found : search.bank.scans[c.rotation]? with
  | none =>
    simp only [scored, found] at passed
    cases passed
  | some scan =>
    rw [scored_eq found] at passed
    cases checked : m.checkedScore scan c.dx c.dy with
    | error fault =>
      rw [checked] at passed
      cases passed
    | ok raw =>
      have plus := Map.checkedScore_isPlus checked
      rw [Map.checkedScore_eq_ok checked] at plus
      rwa [Matcher.Search.raw, found]

theorem rank_prior_mono (nearBounded : near.Bounded) (farBounded : far.Bounded) (weights : w.Bounded)
    (order : near.NoFarther far) (nonneg : Single.zero ≤ raw) :
    (raw * far.prior w).rank ≤ (raw * near.prior w).rank := by
  have number := prior_number nearBounded weights
  exact Single.rank_mul_mono nonneg (prior_bounds (prior_number farBounded weights)).1
    (prior_bounds number).1 (prior_isFinite number)
    (prior_mono nearBounded farBounded weights order)

-- No candidate gains by a greater displacement: neither the prior, nor the score from one raw score.
structure Falls (w : PriorWeights) (near far : Candidate) : Prop where
  prior : far.prior w ≤ near.prior w
  product : ∀ raw, Single.zero ≤ raw →
    ¬ raw * near.prior w < raw * far.prior w ∧ (raw * far.prior w).rank ≤ (raw * near.prior w).rank
  score : ∀ m (search : Matcher.Search) scoredNear scoredFar,
    near.scored m search.bank w = .ok scoredNear → far.scored m search.bank w = .ok scoredFar →
    (search.raw m near).SameNumber (search.raw m far) →
    ¬ scoredNear.score < scoredFar.score ∧ scoredFar.score.rank ≤ scoredNear.score.rank

theorem falls (nearBounded : near.Bounded) (farBounded : far.Bounded) (weights : w.Bounded)
    (order : near.NoFarther far) : Falls w near far := by
  have products (raw : Single) (nonneg : Single.zero ≤ raw) :
      ¬ raw * near.prior w < raw * far.prior w ∧
        (raw * far.prior w).rank ≤ (raw * near.prior w).rank := by
    have ranks := rank_prior_mono nearBounded farBounded weights order nonneg
    exact ⟨fun less => Int.not_lt.mpr ranks (Single.rank_lt_of_lt less), ranks⟩
  refine ⟨?_, products, ?_⟩
  · have nearPlus := (prior_bounds (prior_number nearBounded weights)).1
    have farPlus := (prior_bounds (prior_number farBounded weights)).1
    exact (farPlus.le_iff nearPlus).mpr (prior_mono nearBounded farBounded weights order)
  · intro m search scoredNear scoredFar nearPassed farPassed same
    obtain ⟨nearPlus, nearScore⟩ := scored_raw nearPassed
    obtain ⟨farPlus, farScore⟩ := scored_raw farPassed
    rw [nearScore, farScore, ← nearPlus.eq_of_sameNumber farPlus same]
    exact products _ nearPlus.zero_le

theorem prior_falls (translation : w.translation.isNonnegative = true)
    (rotation : w.rotation.isNonnegative = true) :
    (∀ near far : Candidate, near.Bounded → far.Bounded → near.NoFarther far → Falls w near far) ∧
      ∀ c : Candidate, c.Bounded →
        (c.prior w).InUnit ∧
        (c.x.isZero = true → c.y.isZero = true → c.orientation.isZero = true → c.prior w = .one) ∧
        { c with x := -c.x }.prior w = c.prior w ∧
        { c with y := -c.y }.prior w = c.prior w ∧
        { c with orientation := -c.orientation }.prior w = c.prior w := by
  have weights : w.Bounded :=
    ⟨(Single.isNonnegative_iff.mp translation).1, (Single.isNonnegative_iff.mp rotation).1⟩
  constructor
  · intro near far nearBounded farBounded order
    exact falls nearBounded farBounded weights order
  · intro c bounded
    obtain ⟨plus, le⟩ := prior_bounds (prior_number bounded weights)
    refine ⟨plus.inUnit le, ?_, ?_, ?_, ?_⟩
    · intro x y orientation
      exact prior_still x y orientation weights.translation weights.rotation
    · exact prior_mirrored bounded ⟨rfl, rfl, rfl⟩
    · exact prior_mirrored bounded ⟨rfl, rfl, rfl⟩
    · exact prior_mirrored bounded ⟨rfl, rfl, rfl⟩

-- One cell beside the initial pose nothing is left of the prior.
theorem prior_falls_eager :
    ∃ w still, w = TwoCells.eager.settings.priorWeights ∧
      still = TwoCells.eager.still .identity TwoCells.cloud TwoCells.map ∧
      w.translation.isNonnegative = true ∧ w.rotation.isNonnegative = true ∧
      Falls w still TwoCells.besides ∧ still.prior w = .one ∧ TwoCells.besides.prior w = .zero ∧
      { TwoCells.besides with y := -TwoCells.besides.y }.prior w = .zero := by
  have besidesBounded : TwoCells.besides.Bounded := ⟨by decide +kernel, by decide +kernel⟩
  have stillBounded : (TwoCells.eager.still .identity TwoCells.cloud TwoCells.map).Bounded :=
    ⟨by decide +kernel, by decide +kernel⟩
  have lost : TwoCells.besides.prior TwoCells.eager.settings.priorWeights = .zero := by
    decide +kernel
  obtain ⟨ordered, each⟩ := prior_falls (w := TwoCells.eager.settings.priorWeights)
    (by decide +kernel) (by decide +kernel)
  obtain ⟨_, whole, _⟩ := each _ stillBounded
  obtain ⟨_, _, _, flipped, _⟩ := each _ besidesBounded
  refine ⟨_, _, rfl, rfl, by decide +kernel, by decide +kernel,
    ordered _ _ stillBounded besidesBounded ⟨by decide +kernel, by decide +kernel⟩, ?_, lost, ?_⟩
  · exact whole (by decide +kernel) (by decide +kernel) (by decide +kernel)
  · exact flipped.trans lost

end Candidate

end ScanAlign
