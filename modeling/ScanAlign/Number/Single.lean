namespace ScanAlign

-- The integer nearest to `num / den`; of two that are equally near, the even one.
def roundDiv (num den : Nat) : Nat :=
  let q := num / den
  let r := num % den
  if 2 * r < den then q
  else if den < 2 * r then q + 1
  else q + q % 2

theorem roundDiv_one (n : Nat) : roundDiv n 1 = n := by
  simp [roundDiv, Nat.mod_one]

theorem roundDiv_mul_self (n den : Nat) (h : 0 < den) : roundDiv (n * den) den = n := by
  simp [roundDiv, Nat.mul_div_cancel n h, h]

theorem roundDiv_mul_le (num den : Nat) (h : 0 < den) :
    2 * (roundDiv num den * den) ≤ 2 * num + den := by
  have split := Nat.div_add_mod num den
  have small := Nat.mod_lt num h
  have parity := Nat.mod_two_eq_zero_or_one (num / den)
  rw [Nat.mul_comm] at split
  simp only [roundDiv]
  split
  · omega
  · split
    · rw [Nat.add_mul, Nat.one_mul]; omega
    · rcases parity with even | odd
      · rw [even]; simp only [Nat.add_zero]; omega
      · rw [odd, Nat.add_mul, Nat.one_mul]; omega

theorem le_roundDiv_mul (num den : Nat) (h : 0 < den) :
    2 * num ≤ 2 * (roundDiv num den * den) + den := by
  have split := Nat.div_add_mod num den
  have small := Nat.mod_lt num h
  have parity := Nat.mod_two_eq_zero_or_one (num / den)
  rw [Nat.mul_comm] at split
  simp only [roundDiv]
  split
  · omega
  · split
    · rw [Nat.add_mul, Nat.one_mul]; omega
    · rcases parity with even | odd
      · rw [even]; simp only [Nat.add_zero]; omega
      · rw [odd, Nat.add_mul, Nat.one_mul]; omega

def ceilDiv (num den : Nat) : Nat :=
  (num + (den - 1)) / den

theorem neg_ceilDiv (num den : Nat) (h : 0 < den) :
    (-(ceilDiv num den : Nat) : Int) = -(num : Int) / den := by
  have split := Nat.div_add_mod (num + (den - 1)) den
  have small := Nat.mod_lt (num + (den - 1)) h
  refine (((Int.ediv_emod_unique (by omega)).mpr
    ⟨?_, ?_, ?_⟩ : _ ∧ _ = (den : Int) - 1 - ((num + (den - 1)) % den : Nat)).1).symm
  · simp only [ceilDiv]
    generalize (num + (den - 1)) % den = r at *
    have whole := congrArg (Nat.cast : Nat → Int) split
    push_cast at whole
    rw [Int.mul_neg]
    omega
  · omega
  · omega

section

-- A power is the one of the core library also where another library brings its own.
attribute [local instance (10000)] instPowNat

-- The power of two with the exponent `k`. Those up to `2 ^ 31` are cut from that number, because
-- shifting a machine word to the right takes no long arithmetic.
def twoPower (k : Nat) : Nat :=
  if k ≤ 31 then 0x80000000 >>> (31 - k) else 2 ^ k

def tenPower (k : Nat) : Nat := 10 ^ k

theorem twoPower_eq (k : Nat) : twoPower k = 2 ^ k := by
  unfold twoPower
  split
  · rename_i small
    rw [Nat.shiftRight_eq_div_pow, show 0x80000000 = 2 ^ 31 by rfl, Nat.pow_div (by omega) (by decide)]
    congr 1
    omega
  · rfl

theorem tenPower_eq (k : Nat) : tenPower k = 10 ^ k := rfl

end

theorem twoPower_pos (k : Nat) : 0 < twoPower k := by
  rw [twoPower_eq]
  exact Nat.two_pow_pos k

theorem mul_twoPower_sub (n p q : Nat) :
    n * twoPower p * twoPower (q - p) = n * twoPower (p - q) * twoPower q := by
  simp only [twoPower_eq, Nat.mul_assoc, ← Nat.pow_add]
  rw [show p + (q - p) = p - q + q by omega]

def scale (n : Nat) (power : Int) : Nat := n * twoPower power.toNat

-- The power of the greatest power of two that is not above the positive quotient `num / den`.
def leadingPower (num den : Nat) : Int :=
  let guess : Int := (num.log2 : Int) - den.log2
  if scale den guess ≤ scale num (-guess) then guess else guess - 1

-- Moves an upper bound of the root of `n` down to the root, by at most the given number of steps:
-- the mean of a bound and of `n` divided by it is a bound again.
def lowerRoot (n : Nat) : Nat → Nat → Nat
  | 0, bound => bound
  | steps + 1, bound =>
    let mean := (bound + n / bound) / 2
    if mean < bound then lowerRoot n steps mean else bound

def integerRoot (n : Nat) : Nat :=
  lowerRoot n (n.log2 + 2) (twoPower (n.log2 / 2 + 1))

-- A single-precision number: a sign and a magnitude word of 31 bits. The words below `infinityWord`
-- count the finite magnitudes upwards, each of them a whole number of quanta of `2 ^ -149`. Those above
-- it are not a number; their sign is kept, because the total order tells it apart.
structure Single where
  negative : Bool
  magnitude : Nat
  magnitude_lt : magnitude < 0x80000000
deriving DecidableEq

namespace Single

def infinityWord : Nat := 0x7f800000

-- The significant bits of a finite magnitude word: the word itself while it has no exponent, then
-- 24 bits of which the first is not written.
def significandOf (word : Nat) : Nat :=
  if word < 0x800000 then word else 0x800000 + word % 0x800000

def powerOf (word : Nat) : Nat := word / 0x800000 - 1

def quantaOf (word : Nat) : Nat := significandOf word * twoPower (powerOf word)

-- The word of the magnitude nearest to `num * 2 ^ up / (den * 2 ^ down)` quanta, as if exponents
-- had no upper bound.
def roundWord (num den up down : Nat) : Nat :=
  if num = 0 then 0
  else
    -- Beyond 24 bits the last ones are dropped, and each dropped bit adds one to the exponent. The
    -- lengths of the two operands tell the number of dropped bits, or one too many.
    let dropped := num.log2 + up - (den.log2 + down + 23)
    let num := num * twoPower (up - (down + dropped))
    let den := den * twoPower (down + dropped - up)
    if 0 < dropped ∧ num < den * 0x800000 then (dropped - 1) * 0x800000 + roundDiv (2 * num) den
    else dropped * 0x800000 + roundDiv num den

-- The number of the given sign nearest to `num * 2 ^ up / (den * 2 ^ down)` quanta; too large ones
-- become infinite.
def ofQuanta (negative : Bool) (num den up down : Nat) : Single :=
  ⟨negative, min (roundWord num den up down) infinityWord, by
    have : infinityWord < 0x80000000 := by decide
    omega⟩

def ofFraction (num den : Nat) : Single := ofQuanta false num den 149 0

def ofInt (n : Int) : Single := ofQuanta (n < 0) n.natAbs 1 149 0

def word (x : Single) : Nat := (if x.negative then 0x80000000 else 0) + x.magnitude

def zero : Single := ⟨false, 0, by decide⟩

def one : Single := ⟨false, 0x3f800000, by decide⟩

def infinity (negative : Bool) : Single := ⟨negative, infinityWord, by decide⟩

-- What a reader puts in for the text of no number.
def nan : Single := ⟨false, 0x7fc00000, by decide⟩

-- The result of an operation that has none, such as `0 / 0`; its sign is set.
def invalid : Single := ⟨true, 0x7fc00000, by decide⟩

def pi : Single := ofFraction 13176795 4194304

instance : Inhabited Single := ⟨zero⟩

def isNaN (x : Single) : Bool := infinityWord < x.magnitude

def isInfinite (x : Single) : Bool := x.magnitude = infinityWord

def isFinite (x : Single) : Bool := x.magnitude < infinityWord

def isZero (x : Single) : Bool := x.magnitude = 0

def significand (x : Single) : Nat := significandOf x.magnitude

def power (x : Single) : Nat := powerOf x.magnitude

def quanta (x : Single) : Nat := quantaOf x.magnitude

def value (x : Single) : Int := if x.negative then -(x.quanta : Int) else x.quanta

-- The position among the numbers; both zeros stand at `0`.
def position (x : Single) : Int := if x.negative then -(x.magnitude : Int) else x.magnitude

def lt (x y : Single) : Bool := !x.isNaN && !y.isNaN && x.position < y.position

def le (x y : Single) : Bool := !x.isNaN && !y.isNaN && x.position ≤ y.position

instance : LT Single := ⟨fun x y => x.lt y = true⟩
instance : LE Single := ⟨fun x y => x.le y = true⟩
instance (x y : Single) : Decidable (x < y) := inferInstanceAs (Decidable (x.lt y = true))
instance (x y : Single) : Decidable (x ≤ y) := inferInstanceAs (Decidable (x.le y = true))

theorem lt_iff {x y : Single} :
    x < y ↔ x.isNaN = false ∧ y.isNaN = false ∧ x.position < y.position := by
  change x.lt y = true ↔ _
  simp [lt, and_assoc]

theorem le_iff {x y : Single} :
    x ≤ y ↔ x.isNaN = false ∧ y.isNaN = false ∧ x.position ≤ y.position := by
  change x.le y = true ↔ _
  simp [le, and_assoc]

-- Finite and not below zero; true of both zeros.
def isNonnegative (x : Single) : Bool := x.isFinite && zero ≤ x

-- The position in the total order of all words: the negative zero is just below the positive one,
-- and what is no number lies beyond the infinity of its sign.
def rank (x : Single) : Int := if x.negative then -(x.magnitude : Int) - 1 else x.magnitude

-- The larger of two numbers; what is no number gives way.
def larger (x y : Single) : Single :=
  if x.isNaN then y else if y.isNaN then x else if x < y then y else x

def clamp (x low high : Single) : Single :=
  if x < low then low else if high < x then high else x

instance : Neg Single := ⟨fun x => ⟨!x.negative, x.magnitude, x.magnitude_lt⟩⟩

@[simp] theorem isNaN_neg (x : Single) : (-x).isNaN = x.isNaN := rfl

@[simp] theorem position_neg (x : Single) : (-x).position = -x.position := by
  change (if !x.negative then -(x.magnitude : Int) else x.magnitude) = _
  cases h : x.negative <;> simp [position, h]

theorem clamp_within {x t : Single} (number : x.isNaN = false) (bounded : t.isNaN = false)
    (positive : 0 < t.position) : -t ≤ x.clamp (-t) t ∧ x.clamp (-t) t ≤ t := by
  simp only [clamp, lt_iff, le_iff, isNaN_neg, position_neg]
  split
  · simp_all; omega
  · split
    · simp_all; omega
    · simp_all

def abs (x : Single) : Single := ⟨false, x.magnitude, x.magnitude_lt⟩

-- The magnitude of a finite number as a multiple of `2 ^ power` quanta, where its own power is at
-- least that or the number is zero.
def multipleOf (x : Single) (power : Nat) : Nat := x.significand * twoPower (x.power - power)

def commonPower (x y : Single) : Nat :=
  if x.isZero then y.power else if y.isZero then x.power else min x.power y.power

def addNumbers (x y : Single) : Single :=
  if x.isInfinite then
    if y.isInfinite && x.negative != y.negative then invalid else x
  else if y.isInfinite then y
  else
    let low := commonPower x y
    let a := x.multipleOf low
    let b := y.multipleOf low
    -- Operands of one sign keep it, both zeros included; opposite ones that cancel give `zero`.
    if x.negative = y.negative then ofQuanta x.negative (a + b) 1 low 0
    else if b < a then ofQuanta x.negative (a - b) 1 low 0
    else if a < b then ofQuanta y.negative (b - a) 1 low 0
    else zero

-- An operand that is no number goes through every operation, the left one first.
instance : Add Single :=
  ⟨fun x y => if x.isNaN then x else if y.isNaN then y else addNumbers x y⟩

instance : Sub Single :=
  ⟨fun x y => if x.isNaN then x else if y.isNaN then y else addNumbers x (-y)⟩

instance : Mul Single :=
  ⟨fun x y =>
    if x.isNaN then x else if y.isNaN then y
    else if x.isInfinite || y.isInfinite then
      if x.isZero || y.isZero then invalid else infinity (x.negative != y.negative)
    else ofQuanta (x.negative != y.negative) (x.significand * y.significand) 1
      (x.power + y.power) 149⟩

instance : Div Single :=
  ⟨fun x y =>
    if x.isNaN then x else if y.isNaN then y
    else if x.isInfinite then
      if y.isInfinite then invalid else infinity (x.negative != y.negative)
    else if y.isInfinite then ⟨x.negative != y.negative, 0, by decide⟩
    else if y.isZero then
      if x.isZero then invalid else infinity (x.negative != y.negative)
    else ofQuanta (x.negative != y.negative) x.significand y.significand
      (x.power + 149) y.power⟩

def remainder (x m : Single) : Single :=
  if x.isNaN then x else if m.isNaN then m
  else if x.isInfinite || m.isZero then invalid
  else if m.isInfinite then x
  else ofQuanta x.negative (x.quanta % m.quanta) 1 0 0

def leastWhole : Int := -0x80000000

def greatestWhole : Int := 0x7fffffff

def saturate (n : Int) : Int := max leastWhole (min n greatestWhole)

def floorWhole (x : Single) : Int :=
  if x.isNaN then 0
  else if x.isInfinite then (if x.negative then leastWhole else greatestWhole)
  else
    let num := x.significand * twoPower (x.power - 149)
    let den := twoPower (149 - x.power)
    if x.negative then saturate (-(ceilDiv num den : Nat)) else saturate (num / den : Nat)

theorem floorWhole_of_isFinite {x : Single} (finite : x.isFinite = true) :
    x.floorWhole = saturate (x.value / twoPower 149) := by
  have number : x.isNaN = false := by
    simp only [isFinite, isNaN, decide_eq_true_eq, decide_eq_false_iff_not] at *
    omega
  have bounded : x.isInfinite = false := by
    simp only [isFinite, isInfinite, decide_eq_true_eq, decide_eq_false_iff_not] at *
    omega
  have moved := mul_twoPower_sub x.significand x.power 149
  have den_pos := twoPower_pos (149 - x.power)
  have one_pos := twoPower_pos 149
  have quotients (sign : Int) :
      sign * (x.significand * twoPower (x.power - 149) : Nat) / (twoPower (149 - x.power) : Nat)
        = sign * (x.quanta : Nat) / (twoPower 149 : Nat) := by
    rw [← Int.mul_ediv_mul_of_pos_left _ _ (Int.natCast_pos.mpr one_pos), Int.mul_assoc,
      ← Int.natCast_mul, ← moved, Int.natCast_mul, ← Int.mul_assoc,
      Int.mul_comm ((twoPower (149 - x.power) : Nat) : Int),
      Int.mul_ediv_mul_of_pos_left _ _ (Int.natCast_pos.mpr den_pos)]
    rfl
  simp only [floorWhole, number, bounded, value, Bool.false_eq_true, if_false]
  cases x.negative with
  | true =>
    have quotient := quotients (-1)
    rw [Int.neg_mul, Int.neg_mul, Int.one_mul, Int.one_mul, ← neg_ceilDiv _ _ den_pos] at quotient
    simp only [if_true, quotient]
  | false =>
    have quotient := quotients 1
    rw [Int.one_mul, Int.one_mul] at quotient
    simp only [Bool.false_eq_true, if_false, Int.natCast_ediv, quotient]

def ceilWhole (x : Single) : Int :=
  if x.isNaN then 0
  else if x.isInfinite then (if x.negative then leastWhole else greatestWhole)
  else saturate (-(-x.value / twoPower 149))

end Single

-- The largest count of 64 bits; greater counts are reported as this one.
def greatestCount : Nat := 0xffffffffffffffff

namespace Single

def fullTurn : Single := ofInt 2 * pi

-- The angle in the turn from `-pi`, excluded, to `pi`, included. What is not finite stays.
def wrapAngle (angle : Single) : Single :=
  if !angle.isFinite then angle
  else
    let rest := angle.remainder fullTurn
    let raised := if rest ≤ -pi then rest + fullTurn else rest
    if pi < raised then raised - fullTurn else raised

end Single

end ScanAlign
