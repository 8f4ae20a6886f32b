import ScanAlign.Number.Single

namespace ScanAlign

-- A number of at most 53 significant bits. The exponent has no bounds.
structure Dyadic where
  mantissa : Nat
  exponent : Int
deriving DecidableEq, Repr

namespace Dyadic

-- The number `n * 2 ^ exponent` rounded to 53 significant bits, ties to even.
def ofScaled (n : Nat) (exponent : Int) : Dyadic :=
  let dropped := n.log2 - 52
  ⟨roundDiv n (twoPower dropped), exponent + dropped⟩

def ofRatio (num den : Nat) (exponent : Int) : Dyadic :=
  let shift := 52 - leadingPower num den
  ⟨roundDiv (scale num shift) (scale den (-shift)), exponent - shift⟩

def zero : Dyadic := ⟨0, 0⟩

def ofNat (n : Nat) : Dyadic := ofScaled n 0

instance : Add Dyadic where
  add x y :=
    let low := min x.exponent y.exponent
    ofScaled (scale x.mantissa (x.exponent - low) + scale y.mantissa (y.exponent - low)) low

instance : Mul Dyadic where
  mul x y := ofScaled (x.mantissa * y.mantissa) (x.exponent + y.exponent)

-- A quotient by zero does not occur: every divisor below is a positive constant or resolution.
instance : Div Dyadic where
  div x y := if x.mantissa = 0 then zero else ofRatio x.mantissa y.mantissa (x.exponent - y.exponent)

def le (x y : Dyadic) : Bool :=
  let low := min x.exponent y.exponent
  scale x.mantissa (x.exponent - low) ≤ scale y.mantissa (y.exponent - low)

def larger (x y : Dyadic) : Dyadic := if x.le y then y else x

def ceil (x : Dyadic) : Nat :=
  ceilDiv (scale x.mantissa x.exponent) (scale 1 (-x.exponent))

def sqrt (x : Dyadic) : Dyadic :=
  -- Bits are appended until the root has 57 of them and the exponent halves exactly. Whether the
  -- root is exact is told by one bit more, so the rounding sees all it needs.
  let short := 114 - x.mantissa.log2
  let appended := short + ((x.exponent - short) % 2).toNat
  let square := x.mantissa * twoPower appended
  let root := integerRoot square
  let inexact := if root * root = square then 0 else 1
  ofScaled (2 * root + inexact) ((x.exponent - appended) / 2 - 1)

end Dyadic

def Single.toDyadic (x : Single) : Dyadic := ⟨x.significand, (x.power : Int) - 149⟩

def Dyadic.toSingle (x : Dyadic) : Single :=
  let power := x.exponent + 149
  Single.ofQuanta false x.mantissa 1 power.toNat (-power).toNat

-- The length of the vector with the legs `x` and `y`. An infinite leg makes it infinite, whatever
-- the other leg is.
def Single.hypotenuse (x y : Single) : Single :=
  if x.isInfinite || y.isInfinite then infinity false
  else if x.isNaN || y.isNaN then x + y
  else
    let a := x.toDyadic
    let b := y.toDyadic
    (a * a + b * b).sqrt.toSingle

namespace Series

def one : Nat := twoPower 128

-- The product of two numbers with 128 binary places, rounded down.
def times (p q : Nat) : Nat := (p * q) >>> 128

-- `1 + t / k + t * t / (k * (k + 1)) + …` with the given number of terms after the first.
def rising (t : Nat) : Nat → Nat → Nat
  | 0, _ => one
  | terms + 1, k => one + times t (rising t terms (k + 1)) / k

def square : Nat → Nat → Nat
  | 0, p => p
  | count + 1, p => square count (times p p)

-- The exponential of `quanta * 2 ^ -149`: the series at a 65536th of the argument, squared sixteen
-- times.
def growth (quanta : Nat) : Nat :=
  square 16 (rising (quanta >>> 37) 8 1)

end Series

-- The exponential of a number that is not positive. Below `-104` the result is less than half a
-- quantum and becomes zero.
def Single.exponential (x : Single) : Single :=
  if x.isNaN then x
  else if x.isInfinite || 104 * twoPower 149 < x.quanta then zero
  else (Dyadic.ofRatio Series.one (Series.growth x.quanta) 0).toSingle

structure Rotation where
  sine : Single
  cosine : Single
deriving DecidableEq

namespace Series

-- A quarter turn in radians with 256 binary places, rounded down.
def quarterTurn : Nat :=
  181885788445883162140117471388864931326696688664196214979386075558969447233092

-- `1 - t / (k * (k + 1)) + t * t / (k * (k + 1) * (k + 2) * (k + 3)) - …`: with the square of an
-- angle as `t`, the cosine for `k = 1` and the sine divided by the angle for `k = 2`.
def alternating (t : Nat) : Nat → Nat → Nat
  | 0, _ => one
  | terms + 1, k => one - times t (alternating t terms (k + 2)) / (k * (k + 1))

def sineCosine (angle terms : Nat) : Nat × Nat :=
  let t := times angle angle
  (times angle (alternating t terms 2), alternating t terms 1)

-- Sine and cosine of the 64ths of a radian up to an eighth of a turn.
def landmarks : Array (Nat × Nat) := Array.ofFn fun (i : Fin 51) => sineCosine (i.val <<< 122) 13

-- Sine and cosine of an angle up to an eighth of a turn: those of the last landmark before it,
-- turned by the rest, which is so short that few terms do.
def smallAngle (angle : Nat) : Nat × Nat :=
  let passed := angle >>> 122
  let (s, c) := landmarks.getD passed (0, one)
  let (sRest, cRest) := sineCosine (angle - passed <<< 122) 5
  ((s * cRest + c * sRest) >>> 128, (c * cRest - s * sRest) >>> 128)

-- Adds up the given number of terms of the inverse sine; `term` is the power of the argument times
-- the coefficient that its odd exponent `2 * k + 1` still divides.
def inverseSine (t term : Nat) : Nat → Nat → Nat
  | 0, _ => 0
  | terms + 1, k =>
    term / (2 * k + 1) + inverseSine t (times term t * (2 * k + 1) / (2 * k + 2)) terms (k + 1)

end Series

def Single.ofPlaces (negative : Bool) (places : Nat) : Single :=
  let size := (Dyadic.ofScaled places (-128)).toSingle
  if negative then -size else size

def Single.slight : Nat := 0x32000000

def Rotation.ofAngle (angle : Single) : Rotation :=
  if angle.isNaN then ⟨angle, angle⟩
  else if angle.isInfinite then ⟨.invalid, .invalid⟩
  -- So slight an angle rounds to its own sine, and its cosine rounds to one.
  else if angle.magnitude < Single.slight then ⟨angle, .one⟩
  else
    let whole := angle.quanta * twoPower 107
    let quarters := (2 * whole + Series.quarterTurn) / (2 * Series.quarterTurn)
    -- The rest may lie on either side of the nearest quarter turn.
    let nearest := quarters * Series.quarterTurn
    let back := whole < nearest
    let rest := if back then nearest - whole else whole - nearest
    let (s, c) := Series.smallAngle (rest >>> 128)
    let flip := angle.negative
    match quarters % 4 with
    | 0 => ⟨.ofPlaces (flip != back) s, .ofPlaces false c⟩
    | 1 => ⟨.ofPlaces flip c, .ofPlaces (!back) s⟩
    | 2 => ⟨.ofPlaces (flip == back) s, .ofPlaces true c⟩
    | _ => ⟨.ofPlaces (!flip) c, .ofPlaces back s⟩

-- The inverse sine of a number of at most one sixth, rounded to 53 bits.
def Dyadic.arcsine (x : Dyadic) : Dyadic :=
  let places := x.exponent + 128
  let sine := scale x.mantissa places / scale 1 (-places)
  ofScaled (Series.inverseSine (Series.times sine sine) sine 24 0) (-128)

end ScanAlign
