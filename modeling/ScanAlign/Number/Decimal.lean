import ScanAlign.Number.Functions

namespace ScanAlign

structure Numeral where
  negative : Bool
  whole : List Nat
  fraction : List Nat
  power : Option Int
deriving DecidableEq, Repr

namespace Numeral

-- Digits collected so far: `significand * 10 ^ power`. Once a digit did not fit, `full` holds.
structure Collected where
  significand : Nat
  power : Int
  full : Bool
deriving Repr

-- Takes a digit before the point; one that does not fit still counts as a place.
def Collected.pushWhole (c : Collected) (digit : Nat) : Collected :=
  let next := c.significand * 10 + digit
  if c.full || greatestCount < next then ⟨c.significand, c.power + 1, true⟩
  else ⟨next, c.power, false⟩

-- Takes a digit after the point; one that does not fit is dropped with all that follow.
def Collected.pushFraction (c : Collected) (digit : Nat) : Collected :=
  let next := c.significand * 10 + digit
  if c.full || greatestCount < next then ⟨c.significand, c.power, true⟩
  else ⟨next, c.power - 1, false⟩

def collectWhole (x : Numeral) : Collected :=
  x.whole.foldl Collected.pushWhole ⟨0, 0, false⟩

-- The digits after the point start afresh: a small one may fit where a large one before it did not.
def collect (x : Numeral) : Collected :=
  let before := x.collectWhole
  let after := x.fraction.foldl Collected.pushFraction ⟨before.significand, before.power, false⟩
  ⟨after.significand, after.power + x.power.getD 0, after.full⟩

def wholeValue? (x : Numeral) : Option Nat :=
  let c := x.collectWhole
  if x.fraction.isEmpty && x.power.isNone && !c.full then some c.significand else none

-- The magnitude read in 53 bits; `none` when it exceeds the double-precision range.
def magnitude? (x : Numeral) : Option Dyadic :=
  let c := x.collect
  let significand := Dyadic.ofNat c.significand
  if c.significand = 0 then some .zero
  else if 308 < c.power then none
  -- Below this power the number is zero in single precision.
  else if c.power < -308 then some .zero
  else
    let factor := Dyadic.ofNat (tenPower c.power.natAbs)
    let scaled := if c.power < 0 then significand / factor else significand * factor
    if (Dyadic.mk 1 1024).le scaled then none else some scaled

-- The single-precision number that a numeral stands for; `none` when it is out of range. A whole
-- numeral in the range of 64 bits with a sign is rounded once, any other one through 53 bits.
def toSingle? (x : Numeral) : Option Single :=
  let signed (y : Single) : Single := if x.negative then -y else y
  match x.wholeValue? with
  | some n =>
    if x.negative && 0x8000000000000000 < n then some (signed (Dyadic.ofNat n).toSingle)
    else some (signed (Single.ofInt n))
  | none => x.magnitude?.map fun y => signed y.toSingle

def toCount? (x : Numeral) : Option Nat :=
  if x.negative then none else x.wholeValue?

end Numeral

inductive Tie where
  | up
  | even
deriving DecidableEq, Repr

-- How a decimal is laid out. With the point after `place` digits, positional notation holds for
-- `lowest ≤ place ≤ highest`; a missing bound does not limit it.
structure DecimalStyle where
  lowest : Option Int
  highest : Option Int
  keepPoint : Bool
  plusSign : Bool
  tie : Tie

namespace Shortest

-- The step `10 ^ power` in units of half a quantum, as a fraction.
def step (power : Int) : Nat × Nat :=
  (tenPower power.toNat * twoPower 150, tenPower (-power).toNat)

-- The multiple of `10 ^ power` that reads back as the magnitude `word` and is nearest to it.
-- Numbers halfway to a neighbour read back as the even word of the two.
def nearest? (tie : Tie) (word : Nat) (power : Int) : Option Nat :=
  let (num, den) := step power
  let exact := 2 * Single.quantaOf word * den
  let low := (Single.quantaOf (word - 1) + Single.quantaOf word) * den
  let high := (Single.quantaOf word + Single.quantaOf (word + 1)) * den
  let readsBack (count : Nat) : Bool :=
    if word % 2 = 0 then low ≤ count * num && count * num ≤ high
    else low < count * num && count * num < high
  let below := exact / num
  let above := below + 1
  match readsBack below, readsBack above with
  | true, true =>
    let gapBelow := exact - below * num
    let gapAbove := above * num - exact
    if gapBelow < gapAbove then some below
    else if gapAbove < gapBelow then some above
    else match tie with
      | .up => some above
      | .even => some (if below % 2 = 0 then below else above)
  | true, false => some below
  | false, true => some above
  | false, false => none

def leadingPower (word : Nat) : Int :=
  let scaled := Single.quantaOf word * tenPower 60 / twoPower 149
  ((Nat.toDigits 10 scaled).length : Int) - 61

-- The digits of a finite magnitude other than zero and the power of ten of the last one.
def digits (tie : Tie) (word : Nat) : List Char × Int :=
  let lead := leadingPower word
  -- Nine digits tell any two single-precision numbers apart.
  let found := (List.range 9).findSome? fun (extra : Nat) =>
    (nearest? tie word (lead - extra)).map fun count => (count, lead - extra)
  let (count, power) := found.getD (0, lead)
  let text := Nat.toDigits 10 count
  let kept := (text.reverse.dropWhile (· = '0')).reverse
  (kept, power + (text.length - kept.length : Nat))

end Shortest

def DecimalStyle.layOut (style : DecimalStyle) (digits : List Char) (place : Int) : List Char :=
  let count := digits.length
  let positional := style.lowest.all (· ≤ place) && style.highest.all (place ≤ ·)
  if positional then
    if place ≤ 0 then
      '0' :: '.' :: List.replicate (-place).toNat '0' ++ digits
    else if count ≤ place.toNat then
      digits ++ List.replicate (place.toNat - count) '0'
        ++ (if style.keepPoint then ['.', '0'] else [])
    else digits.take place.toNat ++ '.' :: digits.drop place.toNat
  else
    let mantissa := if count ≤ 1 then digits else digits.take 1 ++ '.' :: digits.drop 1
    let power := place - 1
    let sign := if power < 0 then ['-'] else if style.plusSign then ['+'] else []
    mantissa ++ 'e' :: sign ++ Nat.toDigits 10 power.natAbs

def Single.text (style : DecimalStyle) (x : Single) : String :=
  if x.isNaN then "NaN"
  else
    let sign := if x.negative then ['-'] else []
    let body :=
      if x.isInfinite then ['i', 'n', 'f']
      else if x.isZero then '0' :: (if style.keepPoint then ['.', '0'] else [])
      else
        let (digits, power) := Shortest.digits style.tie x.magnitude
        style.layOut digits (digits.length + power)
    String.ofList (sign ++ body)

end ScanAlign
