import ScanAlign.Map

namespace ScanAlign

-- A result of whole-number arithmetic, which stops the run outside 32 bits.
def checked (n : Int) : Except Fault Int :=
  if Single.leastWhole ≤ n ∧ n ≤ Single.greatestWhole then .ok n else .error .overflow

structure Window where
  minX : Int
  maxX : Int
  minY : Int
  maxY : Int
deriving DecidableEq, Repr

namespace Window

def centered (n : Int) : Window := ⟨-n, n, -n, n⟩

def symmetric (n : Int) : Except Fault Window := do
  let _ ← checked (-n)
  return centered n

def countX (w : Window) : Nat := (w.maxX - w.minX + 1).toNat

def countY (w : Window) : Nat := (w.maxY - w.minY + 1).toNat

def size (w : Window) : Nat := min greatestCount (w.countX * w.countY)

def isEmpty (w : Window) : Bool := w.maxX < w.minX || w.maxY < w.minY

def containsZero (w : Window) : Bool := w.minX ≤ 0 && 0 ≤ w.maxX && w.minY ≤ 0 && 0 ≤ w.maxY

def shiftsX (w : Window) : List Int := (List.range w.countX).map fun (i : Nat) => w.minX + i

def shiftsY (w : Window) : List Int := (List.range w.countY).map fun (j : Nat) => w.minY + j

-- All shifts of the window, `dy` running fastest.
def shifts (w : Window) : List (Int × Int) :=
  w.shiftsX.flatMap fun dx => w.shiftsY.map fun dy => (dx, dy)

-- The shifts that two windows share, and always the zero shift.
def clip (w within : Window) : Window :=
  ⟨min (max w.minX within.minX) 0, max (min w.maxX within.maxX) 0,
   min (max w.minY within.minY) 0, max (min w.maxY within.maxY) 0⟩

def keepInside (l : Limits) (w : Window) (c : Cell) : Except Fault Window :=
  if l.contains c then do
    let left ← checked (-c.x)
    let right ← checked (l.columns - 1 - c.x)
    let down ← checked (-c.y)
    let up ← checked (l.rows - 1 - c.y)
    return ⟨max w.minX left, min w.maxX right, max w.minY down, min w.maxY up⟩
  else .ok w

-- The shifts by less than the size of the map that keep on it every cell that starts on it.
def keeping (l : Limits) (scan : List Cell) : Except Fault Window :=
  let lastX : Int := l.columns - 1
  let lastY : Int := l.rows - 1
  scan.foldlM (keepInside l) ⟨-lastX, lastX, -lastY, lastY⟩

def fit (l : Limits) (w : Window) (scan : List Cell) : Except Fault Window := do
  let within ← keeping l scan
  let clipped := w.clip within
  if clipped.containsZero then return clipped else .error .zeroShift

end Window

-- `turns` rotation steps to either side of zero, and one window for each of the `2 * turns + 1`
-- rotations, the most negative one first.
structure SearchSpace where
  turns : Nat
  step : Single
  resolution : Single
  windows : List Window
deriving DecidableEq

namespace SearchSpace

def mostTurns : Nat := 31416

def mostShifts : Nat := 0x3fffffff

def smallestStep : Single := .ofFraction 1 10000

def widestTurn : Single := .pi

def rotations (s : SearchSpace) : Nat := 2 * s.turns + 1

def zeroRotation (s : SearchSpace) : Nat := s.turns

-- The space with equal windows of at most `shifts` cells; counts out of range move into it.
def ofCounts (shifts turns : Int) (step resolution : Single) : SearchSpace :=
  let shifts := max 0 (min shifts mostShifts)
  let turns := (max 0 (min turns mostTurns)).toNat
  ⟨turns, step, resolution, .replicate (2 * turns + 1) (.centered shifts)⟩

-- One less a thousandth, to 53 bits: the share of a cell that one step may move a point.
def margin : Dyadic := ⟨8998192055486251, -53⟩

-- The rotation that moves the farthest point by a little less than a cell, or the smallest step.
-- Scans that reach less than three cells count as reaching three.
def stepFor (cloud : Cloud) (resolution : Single) : Dyadic :=
  let smallest := smallestStep.toDyadic
  let reach := cloud.range.larger (.ofInt 3 * resolution)
  if reach.isInfinite then smallest
  else
    let chord := resolution.toDyadic / (⟨1, 1⟩ * reach.toDyadic)
    (⟨1, 1⟩ * margin * chord.arcsine).larger smallest

def turnsFor (window : Single) (step : Dyadic) : Nat :=
  let window := window.clamp .zero widestTurn
  if window.isNaN then 0 else min mostTurns (window.toDyadic / step).ceil

def shiftsFor (window resolution : Single) : Nat :=
  if window.isNaN || window.negative || resolution.isInfinite then 0
  else if window.isInfinite then mostShifts
  else min mostShifts (window.toDyadic / resolution.toDyadic).ceil

-- The space that covers windows given in meters and radians. The scan must already be turned by the
-- initial heading.
def covering (linear angular : Single) (cloud : Cloud) (resolution : Single) :
    Except Fault SearchSpace :=
  if Single.zero < resolution then
    let step := stepFor cloud resolution
    .ok (ofCounts (shiftsFor linear resolution) (turnsFor angular step) step.toSingle resolution)
  else .error .resolution

-- The angle of the rotation with the given place. A place is cut to 32 bits with a sign.
def angleAt (s : SearchSpace) (place : Nat) : Except Fault Single := do
  let steps ← checked ((place : Int).bmod 0x100000000 - s.turns)
  return .ofInt steps * s.step

def angles (s : SearchSpace) : Except Fault (List Single) :=
  (List.range s.rotations).mapM s.angleAt

def size (s : SearchSpace) : Nat :=
  s.windows.foldl (fun total w => min greatestCount (total + w.size)) 0

end SearchSpace

structure Lanes where
  first : Single
  second : Single
  third : Single
  fourth : Single
deriving DecidableEq

namespace Lanes

def spread (x : Single) : Lanes := ⟨x, x, x, x⟩

def zipWith (op : Single → Single → Single) (a b : Lanes) : Lanes :=
  ⟨op a.first b.first, op a.second b.second, op a.third b.third, op a.fourth b.fourth⟩

end Lanes

-- A type of packs: four numbers go in, whole packs are computed on, and four numbers come out.
class Packed (V : Type) extends Add V, Sub V, Mul V, Div V where
  pack : Lanes → V
  spread : Single → V
  lanes : V → Lanes

class Lanewise (V : Type) [Packed V] : Prop where
  lanes_pack (four : Lanes) : Packed.lanes (Packed.pack four : V) = four
  lanes_spread (x : Single) : Packed.lanes (Packed.spread x : V) = .spread x
  lanes_add (a b : V) : Packed.lanes (a + b) = (Packed.lanes a).zipWith (· + ·) (Packed.lanes b)
  lanes_sub (a b : V) : Packed.lanes (a - b) = (Packed.lanes a).zipWith (· - ·) (Packed.lanes b)
  lanes_mul (a b : V) : Packed.lanes (a * b) = (Packed.lanes a).zipWith (· * ·) (Packed.lanes b)
  lanes_div (a b : V) : Packed.lanes (a / b) = (Packed.lanes a).zipWith (· / ·) (Packed.lanes b)

instance : Packed Lanes where
  add := .zipWith (· + ·)
  sub := .zipWith (· - ·)
  mul := .zipWith (· * ·)
  div := .zipWith (· / ·)
  pack := id
  spread := .spread
  lanes := id

instance : Lanewise Lanes where
  lanes_pack _ := rfl
  lanes_spread _ := rfl
  lanes_add _ _ := rfl
  lanes_sub _ _ := rfl
  lanes_mul _ _ := rfl
  lanes_div _ _ := rfl

abbrev CellScan := List Cell

structure ScanBank where
  scans : Array CellScan
deriving DecidableEq

def Limits.project (l : Limits) (cloud : Cloud) (translation : Point) : CellScan :=
  cloud.points.map fun p => l.cellOf (p + translation)

-- Turns, moves and projects four points side by side, and the last three or fewer one by one.
def Limits.projectTurned (V : Type) [Packed V] (l : Limits) (r : Rotation) (translation : Point) :
    List Point → CellScan
  | p :: q :: s :: t :: rest =>
    let xs : V := Packed.pack ⟨p.x, q.x, s.x, t.x⟩
    let ys : V := Packed.pack ⟨p.y, q.y, s.y, t.y⟩
    let sine : V := Packed.spread r.sine
    let cosine : V := Packed.spread r.cosine
    let turnedX := xs * cosine - ys * sine
    let turnedY := xs * sine + ys * cosine
    let gridX := Packed.lanes
      ((turnedX + Packed.spread translation.x - Packed.spread l.origin.x) / Packed.spread l.resolution)
    let gridY := Packed.lanes
      ((turnedY + Packed.spread translation.y - Packed.spread l.origin.y) / Packed.spread l.resolution)
    ⟨gridX.first.floorWhole, gridY.first.floorWhole⟩
      :: ⟨gridX.second.floorWhole, gridY.second.floorWhole⟩
      :: ⟨gridX.third.floorWhole, gridY.third.floorWhole⟩
      :: ⟨gridX.fourth.floorWhole, gridY.fourth.floorWhole⟩
      :: projectTurned V l r translation rest
  | rest => rest.map fun p => l.cellOf (p.rotate r + translation)

def Cloud.turned (cloud : Cloud) (space : SearchSpace) : Except Fault (List Cloud) := do
  let angles ← space.angles
  return angles.map cloud.rotate

namespace ScanBank

def size (b : ScanBank) : Nat := b.scans.size

def isEmpty (b : ScanBank) : Bool := b.scans.isEmpty

def projectAll (l : Limits) (turned : List Cloud) (translation : Point) : ScanBank :=
  ⟨(turned.map fun cloud => l.project cloud translation).toArray⟩

def buildPacked (V : Type) [Packed V] (cloud : Cloud) (space : SearchSpace) (l : Limits)
    (translation : Point) : Except Fault ScanBank := do
  let angles ← space.angles
  return ⟨(angles.map fun angle =>
    l.projectTurned V (.ofAngle angle) translation cloud.points).toArray⟩

def build (cloud : Cloud) (space : SearchSpace) (l : Limits) (translation : Point) :
    Except Fault ScanBank :=
  buildPacked Lanes cloud space l translation

end ScanBank

def SearchSpace.fit (s : SearchSpace) (bank : ScanBank) (l : Limits) :
    Except Fault SearchSpace :=
  if bank.size = s.rotations then do
    let windows ← (s.windows.zip bank.scans.toList).mapM fun (w, scan) => w.fit l scan
    return { s with windows := windows }
  else .error .bankSize

-- A hypothesis; `x`, `y` and `orientation` say in meters and radians what the whole numbers mean.
-- The score is zero until it is computed.
structure Candidate where
  rotation : Nat
  dx : Int
  dy : Int
  x : Single
  y : Single
  orientation : Single
  score : Single
deriving DecidableEq

def SearchSpace.candidate (s : SearchSpace) (rotation : Nat) (dx dy : Int) :
    Except Fault Candidate := do
  let orientation ← s.angleAt rotation
  return ⟨rotation, dx, dy, .ofInt dx * s.resolution, .ofInt dy * s.resolution, orientation, .zero⟩

-- All hypotheses of a search space, which take 32 bytes each.
def SearchSpace.candidates (s : SearchSpace) : Except Fault (List Candidate) := do
  reserve s.size 32
  let groups ← s.windows.zipIdx.mapM fun (w, rotation) =>
    w.shifts.mapM fun (dx, dy) => s.candidate rotation dx dy
  let all := groups.flatten
  if all.length = s.size then return all else .error .candidateCount

structure Ranked where
  place : Nat
  candidate : Candidate
deriving DecidableEq

namespace Ranked

-- The order of two ranked candidates; the better one is the lesser.
def order (a b : Ranked) : Ordering :=
  (compare b.candidate.score.rank a.candidate.score.rank).then (compare a.place b.place)

def prefer (a b : Ranked) : Ranked := if a.order b = .gt then b else a

def ofList (candidates : List Candidate) : List Ranked :=
  candidates.zipIdx.map fun (candidate, place) => ⟨place, candidate⟩

def best? : List Ranked → Option Ranked
  | [] => none
  | first :: rest => some (rest.foldl prefer first)

end Ranked

-- A way to find the best of several candidates by comparing two at a time.
inductive Knockout where
  | single (entry : Ranked)
  | duel (left right : Knockout)

namespace Knockout

def entries : Knockout → List Ranked
  | single entry => [entry]
  | duel left right => left.entries ++ right.entries

def winner : Knockout → Ranked
  | single entry => entry
  | duel left right => left.winner.prefer right.winner

def pairUp : List Knockout → List Knockout
  | left :: right :: rest => duel left right :: pairUp rest
  | rest => rest

theorem length_pairUp_le (ks : List Knockout) : 2 * (pairUp ks).length ≤ ks.length + 1 := by
  fun_induction pairUp ks with
  | case1 left right rest ih => simp only [List.length_cons]; omega
  | case2 rest alone =>
    match rest with
    | [] => simp
    | [_] => simp
    | left :: right :: rest => exact absurd rfl (alone left right rest)

def ofRounds : List Knockout → Option Knockout
  | [] => none
  | [last] => some last
  | left :: right :: rest => ofRounds (pairUp (left :: right :: rest))
termination_by ks => ks.length
decreasing_by
  have := length_pairUp_le (left :: right :: rest)
  simp only [List.length_cons] at *
  omega

def balanced (ranked : List Ranked) : Option Knockout := ofRounds (ranked.map single)

end Knockout

structure Shortlist where
  capacity : Nat
  kept : Array Ranked

namespace Shortlist

def empty (capacity : Nat) : Shortlist := ⟨capacity, #[]⟩

def worst (kept : Array Ranked) : Option (Nat × Ranked) :=
  match kept.toList.zipIdx with
  | [] => none
  | (first, slot) :: rest =>
    some (rest.foldl (fun worst (entry, slot) =>
      if entry.order worst.2 = .gt then (slot, entry) else worst) (slot, first))

def push (s : Shortlist) (entry : Ranked) : Shortlist :=
  if s.kept.size < s.capacity then { s with kept := s.kept.push entry }
  else
    match worst s.kept with
    -- Only a list of capacity zero is both full and empty.
    | none => s
    | some (slot, last) =>
      if entry.order last = .lt then { s with kept := s.kept.setIfInBounds slot entry } else s

def pushAll (s : Shortlist) (entries : List Ranked) : Shortlist := entries.foldl push s

def sorted (s : Shortlist) : List Candidate :=
  (s.kept.toList.mergeSort fun a b => (a.order b).isLE).map (·.candidate)

end Shortlist

end ScanAlign
