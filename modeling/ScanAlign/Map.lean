import ScanAlign.Number.Decimal
import ScanAlign.Plane

namespace ScanAlign

inductive CellReason where
  | probabilityRange
  | distanceUndefined
  | weightRange
deriving DecidableEq

def CellReason.text : CellReason → String
  | probabilityRange => "probability must lie in (0, 1]"
  | distanceUndefined => "signed distance is NaN"
  | weightRange => "weight must be finite and >= 0"

inductive SettingReason where
  | linearWindow
  | angularWindow
  | translationWeight
  | rotationWeight
  | truncation
  | emptySearch
deriving DecidableEq

def SettingReason.text : SettingReason → String
  | linearWindow => "linear_search_window must be finite and >= 0"
  | angularWindow => "angular_search_window must be finite and >= 0"
  | translationWeight => "translation_delta_cost_weight must be finite and >= 0"
  | rotationWeight => "rotation_delta_cost_weight must be finite and >= 0"
  | truncation => "truncation distance must be finite and > 0"
  | emptySearch => "search space is empty"

inductive FiniteInput where
  | mapOrigin
  | initialPose
  | pointCloud
deriving DecidableEq

def FiniteInput.text : FiniteInput → String
  | mapOrigin => "map origin"
  | initialPose => "initial pose"
  | pointCloud => "point cloud"

inductive Rejection where
  | resolution (given : Single)
  | dimensions (columns rows : Nat)
  | tableSize (needed given : Nat)
  | cell (place : Cell) (reason : CellReason)
  | setting (reason : SettingReason)
  | notFinite (input : FiniteInput)
  | emptyCloud
  | noSlot
deriving DecidableEq

-- Checks inside the library whose failure stops the run.
inductive Fault where
  | overflow
  | capacity
  -- A bank must hold one scan for each rotation.
  | bankSize
  -- A clipped window must hold the zero shift.
  | zeroShift
  -- A candidate names a scan that the bank does not hold.
  | scanIndex
  -- The list of candidates must be as long as the windows say.
  | candidateCount
  | resolution
  | probabilityScore
  | distanceScore
deriving DecidableEq, Repr

inductive Failure where
  | rejected (reason : Rejection)
  | fault (fault : Fault)
deriving DecidableEq

namespace Rejection

-- Numbers in messages: never an exponent, and no point in whole numbers.
def plainNumber : DecimalStyle := ⟨none, none, false, false, .up⟩

def message : Rejection → String
  | resolution given =>
    "invalid resolution " ++ given.text plainNumber ++ ": must be finite and > 0"
  | dimensions columns rows =>
    "invalid dimensions: " ++ Nat.repr columns ++ "x" ++ Nat.repr rows
  | tableSize needed given =>
    "buffer size mismatch: needed " ++ Nat.repr needed ++ ", got " ++ Nat.repr given
  | cell c reason =>
    "invalid cell value at (" ++ Int.repr c.x ++ ", " ++ Int.repr c.y ++ "): " ++ reason.text
  | setting reason => "invalid config: " ++ reason.text
  | notFinite input => "non-finite input: " ++ input.text
  | emptyCloud => "empty point cloud: probability grid scoring needs at least one point"
  | noSlot => "pose estimate output is unset"

end Rejection

section

-- No list takes more bytes than this. One that would stops the run before its first entry is made.
def mostBytes : Nat := 0x7fffffffffffffff

def reserve (entries entryBytes : Nat) : Except Fault Unit :=
  if entries * entryBytes ≤ mostBytes then .ok () else .error .capacity

variable {entries entryBytes : Nat}

theorem reserve_eq_ok_iff : reserve entries entryBytes = .ok () ↔ entries * entryBytes ≤ mostBytes := by
  simp [reserve]

theorem reserve_full (full : ¬ entries * entryBytes ≤ mostBytes) :
    reserve entries entryBytes = .error .capacity := if_neg full

end

-- The cell `(0, 0)` has its least corner at `origin`.
structure Limits where
  origin : Point
  resolution : Single
  columns : Nat
  rows : Nat
  resolution_finite : resolution.isFinite = true
  resolution_pos : Single.zero < resolution
  origin_finite : origin.isFinite = true
  columns_pos : 0 < columns
  columns_lt : columns < 0x80000000
  rows_pos : 0 < rows
  rows_lt : rows < 0x80000000

namespace Limits

def make (origin : Point) (resolution : Single) (columns rows : Nat) : Except Rejection Limits :=
  if size : resolution.isFinite = true ∧ Single.zero < resolution then
    if corner : origin.isFinite = true then
      if counts : (0 < columns ∧ columns < 0x80000000) ∧ 0 < rows ∧ rows < 0x80000000 then
        .ok ⟨origin, resolution, columns, rows, size.1, size.2, corner,
          counts.1.1, counts.1.2, counts.2.1, counts.2.2⟩
      else .error (.dimensions columns rows)
    else .error (.notFinite .mapOrigin)
  else .error (.resolution resolution)

def cellCount (l : Limits) : Nat := l.columns * l.rows

-- The cell that contains a point; it may lie outside the map.
def cellOf (l : Limits) (p : Point) : Cell :=
  ⟨((p.x - l.origin.x) / l.resolution).floorWhole, ((p.y - l.origin.y) / l.resolution).floorWhole⟩

def half : Single := .ofFraction 1 2

def centerX (l : Limits) (x : Int) : Single := l.origin.x + (.ofInt x + half) * l.resolution

def centerY (l : Limits) (y : Int) : Single := l.origin.y + (.ofInt y + half) * l.resolution

def center (l : Limits) (c : Cell) : Point := ⟨l.centerX c.x, l.centerY c.y⟩

def contains (l : Limits) (c : Cell) : Bool :=
  0 ≤ c.x && 0 ≤ c.y && c.x < l.columns && c.y < l.rows

def index? (l : Limits) (c : Cell) : Option Nat :=
  if l.contains c then some (c.y.toNat * l.columns + c.x.toNat) else none

def cellAt (l : Limits) (index : Nat) : Cell :=
  ⟨(index % l.columns : Nat), (index / l.columns : Nat)⟩

def cells (l : Limits) : List Cell := (List.range l.cellCount).map l.cellAt

@[simp] theorem length_cells (l : Limits) : l.cells.length = l.cellCount := by
  simp [cells]

def firstDefectFrom (l : Limits) (defect? : Cell → Option α) : Nat → Nat → Option (Cell × α)
  | 0, _ => none
  | count + 1, index =>
    match defect? (l.cellAt index) with
    | some defect => some (l.cellAt index, defect)
    | none => firstDefectFrom l defect? count (index + 1)

def firstDefect? (l : Limits) (defect? : Cell → Option α) : Option (Cell × α) :=
  l.firstDefectFrom defect? l.cellCount 0

theorem firstDefectFrom_eq (l : Limits) (defect? : Cell → Option α) (count index : Nat) :
    l.firstDefectFrom defect? count index =
      ((List.range' index count).map l.cellAt).findSome? fun c => (defect? c).map (c, ·) := by
  induction count generalizing index with
  | zero => rfl
  | succ count ih =>
    rw [List.range'_succ, List.map_cons, List.findSome?_cons, firstDefectFrom, ih]
    cases defect? (l.cellAt index) <;> rfl

theorem firstDefect?_eq (l : Limits) (defect? : Cell → Option α) :
    l.firstDefect? defect? = l.cells.findSome? fun c => (defect? c).map (c, ·) := by
  rw [firstDefect?, firstDefectFrom_eq, cells, List.range_eq_range']

theorem firstDefect?_eq_none_iff {l : Limits} {defect? : Cell → Option α} :
    l.firstDefect? defect? = none ↔ ∀ c ∈ l.cells, defect? c = none := by
  simp [firstDefect?_eq]

end Limits

def Single.isProbability (p : Single) : Bool := p.isFinite && zero < p && p ≤ one

structure ProbabilityMap where
  limits : Limits
  cells : Array Single
  size_eq : cells.size = limits.cellCount
  valid : ∀ p ∈ cells, p.isProbability = true

namespace ProbabilityMap

-- The probability of cells about which nothing is known.
def lowest : Single := .ofFraction 1 10

def highest : Single := .ofFraction 9 10

def room (limits : Limits) : Except Fault Unit := reserve limits.cellCount 4

def unknown (limits : Limits) : Except Fault ProbabilityMap := do
  reserve limits.cellCount 4
  return {
    limits := limits
    cells := .replicate limits.cellCount lowest
    size_eq := by simp
    valid := by
      intro p member
      rw [Array.mem_replicate] at member
      rw [member.2]
      decide +kernel }

def defect? (p : Single) : Option CellReason :=
  if p.isProbability then none else some .probabilityRange

theorem defect?_eq_none_iff {p : Single} : defect? p = none ↔ p.isProbability = true := by
  simp [defect?]

def ofTable (limits : Limits) (table : Array Single) : Except Rejection ProbabilityMap :=
  if size : table.size = limits.cellCount then
    match bad : table.findIdx? fun p => !p.isProbability with
    | some index => .error (.cell (limits.cellAt index) .probabilityRange)
    | none => .ok ⟨limits, table, size, by simpa [Array.findIdx?_eq_none_iff] using bad⟩
  else .error (.tableSize limits.cellCount table.size)

def ofFunction (limits : Limits) (f : Cell → Single) : Except Failure ProbabilityMap := do
  (room limits).mapError .fault
  match bad : limits.firstDefect? fun c => defect? (f c) with
  | some (c, reason) => .error (.rejected (.cell c reason))
  | none => return {
      limits := limits
      cells := (limits.cells.map f).toArray
      size_eq := by simp
      valid := by simpa [Limits.firstDefect?_eq_none_iff, defect?_eq_none_iff] using bad }

def read (m : ProbabilityMap) (c : Cell) : Single :=
  match m.limits.index? c with
  | some index => m.cells.getD index lowest
  | none => lowest

end ProbabilityMap

structure Reading where
  distance : Single
  weight : Single
deriving DecidableEq

def Single.isTruncation (t : Single) : Bool := t.isFinite && zero < t

def Reading.isWithin (r : Reading) (truncation : Single) : Bool :=
  -truncation ≤ r.distance && r.distance ≤ truncation && r.weight.isNonnegative

structure DistanceMap where
  limits : Limits
  truncation : Single
  cells : Array Reading
  truncation_valid : truncation.isTruncation = true
  size_eq : cells.size = limits.cellCount
  valid : ∀ r ∈ cells, r.isWithin truncation = true

namespace DistanceMap

theorem not_isNaN_of_isTruncation {t : Single} (h : t.isTruncation = true) : t.isNaN = false := by
  simp only [Single.isTruncation, Single.isFinite, Single.isNaN, Bool.and_eq_true,
    decide_eq_true_eq, decide_eq_false_iff_not] at *
  omega

theorem position_pos_of_isTruncation {t : Single} (h : t.isTruncation = true) : 0 < t.position := by
  simp only [Single.isTruncation, Bool.and_eq_true, decide_eq_true_eq, Single.lt_iff] at h
  exact h.2.2.2

def defect? (r : Reading) : Option CellReason :=
  if r.distance.isNaN then some .distanceUndefined
  else if !r.weight.isNonnegative then some .weightRange
  else none

def cutOff (truncation : Single) (r : Reading) : Reading :=
  ⟨r.distance.clamp (-truncation) truncation, r.weight⟩

theorem cutOff_isWithin {t : Single} {r : Reading} (positive : t.isTruncation = true)
    (sound : defect? r = none) : (cutOff t r).isWithin t = true := by
  simp only [defect?] at sound
  split at sound
  · cases sound
  · split at sound
    · cases sound
    · rename_i number weight
      have inside := Single.clamp_within (x := r.distance) (by simpa using number)
        (not_isNaN_of_isTruncation positive) (position_pos_of_isTruncation positive)
      simp [Reading.isWithin, cutOff, inside, show r.weight.isNonnegative = true by simpa using weight]

def room (limits : Limits) : Except Fault Unit := reserve limits.cellCount 8

def unobserved (limits : Limits) (truncation : Single) : Except Failure DistanceMap :=
  if positive : truncation.isTruncation = true then do
    (reserve limits.cellCount 8).mapError .fault
    return {
      limits := limits
      truncation := truncation
      cells := .replicate limits.cellCount (cutOff truncation ⟨truncation, .zero⟩)
      truncation_valid := positive
      size_eq := by simp
      valid := by
        intro r member
        rw [Array.mem_replicate] at member
        rw [member.2]
        exact cutOff_isWithin positive (by
          simp [defect?, not_isNaN_of_isTruncation positive,
            show Single.zero.isNonnegative = true by decide]) }
  else .error (.rejected (.setting .truncation))

def ofFunction (limits : Limits) (truncation : Single) (f : Cell → Reading) :
    Except Failure DistanceMap :=
  if positive : truncation.isTruncation = true then do
    (room limits).mapError .fault
    match bad : limits.firstDefect? fun c => defect? (f c) with
    | some (c, reason) => .error (.rejected (.cell c reason))
    | none => return {
        limits := limits
        truncation := truncation
        cells := (limits.cells.map fun c => cutOff truncation (f c)).toArray
        truncation_valid := positive
        size_eq := by simp
        valid := by
          intro r member
          simp only [List.mem_toArray, List.mem_map] at member
          obtain ⟨c, inside, rfl⟩ := member
          exact cutOff_isWithin positive (Limits.firstDefect?_eq_none_iff.mp bad c inside) }
  else .error (.rejected (.setting .truncation))

def read (m : DistanceMap) (c : Cell) : Reading :=
  match m.limits.index? c with
  | some index => m.cells.getD index ⟨m.truncation, .zero⟩
  | none => ⟨m.truncation, .zero⟩

end DistanceMap

inductive Map where
  | probability (m : ProbabilityMap)
  | distance (m : DistanceMap)

def Map.limits : Map → Limits
  | probability m => m.limits
  | distance m => m.limits

end ScanAlign
