import ScanAlign.Json
import ScanAlign.Matcher

namespace ScanAlign

-- Numbers in error records: a point always, and an exponent for very large and very small ones.
def Rejection.recordNumber : DecimalStyle := ⟨some (-3), some 16, true, false, .up⟩

namespace Rejection

def recordText (name : String) (fields : List (String × String)) : String :=
  name ++ " \x7b " ++ ", ".intercalate (fields.map fun (field, value) => field ++ ": " ++ value)
    ++ " \x7d"

def quoted (text : String) : String := "\"" ++ text ++ "\""

def record : Rejection → String
  | resolution given => recordText "InvalidResolution" [("resolution", given.text recordNumber)]
  | dimensions columns rows =>
    recordText "InvalidDimensions" [("width", Nat.repr columns), ("height", Nat.repr rows)]
  | tableSize needed given =>
    recordText "BufferTooSmall" [("needed", Nat.repr needed), ("got", Nat.repr given)]
  | cell c reason =>
    recordText "InvalidCellValue"
      [("x", Int.repr c.x), ("y", Int.repr c.y), ("reason", quoted reason.text)]
  | setting reason => recordText "InvalidConfig" [("reason", quoted reason.text)]
  | notFinite input => recordText "NonFinite" [("context", quoted input.text)]
  | emptyCloud => "EmptyPointCloud"
  | noSlot => "MissingOutput"

end Rejection

inductive RunError where
  | unreadable
  | malformed
  | unwritable
  | zeroInPath
  | zeroCount
  | noPoints
  | noHypotheses
  | failure (failure : Failure)
deriving DecidableEq

namespace RunError

def text : RunError → String
  | unreadable => "the configuration file cannot be read"
  | malformed => "the configuration is malformed"
  | unwritable => "the report cannot be written"
  | zeroInPath => "file name contained an unexpected NUL byte"
  | zeroCount => "topk must be at least 1"
  | noPoints => "map must list occupied points or walls"
  | noHypotheses => "matcher returned no hypotheses"
  | failure (.rejected reason) => reason.message
  | failure (.fault _) => "internal check failed"

-- What the program reports: rejections and misused paths as records, other texts in quotes.
def report (e : RunError) : String :=
  match e with
  | failure (.rejected reason) => "Error: " ++ reason.record
  | zeroInPath =>
    "Error: " ++ Rejection.recordText "Error"
      [("kind", "InvalidInput"), ("message", Rejection.quoted zeroInPath.text)]
  | e => "Error: " ++ Rejection.quoted e.text

-- The exit status after an error. A check that fails inside the library has its own.
def status : RunError → UInt32
  | failure (.fault _) => 101
  | _ => 1

end RunError

inductive MapKind where
  | probability
  | distance
deriving DecidableEq, Repr

def MapKind.cellBytes : MapKind → Nat
  | probability => 4
  | distance => 8

structure Wall where
  start : Point
  finish : Point
deriving DecidableEq

structure MapPlan where
  kind : MapKind
  resolution : Single
  origin : Point
  columns : Nat
  rows : Nat
  hitProbability : Single
  truncation : Single
  walls : List Wall
  occupied : List Point
deriving DecidableEq

-- The least whole number not below `x` that is at least one; at most `greatestCount`.
def Single.ceilCount (x : Single) : Nat :=
  if x.isNaN then 1
  else if x.isInfinite then (if x.negative then 1 else greatestCount)
  else max 1 (min greatestCount (-(-x.value / twoPower 149)).toNat)

namespace Wall

-- The number of equal parts of a wall that are at most `spacing` long.
def parts (w : Wall) (spacing : Single) : Nat := ((w.finish - w.start).norm / spacing).ceilCount

def pointAt (w : Wall) (t : Single) : Point :=
  ⟨w.start.x + t * (w.finish.x - w.start.x), w.start.y + t * (w.finish.y - w.start.y)⟩

def samples (w : Wall) (spacing : Single) : List Point :=
  let parts := w.parts spacing
  (List.range (parts + 1)).map fun (i : Nat) => w.pointAt (.ofInt i / .ofInt parts)

end Wall

namespace MapPlan

def standard : MapPlan where
  kind := .probability
  resolution := .ofFraction 5 100
  origin := ⟨.zero, .zero⟩
  columns := 0
  rows := 0
  hitProbability := .ofFraction 9 10
  truncation := .ofFraction 3 10
  walls := []
  occupied := []

def points (plan : MapPlan) : List Point :=
  let spacing := plan.resolution * Limits.half
  plan.occupied ++ plan.walls.flatMap fun w => w.samples spacing

def pointCount (plan : MapPlan) : Nat :=
  let spacing := plan.resolution * Limits.half
  plan.walls.foldl (fun total w => total + (w.parts spacing + 1)) plan.occupied.length

@[simp] theorem length_points (plan : MapPlan) : plan.points.length = plan.pointCount := by
  have counted (spacing : Single) (walls : List Wall) (total : Nat) :
      walls.foldl (fun total w => total + (w.parts spacing + 1)) total =
        total + (walls.flatMap fun w => w.samples spacing).length := by
    induction walls generalizing total with
    | nil => rfl
    | cons w rest ih =>
      have own : (w.samples spacing).length = w.parts spacing + 1 := by simp [Wall.samples]
      rw [List.foldl_cons, ih, List.flatMap_cons, List.length_append, own, Nat.add_assoc]
  rw [points, List.length_append, pointCount, counted]

def mark (l : Limits) (hit : Single) (table : Array Single) (p : Point) : Array Single :=
  match l.index? (l.cellOf p) with
  | some index => table.setIfInBounds index hit
  | none => table

def marked (l : Limits) (hit : Single) (points : List Point) : Except Fault (Array Single) := do
  reserve l.cellCount 4
  return points.foldl (mark l hit) (.replicate l.cellCount ProbabilityMap.lowest)

def probabilityMap (l : Limits) (hit : Single) (points : List Point) :
    Except Failure ProbabilityMap := do
  let table ← (marked l hit points).mapError .fault
  (ProbabilityMap.ofTable l table).mapError .rejected

-- The shifts by at most `reach` cells that can meet the map when they start at `c`.
def around (l : Limits) (reach : Int) (c : Cell) : Window :=
  ⟨max (-reach) (-c.x), min reach (l.columns - 1 - c.x),
   max (-reach) (-c.y), min reach (l.rows - 1 - c.y)⟩

def lower (l : Limits) (c : Cell) (gap : Point) (table : Array Single) : Array Single :=
  match l.index? c with
  | none => table
  | some index =>
    let distance := gap.norm
    match table[index]? with
    | none => table
    | some before => if distance < before then table.setIfInBounds index distance else table

def stamp (l : Limits) (reach : Int) (table : Array Single) (p : Point) : Array Single :=
  let c := l.cellOf p
  let window := around l reach c
  -- The gap of a cell has the gaps of its column and of its row as its legs.
  let columns := window.shiftsX.map fun dx =>
    let x := (c.shift dx 0).x
    (x, l.centerX x - p.x)
  let rows := window.shiftsY.map fun dy =>
    let y := (c.shift 0 dy).y
    (y, l.centerY y - p.y)
  columns.foldl
    (fun table (x, gapX) =>
      rows.foldl (fun table (y, gapY) => lower l ⟨x, y⟩ ⟨gapX, gapY⟩ table) table)
    table

-- How many cells the truncation distance reaches in each direction. The table of distances, of four
-- bytes for each cell, has to be promised room, and the square of shifts around a point has to
-- start at a whole number of 32 bits.
def reach (l : Limits) (truncation : Single) : Except Fault Int := do
  reserve l.cellCount 4
  let reach := (truncation / l.resolution).ceilWhole
  let _ ← checked (-reach)
  return reach

def distances (l : Limits) (truncation : Single) (reach : Int) (points : List Point) :
    Array Single :=
  points.foldl (stamp l reach) (.replicate l.cellCount truncation)

-- What a table of distances says about a cell, with the weight of one observation.
def reading (l : Limits) (truncation : Single) (table : Array Single) (c : Cell) : Reading :=
  match l.index? c with
  | some index => ⟨table.getD index truncation, .one⟩
  | none => ⟨truncation, .one⟩

def distanceMap (l : Limits) (truncation : Single) (points : List Point) :
    Except Failure DistanceMap := do
  let reach ← (reach l truncation).mapError .fault
  if truncation.isTruncation then
    DistanceMap.ofFunction l truncation (reading l truncation (distances l truncation reach points))
  else .error (.rejected (.setting .truncation))

-- Builds the map. The limits are checked first, then whether the points, of eight bytes each, have
-- room and whether there is any, then what only concerns one kind of map.
def build (plan : MapPlan) : Except RunError Map := do
  let limits ← (Limits.make plan.origin plan.resolution plan.columns plan.rows).mapError
    fun reason => .failure (.rejected reason)
  (reserve plan.pointCount 8).mapError fun fault => .failure (.fault fault)
  let points := plan.points
  if points.isEmpty then .error .noPoints
  else match plan.kind with
    | .probability =>
      let m ← (probabilityMap limits plan.hitProbability points).mapError .failure
      return .probability m
    | .distance =>
      let m ← (distanceMap limits plan.truncation points).mapError .failure
      return .distance m

def Kind.ofJson? : Json → Option MapKind
  | .string (some "probability") => some .probability
  | .string (some "tsdf") => some .distance
  | .object [(some "probability", .null)] => some .probability
  | .object [(some "tsdf", .null)] => some .distance
  | _ => none

def pointOfJson? (j : Json) : Option Point :=
  (j.toPair? Json.toSingle?).map fun (x, y) => ⟨x, y⟩

def wallOfJson? (j : Json) : Option Wall :=
  (j.toPair? pointOfJson?).map fun (start, finish) => ⟨start, finish⟩

def fieldNames : List String :=
  ["kind", "resolution", "origin", "num_x_cells", "num_y_cells", "hit_probability",
   "truncation_distance", "walls", "occupied"]

def ofJson? (j : Json) : Option MapPlan := do
  let fields ← j.record? fieldNames
  let kind ← Json.field? fields "kind" standard.kind Kind.ofJson?
  let resolution ← Json.field? fields "resolution" standard.resolution Json.toSingle?
  let origin ← Json.field? fields "origin" standard.origin pointOfJson?
  let columns ← Json.field? fields "num_x_cells" standard.columns Json.toCount?
  let rows ← Json.field? fields "num_y_cells" standard.rows Json.toCount?
  let hitProbability ← Json.field? fields "hit_probability" standard.hitProbability Json.toSingle?
  let truncation ← Json.field? fields "truncation_distance" standard.truncation Json.toSingle?
  let walls ← Json.field? fields "walls" standard.walls (Json.toList? wallOfJson?)
  let occupied ← Json.field? fields "occupied" standard.occupied (Json.toList? pointOfJson?)
  return ⟨kind, resolution, origin, columns, rows, hitProbability, truncation, walls, occupied⟩

end MapPlan

structure Plan where
  map : MapPlan
  scan : List Point
  -- The heading as configured, not yet wrapped.
  initial : Pose
  outputPath : Option String
  count : Nat
  settings : Settings
deriving DecidableEq

namespace Plan

def standard : Plan where
  map := .standard
  scan := []
  initial := .identity
  outputPath := none
  count := 1
  settings := .standard

def poseOfJson? (j : Json) : Option Pose := do
  let fields ← j.record? ["x", "y", "theta"]
  let x ← Json.field? fields "x" .zero Json.toSingle?
  let y ← Json.field? fields "y" .zero Json.toSingle?
  let heading ← Json.field? fields "theta" .zero Json.toSingle?
  return ⟨x, y, heading⟩

def settingsOfJson? (j : Json) : Option Settings := do
  let standard := Settings.standard
  let fields ← j.record?
    ["linear_search_window", "angular_search_window", "translation_delta_cost_weight",
     "rotation_delta_cost_weight", "parallel"]
  let linear ←
    Json.field? fields "linear_search_window" standard.linearWindow Json.toSingle?
  let angular ←
    Json.field? fields "angular_search_window" standard.angularWindow Json.toSingle?
  let translation ←
    Json.field? fields "translation_delta_cost_weight" standard.translationWeight Json.toSingle?
  let rotation ←
    Json.field? fields "rotation_delta_cost_weight" standard.rotationWeight Json.toSingle?
  let parallel ← Json.field? fields "parallel" standard.parallel Json.toBool?
  return ⟨linear, angular, translation, rotation, parallel⟩

def pathOfJson? : Json → Option (Option String)
  | .null => some none
  | j => j.toText?.map some

def ofJson? (j : Json) : Option Plan := do
  let fields ← j.record? ["map", "scan", "initial_pose", "output_path", "topk", "match"]
  let map ← Json.field? fields "map" standard.map MapPlan.ofJson?
  let scan ← Json.field? fields "scan" standard.scan (Json.toList? MapPlan.pointOfJson?)
  let initial ← Json.field? fields "initial_pose" standard.initial poseOfJson?
  let outputPath ← Json.field? fields "output_path" standard.outputPath pathOfJson?
  let count ← Json.field? fields "topk" standard.count Json.toCount?
  let settings ← Json.field? fields "match" standard.settings settingsOfJson?
  return ⟨map, scan, initial, outputPath, count, settings⟩

def ofText? (text : String) : Option Plan := (Json.ofText? text).bind ofJson?

end Plan

end ScanAlign
