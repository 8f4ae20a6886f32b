import ScanAlign.Search

namespace ScanAlign

def ProbabilityMap.meanProbability (m : ProbabilityMap) (scan : CellScan) (dx dy : Int) : Single :=
  if scan.isEmpty then .zero
  else scan.foldl (fun total c => total + m.read (c.shift dx dy)) .zero / .ofInt scan.length

structure Evidence where
  total : Single
  weight : Single
deriving DecidableEq

def Evidence.mean (e : Evidence) : Single := if e.weight.isZero then .zero else e.total / e.weight

namespace DistanceMap

-- How close a distance is to zero: one at zero, zero at the truncation distance.
def closeness (m : DistanceMap) (distance : Single) : Single :=
  (m.truncation - distance.abs) / m.truncation

def observe (m : DistanceMap) (e : Evidence) (c : Cell) : Evidence :=
  let r := m.read c
  ⟨e.total + m.closeness r.distance * r.weight, e.weight + r.weight⟩

def evidence (m : DistanceMap) (scan : CellScan) (dx dy : Int) : Evidence :=
  scan.foldl (fun e c => m.observe e (c.shift dx dy)) ⟨.zero, .zero⟩

def meanCloseness (m : DistanceMap) (scan : CellScan) (dx dy : Int) : Single :=
  (m.evidence scan dx dy).mean

end DistanceMap

namespace Map

def rawScore (m : Map) (scan : CellScan) (dx dy : Int) : Single :=
  match m with
  | probability p => p.meanProbability scan dx dy
  | distance d => d.meanCloseness scan dx dy

-- The raw score after the check of its sign. A mean over points has to be positive, and a mean over
-- weights not negative; zero stands for a scan that says nothing.
def checkedScore (m : Map) (scan : CellScan) (dx dy : Int) : Except Fault Single :=
  match m with
  | probability p =>
    let score := p.meanProbability scan dx dy
    if scan.isEmpty || Single.zero < score then .ok score else .error .probabilityScore
  | distance d =>
    let e := d.evidence scan dx dy
    if e.weight.isZero || Single.zero ≤ e.mean then .ok e.mean else .error .distanceScore

theorem checkedScore_eq_ok {m : Map} {scan : CellScan} {dx dy : Int} {score : Single}
    (passed : m.checkedScore scan dx dy = .ok score) : score = m.rawScore scan dx dy := by
  cases m with
  | probability p =>
    simp only [checkedScore] at passed
    split at passed
    · exact (Except.ok.inj passed).symm
    · cases passed
  | distance d =>
    simp only [checkedScore] at passed
    split at passed
    · exact (Except.ok.inj passed).symm
    · cases passed

end Map

-- How fast the prior falls with the distance in meters and in radians.
structure PriorWeights where
  translation : Single
  rotation : Single
deriving DecidableEq

namespace Candidate

def prior (c : Candidate) (w : PriorWeights) : Single :=
  let translation := c.x.hypotenuse c.y * w.translation
  let rotation := c.orientation.abs * w.rotation
  (-(translation * translation + rotation * rotation)).exponential

def scored (c : Candidate) (m : Map) (bank : ScanBank) (w : PriorWeights) :
    Except Fault Candidate :=
  match bank.scans[c.rotation]? with
  | none => .error .scanIndex
  | some scan => do
    let raw ← m.checkedScore scan c.dx c.dy
    return { c with score := raw * c.prior w }

end Candidate

namespace Scoring

def inOrder (m : Map) (bank : ScanBank) (w : PriorWeights) (candidates : List Candidate) :
    Except Fault (List Candidate) :=
  candidates.mapM fun c => c.scored m bank w

def slot (m : Map) (bank : ScanBank) (w : PriorWeights) (candidates : Array Candidate) (i : Nat) :
    Except Fault (Array Candidate) :=
  match candidates[i]? with
  | none => .ok candidates
  | some c => do
    let c ← c.scored m bank w
    return candidates.setIfInBounds i c

def bySchedule (m : Map) (bank : ScanBank) (w : PriorWeights) (schedule : List Nat)
    (candidates : List Candidate) : Except Fault (List Candidate) := do
  let slots ← schedule.foldlM (slot m bank w) candidates.toArray
  return slots.toList

-- A schedule for `n` slots: one worker takes those with an even number, then another the odd ones.
def twoWorkers (n : Nat) : List Nat :=
  (List.range n).filter (· % 2 == 0) ++ (List.range n).filter (· % 2 != 0)

end Scoring

-- Half widths of the search windows in meters and radians, prior weights, and whether candidates
-- are scored side by side, which changes no result.
structure Settings where
  linearWindow : Single
  angularWindow : Single
  translationWeight : Single
  rotationWeight : Single
  parallel : Bool
deriving DecidableEq

namespace Settings

def standard : Settings where
  linearWindow := .ofFraction 1 10
  angularWindow := .ofInt 20 * (.pi / .ofInt 180)
  translationWeight := .ofFraction 1 10
  rotationWeight := .ofFraction 1 10
  parallel := false

instance : Inhabited Settings := ⟨standard⟩

def defect? (s : Settings) : Option SettingReason :=
  if !s.linearWindow.isNonnegative then some .linearWindow
  else if !s.angularWindow.isNonnegative then some .angularWindow
  else if !s.translationWeight.isNonnegative then some .translationWeight
  else if !s.rotationWeight.isNonnegative then some .rotationWeight
  else none

def priorWeights (s : Settings) : PriorWeights := ⟨s.translationWeight, s.rotationWeight⟩

end Settings

structure Alignment where
  pose : Pose
  score : Single
  candidate : Candidate
deriving DecidableEq

-- The pose that a candidate stands for. A rotation by zero keeps the initial heading as it is.
def Alignment.compose (initial : Pose) (c : Candidate) : Alignment where
  pose := {
    x := initial.x + c.x
    y := initial.y + c.y
    heading :=
      if c.orientation.isZero then initial.heading
      else (initial.heading + c.orientation).wrapAngle }
  score := c.score
  candidate := c

structure Matcher where
  settings : Settings
  sound : settings.defect? = none

namespace Matcher

def standard : Matcher := ⟨.standard, by decide +kernel⟩

def ofSettings (settings : Settings) : Except Rejection Matcher :=
  match sound : settings.defect? with
  | some reason => .error (.setting reason)
  | none => .ok ⟨settings, sound⟩

def refusal? (initial : Pose) (cloud : Cloud) (m : Map) : Option Rejection :=
  if !initial.isFinite then some (.notFinite .initialPose)
  else if !cloud.isFinite then some (.notFinite .pointCloud)
  else match m with
    | .probability _ => if cloud.isEmpty then some .emptyCloud else none
    | .distance _ => none

structure Search where
  bank : ScanBank
  candidates : List Candidate

def search (t : Matcher) (initial : Pose) (cloud : Cloud) (m : Map) : Except Fault Search := do
  let limits := m.limits
  let turned := cloud.rotate initial.heading
  let space ← SearchSpace.covering t.settings.linearWindow t.settings.angularWindow turned
    limits.resolution
  let bank ← ScanBank.build turned space limits initial.translation
  let space ← space.fit bank limits
  let candidates ← space.candidates
  return ⟨bank, candidates⟩

def score (t : Matcher) (m : Map) (bank : ScanBank) (candidates : List Candidate) :
    Except Fault (List Candidate) :=
  let weights := t.settings.priorWeights
  if t.settings.parallel then
    Scoring.bySchedule m bank weights (Scoring.twoWorkers candidates.length) candidates
  else Scoring.inOrder m bank weights candidates

def best? (t : Matcher) (candidates : List Candidate) : Option Ranked :=
  let ranked := Ranked.ofList candidates
  if t.settings.parallel then (Knockout.balanced ranked).map Knockout.winner
  else Ranked.best? ranked

def faulty (step : Except Fault α) : Except Failure α := step.mapError .fault

def prepare (t : Matcher) (initial : Pose) (cloud : Cloud) (m : Map) : Except Failure Search :=
  match t.settings.defect? with
  | some reason => .error (.rejected (.setting reason))
  | none =>
    match refusal? initial cloud m with
    | some reason => .error (.rejected reason)
    | none => faulty (t.search initial cloud m)

def align (t : Matcher) (initial : Pose) (cloud : Cloud) (m : Map) : Except Failure Alignment := do
  let search ← t.prepare initial cloud m
  let scored ← faulty (t.score m search.bank search.candidates)
  match t.best? scored with
  | none => .error (.rejected (.setting .emptySearch))
  | some best => return .compose initial best.candidate

-- Aligns a scan and writes the pose into a slot. The first part of the result is the slot
-- afterwards; it changes only on success.
def alignInto (t : Matcher) (initial : Pose) (cloud : Cloud) (m : Map) (slot : Option Pose) :
    Option Pose × Except Failure Single :=
  match slot with
  | none => (none, .error (.rejected .noSlot))
  | some before =>
    match t.align initial cloud m with
    | .error failure => (some before, .error failure)
    | .ok a => (some a.pose, .ok a.score)

def alignBest (t : Matcher) (initial : Pose) (cloud : Cloud) (m : Map) (k : Nat) :
    Except Failure (List Alignment) := do
  let search ← t.prepare initial cloud m
  if k = 0 then return []
  let scored ← faulty (t.score m search.bank search.candidates)
  let shortlist := (Shortlist.empty (min k scored.length)).pushAll (Ranked.ofList scored)
  return shortlist.sorted.map (.compose initial)

end Matcher

end ScanAlign
