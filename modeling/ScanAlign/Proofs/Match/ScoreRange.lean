import ScanAlign.Proofs.Match.Start

namespace ScanAlign

namespace DistanceMap

variable {m : DistanceMap} {e : Evidence} {scan : CellScan} {dx dy : Int}

structure Balanced (e : Evidence) : Prop where
  plus : EvidenceIsPlus e
  le : e.total.magnitude ≤ e.weight.magnitude

theorem observe_balanced (balanced : Balanced e) (m : DistanceMap) (c : Cell) :
    Balanced (m.observe e c) := by
  obtain ⟨_, _, weightFinite, weight⟩ := isWithin_spec (m.read_isWithin c)
  obtain ⟨closeness, share⟩ := closeness_bounds (m.read_isWithin c)
  have closenessFinite := Single.isFinite_of_le Single.one_isFinite share
  refine ⟨observe_isPlus balanced.plus m c, ?_⟩
  apply Single.magnitude_add_mono balanced.plus.total balanced.plus.weight _ weight balanced.le
  · exact Single.magnitude_mul_le closenessFinite weightFinite share
  · exact Single.zero_le_mul closenessFinite weightFinite closeness.zero_le weight

theorem foldl_observe_balanced (balanced : Balanced e) (m : DistanceMap) (scan : CellScan)
    (dx dy : Int) : Balanced (scan.foldl (fun e c => m.observe e (c.shift dx dy)) e) := by
  induction scan generalizing e with
  | nil => exact balanced
  | cons c rest ih => exact ih (observe_balanced balanced m _)

theorem evidence_balanced (m : DistanceMap) (scan : CellScan) (dx dy : Int) :
    Balanced (m.evidence scan dx dy) :=
  foldl_observe_balanced ⟨⟨Single.isPlus_zero, Single.isPlus_zero⟩, Nat.le_refl _⟩ m scan dx dy

theorem foldl_observe_weight (m : DistanceMap) (scan : CellScan) (dx dy : Int) (e : Evidence) :
    (scan.foldl (fun e c => m.observe e (c.shift dx dy)) e).weight =
      (scan.map fun c => (m.read (c.shift dx dy)).weight).foldl (· + ·) e.weight := by
  induction scan generalizing e with
  | nil => rfl
  | cons c rest ih => exact ih _

theorem mean_inUnit (balanced : Balanced e) (bounded : e.total.isInfinite = false) :
    e.mean.InUnit := by
  unfold Evidence.mean
  cases silent : e.weight.isZero with
  | true => exact Single.isPlus_zero.inUnit (by decide)
  | false =>
    have finite := Single.isFinite_of_bounded balanced.plus.total.number bounded
    obtain ⟨plus, le⟩ :=
      balanced.plus.total.div_le_one balanced.plus.weight finite silent balanced.le
    exact plus.inUnit le

theorem mean_undefined (balanced : Balanced e) (infinite : e.total.isInfinite = true) :
    e.weight.isZero = false ∧ e.mean.isNaN = true := by
  have top : e.total.magnitude = Single.infinityWord := of_decide_eq_true infinite
  have most := Single.isNaN_eq_false_iff.mp balanced.plus.weight.number
  have le := balanced.le
  have same : e.weight.magnitude = Single.infinityWord := by omega
  have weightInfinite : e.weight.isInfinite = true := decide_eq_true same
  have weighs : e.weight.isZero = false := by
    rw [Single.isZero_eq_false_iff, same]
    decide
  have quotient : e.total / e.weight = Single.invalid := by
    change (if e.total.isNaN then e.total else if e.weight.isNaN then e.weight else
      if e.total.isInfinite then
        if e.weight.isInfinite then Single.invalid else _
      else _) = _
    simp only [balanced.plus.total.number, balanced.plus.weight.number, infinite, weightInfinite,
      Bool.false_eq_true, if_false, if_true]
  refine ⟨weighs, ?_⟩
  rw [Evidence.mean, weighs, if_neg Bool.false_ne_true, quotient]
  decide

-- A weight of which any number of points can add up without overflow: `2 ^ 103`.
def safeWeight : Single := ⟨false, 230 * 2 ^ 23, by decide⟩

theorem quanta_safeWeight : safeWeight.quanta = 2 ^ 252 := by decide +kernel

-- So large a sum grows by at most half a unit, and such a step is rounded back.
theorem weight_isFinite
    (light : ∀ c ∈ scan, (m.read (c.shift dx dy)).weight.magnitude ≤ safeWeight.magnitude) :
    (m.evidence scan dx dy).weight.isFinite = true := by
  rw [evidence, foldl_observe_weight]
  refine ((Single.capped_zero 252).foldl_add (Nat.le_refl _) ?_ ?_).isFinite (Nat.le_refl _)
  · intro w member
    obtain ⟨c, _, rfl⟩ := List.mem_map.mp member
    exact (isWithin_spec (m.read_isWithin _)).2.2.2
  · intro w member
    obtain ⟨c, inside, rfl⟩ := List.mem_map.mp member
    rw [← quanta_safeWeight]
    exact Single.quanta_le_iff.mpr (light c inside)

theorem total_bounded
    (light : ∀ c ∈ scan, (m.read (c.shift dx dy)).weight.magnitude ≤ safeWeight.magnitude) :
    (m.evidence scan dx dy).total.isInfinite = false := by
  have finite := weight_isFinite light
  have le := (m.evidence_balanced scan dx dy).le
  rw [Single.isFinite_iff_lt] at finite
  exact decide_eq_false (by omega)

theorem checkedScore_eq (m : DistanceMap) (scan : CellScan) (dx dy : Int) :
    (Map.distance m).checkedScore scan dx dy =
      if (m.evidence scan dx dy).total.isInfinite then .error .distanceScore
      else .ok (m.meanCloseness scan dx dy) := by
  have balanced := m.evidence_balanced scan dx dy
  cases infinite : (m.evidence scan dx dy).total.isInfinite with
  | true =>
    obtain ⟨weighs, undefined⟩ := mean_undefined balanced infinite
    have failed : ¬ Single.zero ≤ (m.evidence scan dx dy).mean := by
      rw [Single.zero_le_iff, undefined]
      simp
    simp [Map.checkedScore, weighs, failed]
  | false =>
    have passed := (mean_inUnit balanced infinite).1
    simp [Map.checkedScore, passed, meanCloseness]

theorem checkedScore_inUnit (m : DistanceMap) (scan : CellScan) (dx dy : Int) :
    ((Map.distance m).checkedScore scan dx dy = .error .distanceScore ↔
        (m.evidence scan dx dy).total.isInfinite = true) ∧
      ((m.evidence scan dx dy).total.isInfinite = false →
        (Map.distance m).checkedScore scan dx dy = .ok ((Map.distance m).rawScore scan dx dy) ∧
          ((Map.distance m).rawScore scan dx dy).InUnit) ∧
      ((∀ c ∈ scan, (m.read (c.shift dx dy)).weight.magnitude ≤ safeWeight.magnitude) →
        (m.evidence scan dx dy).total.isInfinite = false) := by
  have outcome := m.checkedScore_eq scan dx dy
  refine ⟨?_, ?_, total_bounded⟩
  · rw [outcome]
    cases (m.evidence scan dx dy).total.isInfinite <;> simp
  · intro bounded
    refine ⟨?_, mean_inUnit (m.evidence_balanced scan dx dy) bounded⟩
    rw [outcome, bounded]
    rfl

-- Every scan has a score between zero and one, wherever it is shifted to.
def ScoresInUnit (m : DistanceMap) : Prop :=
  ∀ scan dx dy, ∃ score, (Map.distance m).checkedScore scan dx dy = .ok score ∧ score.InUnit

end DistanceMap

namespace TwoCells

theorem one_isTruncation : Single.one.isTruncation = true := by decide +kernel

def surface (weight : Single) (sound : weight.isNonnegative = true) : DistanceMap where
  limits := limits
  truncation := .one
  cells := #[⟨.zero, weight⟩, ⟨.zero, weight⟩]
  truncation_valid := one_isTruncation
  size_eq := rfl
  valid := by
    have near : -Single.one ≤ Single.zero ∧ Single.zero ≤ Single.one := by decide +kernel
    simp [Reading.isWithin, near, sound]

def bothCells : CellScan := [⟨0, 0⟩, ⟨1, 0⟩]

def greatest : Single := ⟨false, Single.infinityWord - 1, by decide⟩

end TwoCells

namespace DistanceMap

theorem checkedScore_inUnit_surface :
    ((Map.distance (TwoCells.surface safeWeight (by decide +kernel))).rawScore TwoCells.bothCells
      0 0).InUnit := by
  obtain ⟨_, scored, light⟩ := checkedScore_inUnit
    (TwoCells.surface safeWeight (by decide +kernel)) TwoCells.bothCells 0 0
  exact (scored (light (by decide +kernel))).2

-- Two of the greatest weights overflow, so the mean over a scan that fits exactly has no value.
theorem not_scoresInUnit_surface :
    ¬ ScoresInUnit (TwoCells.surface TwoCells.greatest (by decide +kernel)) := by
  intro unit
  obtain ⟨score, passed, _⟩ := unit TwoCells.bothCells 0 0
  have failed : (Map.distance (TwoCells.surface TwoCells.greatest (by decide +kernel))).checkedScore
      TwoCells.bothCells 0 0 = .error .distanceScore := by decide +kernel
  rw [failed] at passed
  cases passed

end DistanceMap

namespace Single

variable {x y : Single}

theorem square_of_infinite (infinite : x.isInfinite = true) : x * x = infinity false := by
  have word : x.magnitude = infinityWord := of_decide_eq_true infinite
  have number : x.isNaN = false := isNaN_eq_false_iff.mpr (Nat.le_of_eq word)
  have large : x.isZero = false := by
    rw [isZero_eq_false_iff, word]
    decide
  change (if x.isNaN then x else if x.isNaN then x else
    if x.isInfinite || x.isInfinite then
      if x.isZero || x.isZero then invalid else infinity (x.negative != x.negative)
    else _) = _
  simp [number, infinite, large]

theorem square_isPlus (number : x.isNaN = false) : (x * x).IsPlus := by
  rcases x.class_cases with nan | infinite | finite
  · rw [number] at nan
    cases nan
  · rw [square_of_infinite infinite]
    exact ⟨by decide, rfl⟩
  · refine ⟨isNaN_mul finite finite, ?_⟩
    rw [negative_mul finite finite]
    exact Bool.xor_self x.negative

theorem isNaN_mul_iff (number : x.isNaN = false) (finite : y.isFinite = true) :
    (x * y).isNaN = true ↔ x.isInfinite = true ∧ y.isZero = true := by
  have undefined : invalid.isNaN = true := by decide
  have boundless (negative : Bool) : (infinity negative).isNaN = false := by
    cases negative <;> decide
  cases infinite : x.isInfinite with
  | true =>
    rw [mul_of_infinite infinite finite]
    cases y.isZero <;> simp [undefined, boundless]
  | false =>
    have xFinite := isFinite_of_bounded number infinite
    simp [isNaN_mul xFinite finite]

theorem mul_of_isNaN (nan : x.isNaN = true) (y : Single) : x * y = x := if_pos nan

theorem add_of_isNaN (nan : x.isNaN = true) (y : Single) : x + y = x := if_pos nan

theorem mul_of_right_isNaN (number : x.isNaN = false) (nan : y.isNaN = true) : x * y = y := by
  change (if x.isNaN then x else if y.isNaN then y else _) = y
  rw [number, if_neg Bool.false_ne_true, if_pos nan]

theorem isProbability_mul {raw prior : Single} (probable : raw.isProbability = true)
    (plus : prior.IsPlus) (le : prior.magnitude ≤ one.magnitude) :
    (raw * prior).InUnit ∧
      ((raw * prior).isProbability = true ↔ 2 ^ 149 < 2 * (raw.quanta * prior.quanta)) := by
  obtain ⟨rawPlus, _, rawLe⟩ := isProbability_iff.mp probable
  have finite {x : Single} (share : x.magnitude ≤ one.magnitude) : x.isFinite = true :=
    isFinite_of_le one_isFinite share
  have product : (raw * prior).IsPlus := by
    refine ⟨isNaN_mul (finite rawLe) (finite le), ?_⟩
    rw [negative_mul (finite rawLe) (finite le), rawPlus.plus, plus.plus]
    rfl
  have share : (raw * prior).magnitude ≤ one.magnitude :=
    (magnitude_mul_le (finite rawLe) (finite le) rawLe).trans le
  refine ⟨product.inUnit share, ?_⟩
  rw [isProbability_iff, ← Nat.not_le, ← isZero_mul_iff (finite rawLe) (finite le),
    Bool.not_eq_true]
  exact ⟨fun held => held.2.1, fun nonzero => ⟨product, nonzero, share⟩⟩

theorem isNaN_exponential (x : Single) : x.exponential.isNaN = x.isNaN := by
  cases number : x.isNaN with
  | true => rw [exponential, if_pos number, number]
  | false => exact (exponential_bounds number).1.number

end Single

namespace Candidate

variable {c : Candidate} {w : PriorWeights}

theorem prior_isNaN_iff (x : c.x.isNaN = false) (y : c.y.isNaN = false)
    (orientation : c.orientation.isFinite = true) (translation : w.translation.isFinite = true)
    (rotation : w.rotation.isFinite = true) :
    (c.prior w).isNaN = true ↔
      (c.x.hypotenuse c.y).isInfinite = true ∧ w.translation.isZero = true := by
  have distance := Single.hypotenuse_isPlus x y
  have turn : c.orientation.abs.isFinite = true := orientation
  have turned := Single.square_isPlus (Single.isNaN_mul turn rotation)
  rw [← Single.isNaN_mul_iff distance.number translation]
  unfold prior
  dsimp only
  rw [Single.isNaN_exponential, Single.isNaN_neg]
  generalize c.x.hypotenuse c.y * w.translation = moved
  cases undefined : moved.isNaN with
  | true => rw [Single.mul_of_isNaN undefined, Single.add_of_isNaN undefined, undefined]
  | false => rw [((Single.square_isPlus undefined).add turned.zero_le).number]

end Candidate

namespace Matcher

variable {t : Matcher} {initial : Pose} {cloud : Cloud} {m : Map} {p : ProbabilityMap} {c : Candidate}
  {search : Search} {scored : List Candidate}

theorem valued_scored {a : Alignment} (found : t.align initial cloud m = .ok a)
    (member : c ∈ t.hypotheses initial cloud m) :
    ∃ search scored, t.prepare initial cloud m = .ok search ∧
      t.score m search.bank search.candidates = .ok scored ∧
      c.valued m (t.bank initial cloud m) t.settings.priorWeights ∈ scored := by
  obtain ⟨accepted, room, passed, _⟩ := align_eq_ok_iff.mp found
  exact ⟨_, _, prepare_eq accepted room, score_passed passed, List.mem_map_of_mem member⟩

theorem hypothesis_numbers (member : c ∈ t.hypotheses initial cloud m) :
    c.x.isNaN = false ∧ c.y.isNaN = false ∧ c.orientation.isFinite = true :=
  SearchSpace.hypothesis_numbers (t.space_sound initial cloud m)
    (SearchSpace.quanta_stepFor_le m.limits.resolution_finite m.limits.resolution_pos _)
    m.limits.resolution_finite member

theorem bank_scan (member : c ∈ t.hypotheses initial cloud m) :
    ∃ scan, (t.bank initial cloud m).scans[c.rotation]? = some scan ∧
      scan.length = cloud.points.length := by
  have inside := hypotheses_inBank c member
  rw [size_bank] at inside
  refine ⟨_, SearchSpace.getElem?_bank inside, ?_⟩
  simp [SearchSpace.scan, Limits.project, Cloud.rotate]

theorem points_of_accepted (accepted : refusal? initial cloud (.probability p) = none) :
    cloud.points ≠ [] := by
  intro empty
  unfold refusal? at accepted
  split at accepted
  · cases accepted
  · split at accepted
    · cases accepted
    · simp [Cloud.isEmpty, empty] at accepted

theorem checksPass_few (accepted : refusal? initial cloud (.probability p) = none)
    (few : cloud.points.length ≤ 2 ^ 24) : t.ChecksPass initial cloud (.probability p) := by
  intro c member scan found
  obtain ⟨other, same, length⟩ := bank_scan member
  rw [found] at same
  cases same
  have present : scan ≠ [] := by
    rw [← List.length_pos_iff, length]
    exact List.length_pos_iff.mpr (points_of_accepted accepted)
  exact ⟨_, ProbabilityMap.checkedScore_few present (length ▸ few)⟩

theorem raw_isProbability (accepted : refusal? initial cloud (.probability p) = none)
    (passed : t.ChecksPass initial cloud (.probability p))
    (member : c ∈ t.hypotheses initial cloud (.probability p)) :
    ((t.layout initial cloud (.probability p)).raw (.probability p) c).isProbability = true := by
  obtain ⟨scan, found, length⟩ := bank_scan member
  have present : scan ≠ [] := by
    rw [← List.length_pos_iff, length]
    exact List.length_pos_iff.mpr (points_of_accepted accepted)
  obtain ⟨raw, checked⟩ := passed c member scan found
  have same := Map.checkedScore_eq_ok checked
  rw [Search.raw, layout, found, Option.getD_some, ← same]
  exact ProbabilityMap.checkedScore_mean checked present

-- What the score of one candidate of a search is made of, and when it is positive and at most one.
structure InRange (t : Matcher) (search : Search) (p : ProbabilityMap) (c : Candidate) : Prop where
  score : c.score = search.raw (.probability p) c * c.prior t.settings.priorWeights
  raw : (search.raw (.probability p) c).isProbability = true
  undefined : (c.prior t.settings.priorWeights).isNaN = true ↔
    (c.x.hypotenuse c.y).isInfinite = true ∧ t.settings.translationWeight.isZero = true
  inUnit : (c.prior t.settings.priorWeights).isNaN = false → c.score.InUnit
  positive : c.score.isProbability = true ↔ (c.prior t.settings.priorWeights).isNaN = false ∧
    2 ^ 149 < 2 * ((search.raw (.probability p) c).quanta * (c.prior t.settings.priorWeights).quanta)

theorem valued_inRange (accepted : refusal? initial cloud (.probability p) = none)
    (passed : t.ChecksPass initial cloud (.probability p))
    (member : c ∈ t.valued initial cloud (.probability p)) :
    t.InRange (t.layout initial cloud (.probability p)) p c := by
  obtain ⟨d, hypothesis, valued⟩ := List.mem_map.mp member
  obtain ⟨sameRaw, samePrior, score⟩ := valued_score valued
  have raw := raw_isProbability accepted passed hypothesis
  rw [← sameRaw] at raw
  obtain ⟨x, y, orientation⟩ := hypothesis_numbers hypothesis
  obtain ⟨translation, rotation⟩ := Settings.weights_finite t.sound
  have undefined := Candidate.prior_isNaN_iff x y orientation translation rotation
  have distance : c.x.hypotenuse c.y = d.x.hypotenuse d.y := by rw [← valued]; rfl
  rw [← samePrior, ← distance] at undefined
  cases number : (c.prior t.settings.priorWeights).isNaN with
  | true =>
    have plus := (Single.isProbability_iff.mp raw).1
    have lost : ¬ c.score.isProbability = true := by
      rw [score, Single.mul_of_right_isNaN plus.number number, Single.isProbability_iff]
      intro held
      rw [held.1.number] at number
      cases number
    exact ⟨score, raw, undefined, by simp [number], by simp [lost, number]⟩
  | false =>
    obtain ⟨plus, le⟩ := Candidate.prior_bounds number
    obtain ⟨inUnit, positive⟩ := Single.isProbability_mul raw plus le
    rw [← score] at inUnit positive
    exact ⟨score, raw, undefined, fun _ => inUnit, by simp [positive, number]⟩

theorem score_inRange (prepared : t.prepare initial cloud (.probability p) = .ok search) :
    (cloud.points.length ≤ 2 ^ 24 →
        ∃ scored, t.score (.probability p) search.bank search.candidates = .ok scored) ∧
      ∀ scored, t.score (.probability p) search.bank search.candidates = .ok scored →
        ∀ c ∈ scored, t.InRange search p c := by
  obtain ⟨accepted, _, rfl⟩ := prepare_eq_ok_iff.mp prepared
  constructor
  · intro few
    exact ⟨_, score_passed (checksPass_few accepted few)⟩
  · intro scored ran
    obtain ⟨passed, rfl⟩ := score_eq_ok_iff.mp ran
    intro c member
    exact valued_inRange accepted passed member

end Matcher

namespace TwoCells

open Matcher

-- A matcher whose prior is lost one cell away.
def eager : Matcher where
  settings := { Settings.standard with
    linearWindow := .one, angularWindow := .zero, translationWeight := .ofInt 11,
    rotationWeight := .zero }
  sound := by decide +kernel

def centered : Cloud := ⟨[⟨Limits.half, Limits.half⟩]⟩

def besides : Candidate := (eager.space .identity centered faint).hypothesis 0 1 0

theorem besides_scored :
    ∃ search scored, eager.prepare .identity centered faint = .ok search ∧
      eager.score faint search.bank search.candidates = .ok scored ∧
      besides.valued faint (eager.bank .identity centered faint) eager.settings.priorWeights ∈ scored := by
  have listed : eager.hypotheses .identity centered faint =
      [(eager.space .identity centered faint).hypothesis 0 0 0, besides] := by decide +kernel
  have member : besides ∈ eager.hypotheses .identity centered faint := by
    rw [listed]
    exact List.mem_cons_of_mem _ List.mem_cons_self
  have passed : (eager.align .identity centered faint).isOk = true := by decide +kernel
  cases found : eager.align .identity centered faint with
  | error failure =>
    rw [found] at passed
    cases passed
  | ok a => exact valued_scored found member

end TwoCells

namespace Matcher

-- Every scored candidate of a search has a positive score of at most one.
def ScoresProbable (t : Matcher) (initial : Pose) (cloud : Cloud) (m : Map) : Prop :=
  ∀ search scored, t.prepare initial cloud m = .ok search →
    t.score m search.bank search.candidates = .ok scored → ∀ c ∈ scored, c.score.isProbability = true

theorem score_inRange_eager :
    ∃ search scored, TwoCells.eager.prepare .identity TwoCells.centered TwoCells.faint = .ok search ∧
      TwoCells.eager.score TwoCells.faint search.bank search.candidates = .ok scored ∧
      ∃ c ∈ scored, c.score.InUnit ∧ ¬ c.score.isProbability = true := by
  obtain ⟨search, scored, prepared, ran, member⟩ := TwoCells.besides_scored
  obtain ⟨_, inRange⟩ := score_inRange prepared
  refine ⟨search, scored, prepared, ran, _, member, (inRange scored ran _ member).inUnit ?_, ?_⟩
  · decide +kernel
  · decide +kernel

theorem not_scoresProbable_eager :
    ¬ ScoresProbable TwoCells.eager .identity TwoCells.centered TwoCells.faint := by
  intro probable
  obtain ⟨search, scored, prepared, ran, member⟩ := TwoCells.besides_scored
  have score := probable search scored prepared ran _ member
  exact absurd score (by decide +kernel)

end Matcher

end ScanAlign
