import ScanAlign.Proofs.Match.Optimum
import ScanAlign.Proofs.Number.Errors
import ScanAlign.Proofs.Search.Covering

namespace ScanAlign

namespace Single

variable {x : Single}

theorem mul_self_of_isZero (zero : x.isZero = true) : x * x = Single.zero := by
  have finite := isFinite_of_isZero zero
  apply eq_of_parts
  · rw [negative_mul finite finite]
    exact Bool.xor_self x.negative
  · exact isZero_iff.mp (isZero_mul finite finite (.inl zero))

end Single

namespace Settings

variable {s : Settings}

theorem defect?_eq_none_iff :
    s.defect? = none ↔ s.linearWindow.isNonnegative = true ∧ s.angularWindow.isNonnegative = true ∧
      s.translationWeight.isNonnegative = true ∧ s.rotationWeight.isNonnegative = true := by
  unfold defect?
  cases s.linearWindow.isNonnegative <;> cases s.angularWindow.isNonnegative <;>
    cases s.translationWeight.isNonnegative <;> cases s.rotationWeight.isNonnegative <;> simp

theorem weights_finite (sound : s.defect? = none) :
    s.priorWeights.translation.isFinite = true ∧ s.priorWeights.rotation.isFinite = true := by
  obtain ⟨_, _, translation, rotation⟩ := defect?_eq_none_iff.mp sound
  exact ⟨(Single.isNonnegative_iff.mp translation).1, (Single.isNonnegative_iff.mp rotation).1⟩

end Settings

theorem Candidate.prior_still {c : Candidate} {w : PriorWeights} (x : c.x.isZero = true)
    (y : c.y.isZero = true) (orientation : c.orientation.isZero = true)
    (translation : w.translation.isFinite = true) (rotation : w.rotation.isFinite = true) :
    c.prior w = .one := by
  have start : Single.zero.isFinite = true := by decide
  have turn : c.orientation.abs.isZero = true := orientation
  have moved := Single.isZero_mul start translation (.inl (by decide))
  have turned := Single.isZero_mul (Single.isFinite_of_isZero turn) rotation (.inl turn)
  unfold prior
  dsimp only
  rw [Single.hypotenuse_of_isZero x y, Single.mul_self_of_isZero moved,
    Single.mul_self_of_isZero turned]
  decide +kernel

namespace SearchSpace

variable {s : SearchSpace} {linear angular resolution : Single} {cloud : Cloud}

theorem still_spec (finite : s.resolution.isFinite = true) (positive : Single.zero < s.resolution)
    (step : s.step.isFinite = true) :
    (s.hypothesis s.zeroRotation 0 0).x = .zero ∧ (s.hypothesis s.zeroRotation 0 0).y = .zero ∧
      (s.hypothesis s.zeroRotation 0 0).orientation.isZero = true := by
  have none : Single.ofInt 0 = Single.zero := rfl
  have product := (Single.isPlus_of_pos positive).1.isZero_mul_eq finite (x := .zero) (by decide)
  have difference : ((s.turns : Nat) : Int) - s.turns = 0 := Int.sub_self _
  refine ⟨product, product, ?_⟩
  change (Single.ofInt (((s.turns : Nat) : Int) - s.turns) * s.step).isZero = true
  rw [difference, none]
  exact Single.isZero_mul (by decide) step (.inl (by decide))

theorem significand_of_isZero {x : Single} (zero : x.isZero = true) : x.significand = 0 := by
  rw [Single.significand, Single.isZero_iff.mp zero]
  rfl

theorem ceil_of_isZero {x : Single} (zero : x.isZero = true) (y : Dyadic) :
    (x.toDyadic / y).ceil = 0 := by
  have quotient : x.toDyadic / y = Dyadic.zero := if_pos (significand_of_isZero zero)
  rw [quotient]
  decide

theorem shiftsFor_of_isZero (zero : linear.isZero = true) : shiftsFor linear resolution = 0 := by
  have bounded := (Single.isFinite_iff.mp (Single.isFinite_of_isZero zero)).2
  unfold shiftsFor
  rw [bounded, ceil_of_isZero zero, if_neg Bool.false_ne_true, Nat.min_zero, ite_self]

theorem turnsFor_of_isZero (zero : angular.isZero = true) (step : Dyadic) :
    turnsFor angular step = 0 := by
  have number := (Single.isFinite_iff.mp (Single.isFinite_of_isZero zero)).1
  have position : angular.position = 0 := by
    rw [Single.position, Single.isZero_iff.mp zero]
    cases angular.negative <;> rfl
  have within : angular.clamp .zero widestTurn = angular := by
    have low := Single.zero_le_iff.mpr ⟨number, .inr zero⟩
    have high : angular ≤ widestTurn :=
      Single.le_iff.mpr ⟨number, by decide +kernel, by rw [position]; decide +kernel⟩
    exact Single.clamp_of_within low high
  unfold turnsFor
  dsimp only
  rw [within, number, ceil_of_isZero zero, if_neg Bool.false_ne_true, Nat.min_zero]

end SearchSpace

namespace Matcher

variable {t : Matcher} {initial : Pose} {cloud : Cloud} {m : Map} {a : Alignment} {c : Candidate}

def stillScore (m : Map) (s : SearchSpace) (scans : Nat → CellScan) : Single :=
  m.rawScore (scans s.zeroRotation) 0 0

variable (t initial cloud m)

def still : Candidate :=
  (t.start initial cloud m).hypothesis (t.start initial cloud m).zeroRotation 0 0

theorem still_mem : t.still initial cloud m ∈ t.hypotheses initial cloud m := zero_mem_hypotheses

theorem still_unmoved :
    (t.still initial cloud m).x = .zero ∧ (t.still initial cloud m).y = .zero ∧
      (t.still initial cloud m).orientation.isZero = true :=
  SearchSpace.still_spec m.limits.resolution_finite m.limits.resolution_pos
    (SearchSpace.stepFor_isFinite m.limits.resolution_finite m.limits.resolution_pos _)

theorem still_prior : (t.still initial cloud m).prior t.settings.priorWeights = .one := by
  obtain ⟨x, y, orientation⟩ := t.still_unmoved initial cloud m
  obtain ⟨translation, rotation⟩ := Settings.weights_finite t.sound
  have none : Single.zero.isZero = true := by decide
  exact Candidate.prior_still (by rw [x, none]) (by rw [y, none]) orientation translation rotation

-- The prior of the unmoved scan is one, so its score is how well it fits.
theorem worth_still :
    t.worth m (t.start initial cloud m) (t.cells initial cloud m)
        (t.start initial cloud m).zeroRotation 0 0 =
      stillScore m (t.start initial cloud m) (t.cells initial cloud m) := by
  have prior := t.still_prior initial cloud m
  rw [still] at prior
  rw [worth, prior, Single.mul_one_self, stillScore]

theorem score_still :
    ((t.still initial cloud m).valued m (t.bank initial cloud m) t.settings.priorWeights).score =
      stillScore m (t.start initial cloud m) (t.cells initial cloud m) := by
  rw [score_valued (t.still_mem initial cloud m)]
  exact t.worth_still initial cloud m

variable {t initial cloud m}

theorem best_not_worse {best : Ranked} (isBest : Ranked.Best (t.ranked initial cloud m) best)
    (atPlace : (t.hypotheses initial cloud m)[best.place]? = some c) :
    (stillScore m (t.start initial cloud m) (t.cells initial cloud m)).rank ≤
      best.candidate.score.rank := by
  have compared := best_spec isBest atPlace (t.still_mem initial cloud m)
  rw [still, SearchSpace.hypothesis] at compared
  dsimp only at compared
  rw [t.worth_still initial cloud m] at compared
  rcases compared with less | ⟨equal, _⟩
  · exact Int.le_of_lt less
  · exact Int.le_of_eq equal

theorem mem_hypotheses_still (linear : t.settings.linearWindow.isZero = true)
    (angular : t.settings.angularWindow.isZero = true)
    (member : c ∈ t.hypotheses initial cloud m) : c = t.still initial cloud m := by
  obtain ⟨admissible, same⟩ := mem_hypotheses.mp member
  have turns : (t.start initial cloud m).turns = 0 := SearchSpace.turnsFor_of_isZero angular _
  have reach : t.reach m = 0 := SearchSpace.shiftsFor_of_isZero linear
  obtain ⟨turned, across, along, _⟩ := admissible
  rw [reach, Nat.zero_min] at across along
  have rotation : c.rotation = (t.start initial cloud m).zeroRotation := by
    rw [SearchSpace.zeroRotation]
    omega
  have dx : c.dx = 0 := by omega
  have dy : c.dy = 0 := by omega
  rw [same, rotation, dx, dy, still]

theorem hypotheses_still (linear : t.settings.linearWindow.isZero = true)
    (angular : t.settings.angularWindow.isZero = true) :
    t.hypotheses initial cloud m = [t.still initial cloud m] := by
  have only (c : Candidate) (member : c ∈ t.hypotheses initial cloud m) :
      c = t.still initial cloud m := mem_hypotheses_still linear angular member
  have present : t.still initial cloud m ∈ t.hypotheses initial cloud m := t.still_mem initial cloud m
  have rising : (t.hypotheses initial cloud m).Pairwise Candidate.Earlier :=
    (t.space initial cloud m).hypotheses_rising
  cases listed : t.hypotheses initial cloud m with
  | nil =>
    rw [listed] at present
    cases present
  | cons first rest =>
    rw [listed] at only rising
    cases rest with
    | nil => rw [only first List.mem_cons_self]
    | cons second others =>
      have earlier := (List.pairwise_cons.mp rising).1 second List.mem_cons_self
      rw [only first List.mem_cons_self,
        only second (List.mem_cons_of_mem _ List.mem_cons_self)] at earlier
      exact absurd earlier earlier.asymm

theorem compose_still (finite : initial.isFinite = true) (x : c.x = .zero) (y : c.y = .zero)
    (orientation : c.orientation.isZero = true) :
    (Alignment.compose initial c).pose.x.SameNumber initial.x ∧
      (Alignment.compose initial c).pose.y.SameNumber initial.y ∧
      (Alignment.compose initial c).pose.heading = initial.heading := by
  simp only [Pose.isFinite, Bool.and_eq_true] at finite
  obtain ⟨⟨xFinite, yFinite⟩, _⟩ := finite
  simp only [Alignment.compose, x, y, orientation, if_true, and_true]
  exact ⟨Single.add_isZero xFinite rfl, Single.add_isZero yFinite rfl⟩

theorem finite_of_accepted (accepted : refusal? initial cloud m = none) : initial.isFinite = true := by
  cases finite : initial.isFinite with
  | true => rfl
  | false => simp [refusal?, finite] at accepted

theorem align_not_worse (found : t.align initial cloud m = .ok a) :
    ∃ s raw, SearchSpace.covering t.settings.linearWindow t.settings.angularWindow
          (cloud.rotate initial.heading) m.limits.resolution = .ok s ∧
      raw = stillScore m s (s.scan m.limits (cloud.rotate initial.heading) initial.translation) ∧
      raw.rank ≤ a.score.rank ∧
      (t.settings.linearWindow.isZero = true → t.settings.angularWindow.isZero = true →
        (∃ search only, t.prepare initial cloud m = .ok search ∧ search.candidates = [only]) ∧
          a.score = raw ∧ a.pose.x.SameNumber initial.x ∧ a.pose.y.SameNumber initial.y ∧
            a.pose.heading = initial.heading) := by
  obtain ⟨accepted, room, _, best, isBest, rfl⟩ := align_eq_ok_iff.mp found
  obtain ⟨d, atPlace, valued⟩ := getElem?_valued.mp (Ranked.mem_ofList.mp isBest.1)
  refine ⟨t.start initial cloud m, _, SearchSpace.covering_eq m.limits.resolution_pos _ _ _, rfl,
    best_not_worse isBest atPlace, ?_⟩
  intro linear angular
  have listed : t.hypotheses initial cloud m = [t.still initial cloud m] :=
    hypotheses_still linear angular
  have only : d = t.still initial cloud m :=
    mem_hypotheses_still linear angular (List.mem_of_getElem? atPlace)
  rw [only] at valued
  refine ⟨⟨_, _, prepare_eq accepted room, listed⟩, ?_, ?_⟩
  · rw [Alignment.score_compose, ← valued]
    exact t.score_still initial cloud m
  · rw [← valued]
    obtain ⟨x, y, orientation⟩ := t.still_unmoved initial cloud m
    exact compose_still (finite_of_accepted accepted) x y orientation

end Matcher

namespace TwoCells

def fixed : Matcher where
  settings := { Settings.standard with linearWindow := .zero, angularWindow := .zero }
  sound := by decide +kernel

end TwoCells

namespace Matcher

theorem align_not_worse_fixed :
    ∃ a raw, TwoCells.fixed.align .identity TwoCells.cloud TwoCells.map = .ok a ∧
      raw.rank ≤ a.score.rank ∧ a.score = raw ∧ a.pose.x.SameNumber .zero ∧
      a.pose.y.SameNumber .zero ∧ a.pose.heading = .zero := by
  have passed : (TwoCells.fixed.align .identity TwoCells.cloud TwoCells.map).isOk = true := by
    decide +kernel
  cases found : TwoCells.fixed.align .identity TwoCells.cloud TwoCells.map with
  | error failure =>
    rw [found] at passed
    cases passed
  | ok a =>
    obtain ⟨_, raw, _, _, noLower, unmoved⟩ := align_not_worse found
    obtain ⟨_, score, x, y, heading⟩ := unmoved (by decide) (by decide)
    exact ⟨a, raw, rfl, noLower, score, x, y, heading⟩

end Matcher

end ScanAlign
