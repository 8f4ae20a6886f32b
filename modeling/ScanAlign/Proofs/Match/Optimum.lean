import ScanAlign.Proofs.Match.Outcome
import ScanAlign.Proofs.Match.RawScore
import ScanAlign.Proofs.Number.Dyadic

namespace ScanAlign

namespace SearchSpace

-- The rotations and shifts that a search may try: within its counts, smaller than the map, and keeping
-- on the map what starts on it.
structure Admissible (s : SearchSpace) (reach : Nat) (l : Limits) (scans : Nat → CellScan)
    (rotation : Nat) (dx dy : Int) : Prop where
  turned : rotation ≤ 2 * s.turns
  across : dx.natAbs ≤ min reach (l.columns - 1)
  along : dy.natAbs ≤ min reach (l.rows - 1)
  stays : ∀ c ∈ scans rotation, l.contains c = true → l.contains (c.shift dx dy) = true

variable {s : SearchSpace} {l : Limits} {cloud : Cloud} {translation : Point} {reach place : Nat}
  {dx dy : Int}

theorem fitted_allows_iff (wide : s.windows = List.replicate s.rotations (.centered reach)) :
    (∃ w, (s.fitted (s.bank l cloud translation) l).windows[place]? = some w ∧ w.Allows dx dy) ↔
      s.Admissible reach l (s.scan l cloud translation) place dx dy := by
  have zero : (Window.centered reach).Allows 0 0 := by
    rw [Window.allows_centered]
    omega
  have columns := l.columns_pos
  have rows := l.rows_pos
  constructor
  · intro held
    obtain ⟨w, found, allowed⟩ := held
    obtain ⟨before, cells, atPlace, inBank, rfl⟩ := getElem?_fitted.mp found
    rw [wide, List.getElem?_replicate] at atPlace
    split at atPlace
    · rename_i inside
      cases atPlace
      rw [getElem?_bank inside] at inBank
      cases inBank
      obtain ⟨near, small, stays⟩ := (Window.allows_clip_kept zero).mp allowed
      rw [Window.allows_centered] at near
      unfold Window.Small at small
      unfold rotations at inside
      exact ⟨by omega, by omega, by omega, stays⟩
    · cases atPlace
  · intro held
    obtain ⟨turned, across, along, stays⟩ := held
    have inside : place < s.rotations := by
      unfold rotations
      omega
    have atPlace : s.windows[place]? = some (.centered reach) := by
      rw [wide, List.getElem?_replicate, if_pos inside]
    refine ⟨_, getElem?_fitted.mpr ⟨_, _, atPlace, getElem?_bank inside, rfl⟩, ?_⟩
    refine (Window.allows_clip_kept zero).mpr ⟨?_, ?_, stays⟩
    · rw [Window.allows_centered]
      omega
    · unfold Window.Small
      omega

end SearchSpace

namespace Matcher

variable {t : Matcher} {initial : Pose} {cloud : Cloud} {m : Map} {a : Alignment} {best : Ranked}
  {c d : Candidate} {place : Nat}

-- The score of a rotation and a shift: how well the scan fits, times the prior.
def worth (t : Matcher) (m : Map) (s : SearchSpace) (scans : Nat → CellScan) (rotation : Nat)
    (dx dy : Int) : Single :=
  m.rawScore (scans rotation) dx dy * (s.hypothesis rotation dx dy).prior t.settings.priorWeights

-- The alignment belongs to an admissible rotation and shift. None of those scores higher, and none of
-- those that score the same comes before it.
structure Optimal (t : Matcher) (initial : Pose) (m : Map) (s : SearchSpace) (reach : Nat)
    (scans : Nat → CellScan) (a : Alignment) : Prop where
  admissible : s.Admissible reach m.limits scans a.candidate.rotation a.candidate.dx a.candidate.dy
  score : a.score = t.worth m s scans a.candidate.rotation a.candidate.dx a.candidate.dy
  greatest : ∀ rotation dx dy, s.Admissible reach m.limits scans rotation dx dy →
    (t.worth m s scans rotation dx dy).rank ≤ a.score.rank
  first : ∀ rotation dx dy, s.Admissible reach m.limits scans rotation dx dy →
    t.worth m s scans rotation dx dy = a.score →
    ¬ (s.hypothesis rotation dx dy).Earlier a.candidate
  offsets : a.candidate =
    { rotation := a.candidate.rotation
      dx := a.candidate.dx
      dy := a.candidate.dy
      x := .ofInt a.candidate.dx * m.limits.resolution
      y := .ofInt a.candidate.dy * m.limits.resolution
      orientation := .ofInt ((a.candidate.rotation : Int) - s.turns) * s.step
      score := a.score }
  pose : a.pose =
    { x := initial.x + a.candidate.x
      y := initial.y + a.candidate.y
      heading :=
        if a.candidate.orientation.isZero then initial.heading
        else (initial.heading + a.candidate.orientation).wrapAngle }

variable (t initial cloud m) in
def cells : Nat → CellScan :=
  (t.start initial cloud m).scan m.limits (cloud.rotate initial.heading) initial.translation

variable (t m) in
def reach : Nat := SearchSpace.shiftsFor t.settings.linearWindow m.limits.resolution

theorem mem_hypotheses :
    c ∈ t.hypotheses initial cloud m ↔
      (t.start initial cloud m).Admissible (t.reach m) m.limits (t.cells initial cloud m)
          c.rotation c.dx c.dy ∧
        c = (t.start initial cloud m).hypothesis c.rotation c.dx c.dy := by
  have wide : (t.start initial cloud m).windows =
      List.replicate (t.start initial cloud m).rotations (.centered (t.reach m)) := rfl
  rw [cells, ← SearchSpace.fitted_allows_iff wide]
  constructor
  · intro member
    obtain ⟨w, found, allowed, same⟩ := SearchSpace.mem_hypotheses.mp member
    exact ⟨⟨w, found, allowed⟩, same⟩
  · intro held
    obtain ⟨⟨w, found, allowed⟩, same⟩ := held
    exact SearchSpace.mem_hypotheses.mpr ⟨w, found, allowed, same⟩

theorem hypothesis_mem {rotation : Nat} {dx dy : Int}
    (admissible : (t.start initial cloud m).Admissible (t.reach m) m.limits (t.cells initial cloud m)
      rotation dx dy) :
    (t.start initial cloud m).hypothesis rotation dx dy ∈ t.hypotheses initial cloud m :=
  mem_hypotheses.mpr ⟨admissible, rfl⟩

theorem score_valued (member : c ∈ t.hypotheses initial cloud m) :
    (c.valued m (t.bank initial cloud m) t.settings.priorWeights).score =
      t.worth m (t.start initial cloud m) (t.cells initial cloud m) c.rotation c.dx c.dy := by
  have inside := hypotheses_inBank c member
  rw [size_bank] at inside
  have scan : (t.bank initial cloud m).scans[c.rotation]? = some (t.cells initial cloud m c.rotation) :=
    SearchSpace.getElem?_bank inside
  have same := (mem_hypotheses.mp member).2
  rw [worth, ← same, Candidate.valued, scan, Option.getD_some]

theorem getElem?_valued :
    (t.valued initial cloud m)[place]? = some d ↔
      ∃ c, (t.hypotheses initial cloud m)[place]? = some c ∧
        c.valued m (t.bank initial cloud m) t.settings.priorWeights = d := by
  rw [valued, List.getElem?_map, Option.map_eq_some_iff]

theorem earlier_of_lt {i j : Nat} (first : (t.hypotheses initial cloud m)[i]? = some c)
    (second : (t.hypotheses initial cloud m)[j]? = some d) (less : i < j) : c.Earlier d := by
  have rising := (t.space initial cloud m).hypotheses_rising
  obtain ⟨inside, rfl⟩ := List.getElem?_eq_some_iff.mp first
  obtain ⟨insideToo, rfl⟩ := List.getElem?_eq_some_iff.mp second
  exact List.pairwise_iff_getElem.mp rising i j inside insideToo less

-- What the best entry is compared to by its place, its hypothesis is compared to by the enumeration.
theorem best_spec (isBest : Ranked.Best (t.ranked initial cloud m) best)
    (atPlace : (t.hypotheses initial cloud m)[best.place]? = some c)
    (member : d ∈ t.hypotheses initial cloud m) :
    let worth :=
      t.worth m (t.start initial cloud m) (t.cells initial cloud m) d.rotation d.dx d.dy
    worth.rank < best.candidate.score.rank ∨
      (worth.rank = best.candidate.score.rank ∧ ¬ d.Earlier c) := by
  obtain ⟨i, found⟩ := List.mem_iff_getElem?.mp member
  intro worth
  have score : (d.valued m (t.bank initial cloud m) t.settings.priorWeights).score = worth :=
    score_valued member
  rw [← score]
  rcases isBest.ofList_spec (getElem?_valued.mpr ⟨d, found, rfl⟩) with less | ⟨equal, behind⟩
  · exact .inl less
  · refine .inr ⟨equal, ?_⟩
    intro earlier
    rcases Nat.lt_or_eq_of_le behind with less | same
    · exact (earlier_of_lt atPlace found less).asymm earlier
    · rw [same, found] at atPlace
      cases atPlace
      exact earlier.asymm earlier

theorem align_optimal (found : t.align initial cloud m = .ok a) :
    ∃ (s : SearchSpace) (reach : Nat),
      SearchSpace.covering t.settings.linearWindow t.settings.angularWindow
          (cloud.rotate initial.heading) m.limits.resolution = .ok s ∧
        s.windows = List.replicate (2 * s.turns + 1) (.centered reach) ∧
        t.Optimal initial m s reach
          (s.scan m.limits (cloud.rotate initial.heading) initial.translation) a := by
  obtain ⟨_, _, _, best, isBest, rfl⟩ := align_eq_ok_iff.mp found
  obtain ⟨c, atPlace, valued⟩ := getElem?_valued.mp (Ranked.mem_ofList.mp isBest.1)
  have member := List.mem_of_getElem? atPlace
  obtain ⟨admissible, same⟩ := mem_hypotheses.mp member
  have score := score_valued member
  rw [same] at valued
  refine ⟨t.start initial cloud m, t.reach m, SearchSpace.covering_eq m.limits.resolution_pos _ _ _,
    rfl, ?_⟩
  exact {
    admissible := by
      rw [Alignment.compose, ← valued]
      exact admissible
    score := by
      rw [Alignment.compose, ← valued, ← same]
      exact score
    greatest := by
      intro rotation dx dy other
      rcases best_spec isBest atPlace (hypothesis_mem other) with less | ⟨equal, _⟩
      · exact Int.le_of_lt less
      · exact Int.le_of_eq equal
    first := by
      intro rotation dx dy other equal earlier
      rcases best_spec isBest atPlace (hypothesis_mem other) with less | ⟨_, behind⟩
      · exact absurd (congrArg Single.rank equal) (Int.ne_of_lt less)
      · rw [Alignment.compose, ← valued, ← same] at earlier
        exact behind earlier
    offsets := by
      rw [Alignment.compose, ← valued]
      rfl
    pose := rfl }

theorem align_optimal_twoCells :
    ∃ a s reach, standard.align .identity TwoCells.cloud TwoCells.map = .ok a ∧
      standard.Optimal .identity TwoCells.map s reach
        (s.scan TwoCells.limits (TwoCells.cloud.rotate .zero) ⟨.zero, .zero⟩) a := by
  obtain ⟨a, found⟩ := TwoCells.aligned
  obtain ⟨s, reach, _, _, optimal⟩ := align_optimal found
  exact ⟨a, s, reach, found, optimal⟩

end Matcher

namespace Candidate

variable {c : Candidate} {w : PriorWeights}

theorem prior_bounds (number : (c.prior w).isNaN = false) :
    (c.prior w).IsPlus ∧ (c.prior w).magnitude ≤ Single.one.magnitude := by
  unfold prior at number ⊢
  dsimp only at number ⊢
  generalize -((c.x.hypotenuse c.y * w.translation) * (c.x.hypotenuse c.y * w.translation) +
    c.orientation.abs * w.rotation * (c.orientation.abs * w.rotation)) = exponent at *
  cases undefined : exponent.isNaN with
  | true =>
    rw [Single.exponential, if_pos undefined, undefined] at number
    cases number
  | false => exact Single.exponential_bounds undefined

theorem prior_isFinite (number : (c.prior w).isNaN = false) : (c.prior w).isFinite = true :=
  Single.isFinite_of_le Single.one_isFinite (prior_bounds number).2

end Candidate

@[simp] theorem Alignment.candidate_compose (initial : Pose) (c : Candidate) :
    (Alignment.compose initial c).candidate = c := rfl

@[simp] theorem Alignment.score_compose (initial : Pose) (c : Candidate) :
    (Alignment.compose initial c).score = c.score := rfl

namespace Matcher

variable {t : Matcher} {initial : Pose} {cloud : Cloud} {m : Map} {a : Alignment} {search : Search}
  {c d : Candidate} {best : Ranked}

-- How well a candidate of a search fits the map, before the prior.
def Search.raw (s : Search) (m : Map) (c : Candidate) : Single :=
  m.rawScore (s.bank.scans[c.rotation]?.getD []) c.dx c.dy

def layout (t : Matcher) (initial : Pose) (cloud : Cloud) (m : Map) : Search :=
  ⟨t.bank initial cloud m, t.hypotheses initial cloud m⟩

theorem prepare_layout (accepted : refusal? initial cloud m = none)
    (room : t.HasRoom initial cloud m) :
    t.prepare initial cloud m = .ok (t.layout initial cloud m) := prepare_eq accepted room

theorem valued_score (valued : d.valued m (t.bank initial cloud m) t.settings.priorWeights = c) :
    (t.layout initial cloud m).raw m c = (t.layout initial cloud m).raw m d ∧
      c.prior t.settings.priorWeights = d.prior t.settings.priorWeights ∧
      c.score = (t.layout initial cloud m).raw m c * c.prior t.settings.priorWeights := by
  subst valued
  exact ⟨rfl, rfl, rfl⟩

theorem raw_isPlus (passed : t.ChecksPass initial cloud m) (member : c ∈ t.hypotheses initial cloud m) :
    ((t.layout initial cloud m).raw m c).IsPlus := by
  have found := Array.getElem?_eq_getElem (hypotheses_inBank c member)
  obtain ⟨raw, checked⟩ := passed c member _ found
  have same := Map.checkedScore_eq_ok checked
  have plus := Map.checkedScore_isPlus checked
  rw [same] at plus
  rw [Search.raw, layout, found]
  exact plus

-- A hypothesis with the raw score of the best one and a greater prior scores the same and comes later.
theorem best_ties (passed : t.ChecksPass initial cloud m)
    (isBest : Ranked.Best (t.ranked initial cloud m) best)
    (atPlace : (t.hypotheses initial cloud m)[best.place]? = some d)
    (valued : d.valued m (t.bank initial cloud m) t.settings.priorWeights = best.candidate)
    (member : c ∈ t.hypotheses initial cloud m)
    (tied : ((t.layout initial cloud m).raw m c).SameNumber
      ((t.layout initial cloud m).raw m best.candidate))
    (closer : best.candidate.prior t.settings.priorWeights < c.prior t.settings.priorWeights) :
    (t.layout initial cloud m).raw m c * c.prior t.settings.priorWeights = best.candidate.score ∧
      d.Earlier c := by
  obtain ⟨raw, prior, score⟩ := valued_score valued
  have plus := raw_isPlus passed member
  have plus' := raw_isPlus passed (List.mem_of_getElem? atPlace)
  rw [← raw] at plus'
  have same := plus.eq_of_sameNumber plus' tied
  obtain ⟨number, number', _⟩ := Single.lt_iff.mp closer
  have priorPlus := (Candidate.prior_bounds number).1
  have priorPlus' := (Candidate.prior_bounds number').1
  have less := (priorPlus.lt_iff priorPlus').mp closer
  have noLower := plus.rank_mul_mono priorPlus priorPlus' (Candidate.prior_isFinite number')
    (Nat.le_of_lt less)
  rw [same, ← score, ← same] at noLower
  obtain ⟨i, found⟩ := List.mem_iff_getElem?.mp member
  rcases isBest.ofList_spec (getElem?_valued.mpr ⟨c, found, rfl⟩) with lower | ⟨equal, behind⟩
  · exact absurd noLower (Int.not_le.mpr lower)
  · refine ⟨Single.eq_of_rank equal, ?_⟩
    rcases Nat.lt_or_eq_of_le behind with later | here
    · exact earlier_of_lt atPlace found later
    · rw [here, found] at atPlace
      cases atPlace
      rw [prior] at less
      exact absurd less (Nat.lt_irrefl _)

theorem align_prior_decides (found : t.align initial cloud m = .ok a)
    (prepared : t.prepare initial cloud m = .ok search) :
    a.score = search.raw m a.candidate * a.candidate.prior t.settings.priorWeights ∧
      ∀ c ∈ search.candidates,
        (search.raw m c).SameNumber (search.raw m a.candidate) →
        a.candidate.prior t.settings.priorWeights < c.prior t.settings.priorWeights →
        search.raw m c * c.prior t.settings.priorWeights = a.score ∧ a.candidate.Earlier c := by
  obtain ⟨accepted, room, passed, best, isBest, rfl⟩ := align_eq_ok_iff.mp found
  rw [prepare_layout accepted room] at prepared
  cases prepared
  obtain ⟨d, atPlace, valued⟩ := getElem?_valued.mp (Ranked.mem_ofList.mp isBest.1)
  rw [Alignment.candidate_compose, Alignment.score_compose]
  refine ⟨(valued_score valued).2.2, ?_⟩
  intro c member tied closer
  obtain ⟨score, earlier⟩ := best_ties passed isBest atPlace valued member tied closer
  refine ⟨score, ?_⟩
  rw [← valued]
  exact earlier

-- No hypothesis fits the map as well as the best one and lies closer to the initial pose.
def PriorDecides (t : Matcher) (initial : Pose) (cloud : Cloud) (m : Map) : Prop :=
  ∀ a search, t.align initial cloud m = .ok a → t.prepare initial cloud m = .ok search →
    ∀ c ∈ search.candidates, (search.raw m c).SameNumber (search.raw m a.candidate) →
      ¬ a.candidate.prior t.settings.priorWeights < c.prior t.settings.priorWeights

end Matcher

namespace TwoCells

def unseen : Map := .distance {
  limits := limits
  truncation := .one
  cells := #[⟨.one, .zero⟩, ⟨.one, .zero⟩]
  truncation_valid := by decide +kernel
  size_eq := by decide
  valid := by decide +kernel }

open Matcher

def unmoved : Candidate :=
  (standard.space .identity .empty unseen).hypothesis
    (standard.space .identity .empty unseen).zeroRotation 0 0

-- Without points all scores are zero, and the first hypothesis turns and shifts the furthest.
theorem unseen_tied :
    ∃ a, standard.align .identity .empty unseen = .ok a ∧
      standard.prepare .identity .empty unseen = .ok (standard.layout .identity .empty unseen) ∧
      unmoved ∈ (standard.layout .identity .empty unseen).candidates ∧
      ((standard.layout .identity .empty unseen).raw unseen unmoved).SameNumber
        ((standard.layout .identity .empty unseen).raw unseen a.candidate) ∧
      a.candidate.prior standard.settings.priorWeights <
        unmoved.prior standard.settings.priorWeights := by
  have first : (standard.align .identity .empty unseen).map (·.candidate) =
      .ok ((standard.space .identity .empty unseen).hypothesis 0 (-1) 0) := by decide +kernel
  cases found : standard.align .identity .empty unseen with
  | error failure =>
    rw [found] at first
    cases first
  | ok a =>
    rw [found] at first
    obtain ⟨accepted, room, _⟩ := align_eq_ok_iff.mp found
    have same : a.candidate = (standard.space .identity .empty unseen).hypothesis 0 (-1) 0 :=
      Except.ok.inj first
    refine ⟨a, rfl, prepare_layout accepted room, zero_mem_hypotheses, ?_, ?_⟩
    · rw [same]
      decide +kernel
    · rw [same]
      decide +kernel

end TwoCells

namespace Matcher

theorem align_prior_decides_unseen :
    ∃ a search c, standard.align .identity .empty TwoCells.unseen = .ok a ∧
      standard.prepare .identity .empty TwoCells.unseen = .ok search ∧ c ∈ search.candidates ∧
      a.candidate.prior standard.settings.priorWeights < c.prior standard.settings.priorWeights ∧
      search.raw TwoCells.unseen c * c.prior standard.settings.priorWeights = a.score ∧
      a.candidate.Earlier c := by
  obtain ⟨a, found, prepared, member, tied, closer⟩ := TwoCells.unseen_tied
  obtain ⟨_, ties⟩ := align_prior_decides found prepared
  obtain ⟨score, earlier⟩ := ties TwoCells.unmoved member tied closer
  exact ⟨a, _, TwoCells.unmoved, found, prepared, member, closer, score, earlier⟩

theorem not_priorDecides_unseen : ¬ PriorDecides standard .identity .empty TwoCells.unseen := by
  intro decides
  obtain ⟨a, found, prepared, member, tied, closer⟩ := TwoCells.unseen_tied
  exact decides a _ found prepared TwoCells.unmoved member tied closer

end Matcher

end ScanAlign
