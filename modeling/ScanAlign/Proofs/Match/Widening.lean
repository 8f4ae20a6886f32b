import Mathlib.Data.List.Perm.Subperm
import ScanAlign.Proofs.Match.Optimum

namespace ScanAlign

def Candidate.later (c : Candidate) (more : Nat) : Candidate := { c with rotation := c.rotation + more }

namespace SearchSpace

variable {s wide : SearchSpace} {m : Map} {l : Limits} {cloud : Cloud} {translation : Point}
  {weights : PriorWeights} {step resolution : Single} {shifts shifts' turns turns' : Int}
  {more reach reach' place : Nat} {dx dy : Int} {c : Candidate} {fault : Fault}
  {small large : List Candidate}

-- Projects the scan, clips the space to the map, and lists and scores its hypotheses.
def survey (s : SearchSpace) (m : Map) (cloud : Cloud) (translation : Point) (weights : PriorWeights) :
    Except Fault (List Candidate) := do
  let bank ← ScanBank.build cloud s m.limits translation
  let clipped ← s.fit bank m.limits
  let candidates ← clipped.candidates
  Scoring.inOrder m bank weights candidates

def onMap (s : SearchSpace) (l : Limits) (cloud : Cloud) (translation : Point) : SearchSpace :=
  s.fitted (s.bank l cloud translation) l

theorem onMap_sound (sound : s.Sound) (l : Limits) (cloud : Cloud) (translation : Point) :
    (s.onMap l cloud translation).Sound :=
  fitted_sound sound size_bank l

theorem onMap_rotation_lt (sound : s.Sound) (member : c ∈ (s.onMap l cloud translation).hypotheses) :
    c.rotation < s.rotations := by
  have inside : c.rotation < (s.onMap l cloud translation).rotations :=
    rotation_lt (onMap_sound sound l cloud translation) member
  exact inside

theorem onMap_inBank (sound : s.Sound) :
    ∀ c ∈ (s.onMap l cloud translation).hypotheses, c.rotation < (s.bank l cloud translation).size := by
  intro c member
  rw [size_bank]
  exact onMap_rotation_lt sound member

-- There is room for the hypotheses, and all checks of their scores pass.
structure Passes (s : SearchSpace) (m : Map) (cloud : Cloud) (translation : Point) : Prop where
  room : (s.onMap m.limits cloud translation).size * 32 ≤ mostBytes
  checks : Scoring.ChecksPass m (s.bank m.limits cloud translation)
    (s.onMap m.limits cloud translation).hypotheses

def surveyed (s : SearchSpace) (m : Map) (cloud : Cloud) (translation : Point)
    (weights : PriorWeights) : List Candidate :=
  (s.onMap m.limits cloud translation).hypotheses.map
    (Candidate.valued · m (s.bank m.limits cloud translation) weights)

theorem survey_eq (sound : s.Sound) (m : Map) (cloud : Cloud) (translation : Point)
    (weights : PriorWeights) :
    s.survey m cloud translation weights =
      (reserve (s.onMap m.limits cloud translation).size 32).bind fun _ =>
        Scoring.inOrder m (s.bank m.limits cloud translation) weights
          (s.onMap m.limits cloud translation).hypotheses := by
  have built := build_eq sound m.limits cloud translation
  have sized : (s.bank m.limits cloud translation).size = s.rotations := size_bank
  have fitted := fit_eq sized m.limits
  have listed := candidates_eq (onMap_sound sound m.limits cloud translation)
  rw [onMap] at listed ⊢
  simp only [survey, built, fitted, listed, bind, Except.bind]
  cases reserve (s.fitted (s.bank m.limits cloud translation) m.limits).size 32 <;> rfl

theorem survey_outcome (sound : s.Sound) (m : Map) (cloud : Cloud) (translation : Point)
    (weights : PriorWeights) :
    (s.Passes m cloud translation ∧
      s.survey m cloud translation weights = .ok (s.surveyed m cloud translation weights)) ∨
    (¬ s.Passes m cloud translation ∧ ∃ fault, (fault = .capacity ∨ fault = m.scoreFault) ∧
      s.survey m cloud translation weights = .error fault) := by
  rw [survey_eq sound]
  by_cases room : (s.onMap m.limits cloud translation).size * 32 ≤ mostBytes
  · rw [reserve_eq_ok_iff.mpr room]
    rcases Scoring.inOrder_outcome (m := m) (w := weights) (onMap_inBank sound) with
      ⟨passed, scored, ran⟩ | ⟨failed, ran⟩
    · refine .inl ⟨⟨room, passed⟩, ?_⟩
      rw [surveyed, ← Scoring.inOrder_eq_map ran]
      exact ran
    · refine .inr ⟨?_, m.scoreFault, .inr rfl, ran⟩
      intro passes
      exact failed passes.checks
  · have full : reserve (s.onMap m.limits cloud translation).size 32 = .error .capacity :=
      if_neg room
    rw [full]
    refine .inr ⟨?_, .capacity, .inl rfl, rfl⟩
    intro passes
    exact room passes.room

theorem survey_eq_ok_iff (sound : s.Sound) :
    s.survey m cloud translation weights = .ok small ↔
      s.Passes m cloud translation ∧ s.surveyed m cloud translation weights = small := by
  rcases survey_outcome sound m cloud translation weights with
    ⟨passes, ran⟩ | ⟨stops, fault, _, ran⟩
  · simp [ran, passes]
  · simp [ran, stops]

theorem survey_error (sound : s.Sound) (failed : s.survey m cloud translation weights = .error fault) :
    fault = .capacity ∨ fault = m.scoreFault := by
  rcases survey_outcome sound m cloud translation weights with
    ⟨_, ran⟩ | ⟨_, raised, known, ran⟩
  · rw [ran] at failed
    cases failed
  · rw [ran] at failed
    cases failed
    exact known

structure Wider (s wide : SearchSpace) (more reach reach' : Nat) : Prop where
  turns : wide.turns = s.turns + more
  step : wide.step = s.step
  resolution : wide.resolution = s.resolution
  narrowWindows : s.windows = List.replicate s.rotations (.centered reach)
  wideWindows : wide.windows = List.replicate wide.rotations (.centered reach')
  reach_le : reach ≤ reach'

theorem ofCounts_wider (across : shifts ≤ shifts') (around : turns ≤ turns') (step resolution : Single) :
    ∃ reach reach', Wider (ofCounts shifts turns step resolution) (ofCounts shifts' turns' step resolution)
      ((ofCounts shifts' turns' step resolution).turns - (ofCounts shifts turns step resolution).turns)
      reach reach' := by
  have centered (n : Int) (nonneg : 0 ≤ n) : Window.centered n = .centered n.toNat := by
    rw [Int.toNat_of_nonneg nonneg]
  have narrow : (ofCounts shifts turns step resolution).turns ≤
      (ofCounts shifts' turns' step resolution).turns := by
    simp only [ofCounts]
    omega
  refine ⟨(max 0 (min shifts mostShifts)).toNat, (max 0 (min shifts' mostShifts)).toNat, ?_⟩
  exact {
    turns := by omega
    step := rfl
    resolution := rfl
    narrowWindows := by
      rw [← centered _ (Int.le_max_left _ _)]
      rfl
    wideWindows := by
      rw [← centered _ (Int.le_max_left _ _)]
      rfl
    reach_le := by omega }

namespace Wider

variable (w : Wider s wide more reach reach')

include w

theorem angle (place : Nat) : wide.angle (place + more) = s.angle place := by
  have same : ((place + more : Nat) : Int) - wide.turns = (place : Int) - s.turns := by
    rw [w.turns]
    omega
  rw [SearchSpace.angle, SearchSpace.angle, same, w.step]

theorem scan (place : Nat) :
    wide.scan l cloud translation (place + more) = s.scan l cloud translation place := by
  rw [SearchSpace.scan, SearchSpace.scan, w.angle]

theorem hypothesis (place : Nat) (dx dy : Int) :
    wide.hypothesis (place + more) dx dy = (s.hypothesis place dx dy).later more := by
  rw [SearchSpace.hypothesis, SearchSpace.hypothesis, Candidate.later, w.angle, w.resolution]

theorem admissible
    (held : s.Admissible reach l (s.scan l cloud translation) place dx dy) :
    wide.Admissible reach' l (wide.scan l cloud translation) (place + more) dx dy := by
  have turns := w.turns
  have wider := w.reach_le
  obtain ⟨turned, across, along, stays⟩ := held
  rw [← w.scan] at stays
  exact ⟨by omega, by omega, by omega, stays⟩

theorem mem_later (member : c ∈ (s.onMap l cloud translation).hypotheses) :
    c.later more ∈ (wide.onMap l cloud translation).hypotheses := by
  obtain ⟨window, found, allowed, same⟩ := mem_hypotheses.mp member
  have admissible := (fitted_allows_iff w.narrowWindows).mp ⟨window, found, allowed⟩
  obtain ⟨window', found', allowed'⟩ :=
    (fitted_allows_iff w.wideWindows).mpr (w.admissible admissible)
  refine mem_hypotheses.mpr ⟨window', found', allowed', ?_⟩
  have moved := w.hypothesis c.rotation c.dx c.dy
  change _ = wide.hypothesis (c.rotation + more) c.dx c.dy
  rw [moved]
  exact congrArg (Candidate.later · more) same

-- The places differ, so what is listed once stays listed once, and the wide list is no shorter.
theorem size_le (l : Limits) (cloud : Cloud) (translation : Point) :
    (s.onMap l cloud translation).size ≤ (wide.onMap l cloud translation).size := by
  have rising := (s.onMap l cloud translation).hypotheses_rising
  have once : ((s.onMap l cloud translation).hypotheses.map (Candidate.later · more)).Nodup := by
    refine List.pairwise_map.mpr (rising.imp ?_)
    intro a b earlier same
    have rotation := congrArg Candidate.rotation same
    have dx := congrArg Candidate.dx same
    have dy := congrArg Candidate.dy same
    simp only [Candidate.later] at rotation dx dy
    unfold Candidate.Earlier at earlier
    omega
  have within : (s.onMap l cloud translation).hypotheses.map (Candidate.later · more) ⊆
      (wide.onMap l cloud translation).hypotheses := by
    intro d member
    obtain ⟨c, inside, rfl⟩ := List.mem_map.mp member
    exact w.mem_later inside
  have length := (List.subperm_of_subset once within).length_le
  rw [List.length_map] at length
  rw [size_eq, size_eq]
  omega

theorem bankScan (inside : place < s.rotations) :
    (wide.bank l cloud translation).scans[place + more]? =
      (s.bank l cloud translation).scans[place]? := by
  have turns := w.turns
  have insideWide : place + more < wide.rotations := by
    unfold rotations at *
    omega
  rw [getElem?_bank inside, getElem?_bank insideWide, w.scan]

theorem valued_later (inside : c.rotation < s.rotations) :
    (c.later more).valued m (wide.bank l cloud translation) weights =
      (c.valued m (s.bank l cloud translation) weights).later more := by
  have found : (wide.bank l cloud translation).scans[(c.later more).rotation]? =
      (s.bank l cloud translation).scans[c.rotation]? := w.bankScan inside
  rw [Candidate.valued, found]
  rfl

theorem passes (sound : s.Sound) (passed : wide.Passes m cloud translation) :
    s.Passes m cloud translation := by
  have narrower := w.size_le m.limits cloud translation
  have room := passed.room
  constructor
  · omega
  · intro c member scan found
    rw [← w.bankScan (onMap_rotation_lt sound member)] at found
    exact passed.checks (c.later more) (w.mem_later member) scan found

theorem surveyed_later (sound : s.Sound) (scored : c ∈ s.surveyed m cloud translation weights) :
    c.later more ∈ wide.surveyed m cloud translation weights := by
  obtain ⟨d, member, rfl⟩ := List.mem_map.mp scored
  rw [← w.valued_later (onMap_rotation_lt sound member)]
  exact List.mem_map_of_mem (w.mem_later member)

end Wider

theorem surveyed_ne_nil (sound : s.Sound) : s.surveyed m cloud translation weights ≠ [] := by
  have zero := zero_mem_hypotheses (onMap_sound sound m.limits cloud translation)
  exact List.ne_nil_of_mem (List.mem_map_of_mem zero)

theorem survey_widens (across : shifts ≤ shifts') (around : turns ≤ turns')
    (narrow : s = ofCounts shifts turns step resolution)
    (wider : wide = ofCounts shifts' turns' step resolution)
    (m : Map) (cloud : Cloud) (translation : Point) (weights : PriorWeights) :
    (∀ fault, wide.survey m cloud translation weights = .error fault →
      fault = .capacity ∨ fault = m.scoreFault) ∧
    ∀ large, wide.survey m cloud translation weights = .ok large →
      ∃ small, s.survey m cloud translation weights = .ok small ∧
        (∀ c ∈ small, { c with rotation := c.rotation + (wide.turns - s.turns) } ∈ large) ∧
        ∃ best best', Ranked.best? (Ranked.ofList small) = some best ∧
          Ranked.best? (Ranked.ofList large) = some best' ∧
          best.candidate.score.rank ≤ best'.candidate.score.rank := by
  have sound : s.Sound := narrow ▸ ofCounts_sound shifts turns step resolution
  have wideSound : wide.Sound := wider ▸ ofCounts_sound shifts' turns' step resolution
  obtain ⟨reach, reach', w⟩ := ofCounts_wider across around step resolution
  rw [← narrow, ← wider] at w
  refine ⟨fun fault => survey_error wideSound, ?_⟩
  intro large ran
  obtain ⟨passes, rfl⟩ := (survey_eq_ok_iff wideSound).mp ran
  refine ⟨s.surveyed m cloud translation weights,
    (survey_eq_ok_iff sound).mpr ⟨w.passes sound passes, rfl⟩, ?_, ?_⟩
  · intro c scored
    exact w.surveyed_later sound scored
  · apply Ranked.best?_mono (surveyed_ne_nil sound)
    intro c scored
    exact ⟨_, w.surveyed_later sound scored, rfl⟩

theorem survey_widens_twoCells :
    ∃ small large,
      (ofCounts 0 (-1) .one .one).survey TwoCells.map TwoCells.cloud ⟨.zero, .zero⟩ ⟨.one, .one⟩ =
        .ok small ∧
      (ofCounts 1 1 .one .one).survey TwoCells.map TwoCells.cloud ⟨.zero, .zero⟩ ⟨.one, .one⟩ =
        .ok large ∧
      ∀ c ∈ small, { c with rotation := c.rotation + 1 } ∈ large := by
  have passed : ((ofCounts 1 1 .one .one).survey TwoCells.map TwoCells.cloud ⟨.zero, .zero⟩
      ⟨.one, .one⟩).isOk = true := by decide +kernel
  cases ran : (ofCounts 1 1 .one .one).survey TwoCells.map TwoCells.cloud ⟨.zero, .zero⟩
      ⟨.one, .one⟩ with
  | error fault =>
    rw [ran] at passed
    cases passed
  | ok large =>
    obtain ⟨_, widens⟩ := survey_widens (show (0 : Int) ≤ 1 by decide) (show (-1 : Int) ≤ 1 by decide)
      rfl rfl TwoCells.map TwoCells.cloud ⟨.zero, .zero⟩ ⟨.one, .one⟩
    obtain ⟨small, ranToo, occurs, _⟩ := widens large ran
    exact ⟨small, large, ranToo, rfl, occurs⟩

end SearchSpace

end ScanAlign
