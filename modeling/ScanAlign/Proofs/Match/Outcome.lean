import ScanAlign.Proofs.Candidate.BestFirst
import ScanAlign.Proofs.Match.Scoring

namespace ScanAlign

namespace Matcher

variable (t : Matcher) (initial : Pose) (cloud : Cloud) (m : Map)

def start : SearchSpace :=
  .wide t.settings.linearWindow t.settings.angularWindow (cloud.rotate initial.heading)
    m.limits.resolution

def bank : ScanBank :=
  (t.start initial cloud m).bank m.limits (cloud.rotate initial.heading) initial.translation

def space : SearchSpace := (t.start initial cloud m).fitted (t.bank initial cloud m) m.limits

def hypotheses : List Candidate := (t.space initial cloud m).hypotheses

def HasRoom : Prop := (t.space initial cloud m).size * 32 ≤ mostBytes

theorem start_sound : (t.start initial cloud m).Sound := SearchSpace.wide_sound _ _ _ _

theorem size_bank : (t.bank initial cloud m).size = (t.start initial cloud m).rotations :=
  SearchSpace.size_bank

theorem space_sound : (t.space initial cloud m).Sound :=
  SearchSpace.fitted_sound (t.start_sound initial cloud m) (t.size_bank initial cloud m) m.limits

theorem search_eq :
    t.search initial cloud m =
      (reserve (t.space initial cloud m).size 32).map fun _ =>
        ⟨t.bank initial cloud m, (t.space initial cloud m).hypotheses⟩ := by
  have sound := t.start_sound initial cloud m
  have covering := SearchSpace.covering_eq m.limits.resolution_pos t.settings.linearWindow
    t.settings.angularWindow (cloud.rotate initial.heading)
  have built := SearchSpace.build_eq sound m.limits (cloud.rotate initial.heading) initial.translation
  have fitted := SearchSpace.fit_eq (t.size_bank initial cloud m) m.limits
  have listed := SearchSpace.candidates_eq (t.space_sound initial cloud m)
  change SearchSpace.covering _ _ _ _ = .ok (t.start initial cloud m) at covering
  change _ = Except.ok (t.bank initial cloud m) at built
  change _ = Except.ok (t.space initial cloud m) at fitted
  simp only [search, covering, built, fitted, listed, bind, Except.bind]
  cases reserve (t.space initial cloud m).size 32 <;> rfl

variable {t initial cloud m}

theorem search_ready (room : t.HasRoom initial cloud m) :
    t.search initial cloud m = .ok ⟨t.bank initial cloud m, t.hypotheses initial cloud m⟩ := by
  rw [search_eq, reserve_eq_ok_iff.mpr room]
  rfl

theorem search_full (full : ¬ t.HasRoom initial cloud m) :
    t.search initial cloud m = .error .capacity := by
  have refused : reserve (t.space initial cloud m).size 32 = .error .capacity := if_neg full
  rw [search_eq, refused]
  rfl

theorem hypotheses_inBank :
    ∀ c ∈ t.hypotheses initial cloud m, c.rotation < (t.bank initial cloud m).size := by
  intro c member
  have inside : c.rotation < (t.space initial cloud m).rotations :=
    SearchSpace.rotation_lt (t.space_sound initial cloud m) member
  rw [size_bank]
  exact inside

theorem zero_mem_hypotheses :
    (t.space initial cloud m).hypothesis (t.space initial cloud m).zeroRotation 0 0 ∈
      t.hypotheses initial cloud m :=
  SearchSpace.zero_mem_hypotheses (t.space_sound initial cloud m)

end Matcher

namespace Matcher

variable {t : Matcher} {initial : Pose} {cloud : Cloud} {m : Map} {bank : ScanBank}
  {candidates : List Candidate} {a : Alignment} {reason : Rejection}

theorem score_eq (t : Matcher) (m : Map) (inBank : ∀ c ∈ candidates, c.rotation < bank.size) :
    t.score m bank candidates = Scoring.inOrder m bank t.settings.priorWeights candidates := by
  unfold score
  dsimp only
  split
  · exact Scoring.bySchedule_eq_inOrder inBank (Scoring.twoWorkers_perm _)
  · rfl

theorem best?_eq (t : Matcher) (candidates : List Candidate) :
    t.best? candidates = Ranked.best? (Ranked.ofList candidates) := by
  unfold best?
  dsimp only
  split
  · cases built : Knockout.balanced (Ranked.ofList candidates) with
    | none =>
      rw [Knockout.balanced_eq_none_iff.mp built]
      rfl
    | some tree =>
      refine (Knockout.winner_eq_best? (Ranked.placed_ofList candidates) ?_).symm
      rw [Knockout.entries_balanced built]
  · rfl

variable (t initial cloud m)

def ChecksPass : Prop :=
  Scoring.ChecksPass m (t.bank initial cloud m) (t.hypotheses initial cloud m)

def valued : List Candidate :=
  (t.hypotheses initial cloud m).map
    (Candidate.valued · m (t.bank initial cloud m) t.settings.priorWeights)

def ranked : List Ranked := Ranked.ofList (t.valued initial cloud m)

variable {t initial cloud m}

theorem valued_ne_nil : t.valued initial cloud m ≠ [] := by
  have present : t.hypotheses initial cloud m ≠ [] := List.ne_nil_of_mem zero_mem_hypotheses
  simpa [valued] using present

theorem placed_ranked : Ranked.Placed (t.ranked initial cloud m) :=
  Ranked.placed_ofList (t.valued initial cloud m)

theorem score_passed (passed : t.ChecksPass initial cloud m) :
    t.score m (t.bank initial cloud m) (t.hypotheses initial cloud m) =
      .ok (t.valued initial cloud m) := by
  rw [score_eq t m hypotheses_inBank]
  rcases Scoring.inOrder_outcome hypotheses_inBank with ⟨_, scored, ran⟩ | ⟨failed, _⟩
  · have same := Scoring.inOrder_eq_map ran
    rw [valued, ← same]
    exact ran
  · exact absurd passed failed

theorem score_failed (failed : ¬ t.ChecksPass initial cloud m) :
    t.score m (t.bank initial cloud m) (t.hypotheses initial cloud m) = .error m.scoreFault := by
  rw [score_eq t m hypotheses_inBank]
  rcases Scoring.inOrder_outcome hypotheses_inBank with ⟨passed, _⟩ | ⟨_, ran⟩
  · exact absurd passed failed
  · exact ran

theorem score_eq_ok_iff {scored : List Candidate} :
    t.score m (t.bank initial cloud m) (t.hypotheses initial cloud m) = .ok scored ↔
      t.ChecksPass initial cloud m ∧ scored = t.valued initial cloud m := by
  by_cases passed : t.ChecksPass initial cloud m
  · simp [score_passed passed, passed, eq_comm]
  · simp [score_failed passed, passed]

theorem prepare_refused (refused : refusal? initial cloud m = some reason) :
    t.prepare initial cloud m = .error (.rejected reason) := by
  simp only [prepare, t.sound, refused]

theorem prepare_full (accepted : refusal? initial cloud m = none)
    (full : ¬ t.HasRoom initial cloud m) :
    t.prepare initial cloud m = .error (.fault .capacity) := by
  simp only [prepare, t.sound, accepted, search_full full]
  rfl

theorem prepare_eq (accepted : refusal? initial cloud m = none) (room : t.HasRoom initial cloud m) :
    t.prepare initial cloud m = .ok ⟨t.bank initial cloud m, t.hypotheses initial cloud m⟩ := by
  simp only [prepare, t.sound, accepted, search_ready room]
  rfl

theorem prepare_eq_ok_iff {search : Search} :
    t.prepare initial cloud m = .ok search ↔
      refusal? initial cloud m = none ∧ t.HasRoom initial cloud m ∧
        search = ⟨t.bank initial cloud m, t.hypotheses initial cloud m⟩ := by
  constructor
  · intro prepared
    cases refused : refusal? initial cloud m with
    | some reason =>
      rw [prepare_refused refused] at prepared
      cases prepared
    | none =>
      by_cases room : t.HasRoom initial cloud m
      · rw [prepare_eq refused room] at prepared
        exact ⟨rfl, room, (Except.ok.inj prepared).symm⟩
      · rw [prepare_full refused room] at prepared
        cases prepared
  · intro held
    obtain ⟨accepted, room, rfl⟩ := held
    exact prepare_eq accepted room

theorem align_unprepared {failure : Failure} (failed : t.prepare initial cloud m = .error failure) :
    t.align initial cloud m = .error failure := by
  simp only [align, failed, bind, Except.bind]

theorem align_faulted (accepted : refusal? initial cloud m = none) (room : t.HasRoom initial cloud m)
    (failed : ¬ t.ChecksPass initial cloud m) :
    t.align initial cloud m = .error (.fault m.scoreFault) := by
  simp only [align, prepare_eq accepted room, bind, Except.bind, score_failed failed]
  rfl

theorem align_passed (accepted : refusal? initial cloud m = none) (room : t.HasRoom initial cloud m)
    (passed : t.ChecksPass initial cloud m) :
    ∃ best, Ranked.Best (t.ranked initial cloud m) best ∧
      t.align initial cloud m = .ok (.compose initial best.candidate) := by
  obtain ⟨best, found⟩ := Ranked.best?_isSome (Ranked.ofList_ne_nil valued_ne_nil)
  refine ⟨best, (Ranked.best?_eq_some_iff placed_ranked).mp found, ?_⟩
  simp only [align, prepare_eq accepted room, bind, Except.bind, score_passed passed, faulty,
    Except.mapError, best?_eq, found]
  rfl

theorem align_eq_ok_iff :
    t.align initial cloud m = .ok a ↔
      refusal? initial cloud m = none ∧ t.HasRoom initial cloud m ∧ t.ChecksPass initial cloud m ∧
        ∃ best, Ranked.Best (t.ranked initial cloud m) best ∧
          a = .compose initial best.candidate := by
  constructor
  · intro found
    cases refused : refusal? initial cloud m with
    | some reason =>
      rw [align_unprepared (prepare_refused refused)] at found
      cases found
    | none =>
      by_cases room : t.HasRoom initial cloud m
      · by_cases passed : t.ChecksPass initial cloud m
        · obtain ⟨best, isBest, same⟩ := align_passed refused room passed
          rw [same] at found
          exact ⟨rfl, room, passed, best, isBest, (Except.ok.inj found).symm⟩
        · rw [align_faulted refused room passed] at found
          cases found
      · rw [align_unprepared (prepare_full refused room)] at found
        cases found
  · intro held
    obtain ⟨accepted, room, passed, best, isBest, rfl⟩ := held
    obtain ⟨other, otherBest, same⟩ := align_passed accepted room passed
    rw [same, isBest.unique otherBest]

variable {k : Nat}

theorem alignBest_unprepared {failure : Failure}
    (failed : t.prepare initial cloud m = .error failure) (k : Nat) :
    t.alignBest initial cloud m k = .error failure := by
  simp only [alignBest, failed, bind, Except.bind]

theorem alignBest_zero (accepted : refusal? initial cloud m = none)
    (room : t.HasRoom initial cloud m) : t.alignBest initial cloud m 0 = .ok [] := by
  simp only [alignBest, prepare_eq accepted room, bind, Except.bind, if_true]
  rfl

theorem alignBest_faulted (accepted : refusal? initial cloud m = none)
    (room : t.HasRoom initial cloud m) (failed : ¬ t.ChecksPass initial cloud m) (asked : k ≠ 0) :
    t.alignBest initial cloud m k = .error (.fault m.scoreFault) := by
  simp only [alignBest, prepare_eq accepted room, bind, Except.bind, score_failed failed,
    if_neg asked]
  rfl

theorem length_sorted :
    (Ranked.bestFirst (t.ranked initial cloud m)).length = (t.valued initial cloud m).length := by
  rw [Ranked.length_bestFirst, ranked, Ranked.ofList, List.length_map, List.length_zipIdx]

theorem alignBest_passed (accepted : refusal? initial cloud m = none)
    (room : t.HasRoom initial cloud m) (passed : t.ChecksPass initial cloud m) (k : Nat) :
    t.alignBest initial cloud m k =
      .ok (((Ranked.bestFirst (t.ranked initial cloud m)).take k).map
        (Alignment.compose initial ·.candidate)) := by
  by_cases zero : k = 0
  · rw [zero, alignBest_zero accepted room]
    rfl
  · have length : (Ranked.bestFirst (t.ranked initial cloud m)).length =
        (t.valued initial cloud m).length := length_sorted
    have placed : Ranked.Placed (t.ranked initial cloud m) := placed_ranked
    have shown := Shortlist.sorted_pushAll (min k (t.valued initial cloud m).length) placed.nodup_keys
    simp only [alignBest, prepare_eq accepted room, bind, Except.bind, score_passed passed, faulty,
      Except.mapError, if_neg zero]
    rw [← ranked, shown, ← length, ← List.take_eq_take_min, List.map_map]
    rfl

end Matcher

namespace TwoCells

def limits : Limits where
  origin := ⟨.zero, .zero⟩
  resolution := .one
  columns := 2
  rows := 1
  resolution_finite := by decide +kernel
  resolution_pos := by decide +kernel
  origin_finite := by decide +kernel
  columns_pos := by decide
  columns_lt := by decide
  rows_pos := by decide
  rows_lt := by decide

def map : Map := .probability {
  limits := limits
  cells := #[ProbabilityMap.lowest, ProbabilityMap.highest]
  size_eq := by decide
  valid := by decide +kernel }

-- The same with nothing known about either cell.
def faint : Map := .probability {
  limits := limits
  cells := #[ProbabilityMap.lowest, ProbabilityMap.lowest]
  size_eq := by decide
  valid := by decide +kernel }

def cloud : Cloud := ⟨[⟨ProbabilityMap.highest, ProbabilityMap.highest⟩]⟩

theorem aligned : ∃ a, Matcher.standard.align .identity cloud map = .ok a := by
  have passed : (Matcher.standard.align .identity cloud map).isOk = true := by decide +kernel
  cases found : Matcher.standard.align .identity cloud map with
  | error failure =>
    rw [found] at passed
    cases passed
  | ok a => exact ⟨a, rfl⟩

end TwoCells

namespace Candidate

def triple (c : Candidate) : Nat × Int × Int := (c.rotation, c.dx, c.dy)

theorem Earlier.triple_ne {a b : Candidate} (earlier : a.Earlier b) : a.triple ≠ b.triple := by
  unfold triple Earlier at *
  simp only [ne_eq, Prod.mk.injEq]
  omega

end Candidate

namespace Matcher

variable {t : Matcher} {initial : Pose} {cloud : Cloud} {m : Map} {a : Alignment}

theorem triples_nodup : ((t.valued initial cloud m).map Candidate.triple).Nodup := by
  have rising := (t.space initial cloud m).hypotheses_rising
  have apart : ((t.hypotheses initial cloud m).map Candidate.triple).Nodup :=
    List.pairwise_map.mpr (rising.imp Candidate.Earlier.triple_ne)
  rw [valued, List.map_map]
  exact apart

theorem sorted_triples_nodup :
    ((Ranked.bestFirst (t.ranked initial cloud m)).map (·.candidate.triple)).Nodup := by
  have moved := (Ranked.bestFirst_perm (t.ranked initial cloud m)).map (·.candidate.triple)
  have listed : (t.ranked initial cloud m).map (·.candidate.triple) =
      (t.valued initial cloud m).map Candidate.triple := by
    rw [ranked, ← Ranked.map_candidate_ofList (t.valued initial cloud m), List.map_map,
      Ranked.map_candidate_ofList]
    rfl
  rw [moved.nodup_iff, listed]
  exact triples_nodup

def leaders (initial : Pose) (sorted : List Ranked) (k : Nat) : List Alignment :=
  (sorted.take k).map (Alignment.compose initial ·.candidate)

variable {sorted : List Ranked} {j k : Nat}

theorem leaders_prefix (initial : Pose) (sorted : List Ranked) (le : j ≤ k) :
    leaders initial sorted j <+: leaders initial sorted k :=
  (List.take_prefix_take_left le).map _

theorem leaders_length : (leaders initial sorted k).length = min k sorted.length := by
  rw [leaders, List.length_map, List.length_take]

theorem leaders_all (full : sorted.length ≤ k) :
    (leaders initial sorted k).map (·.candidate) = sorted.map (·.candidate) := by
  rw [leaders, List.take_of_length_le full, List.map_map]
  rfl

theorem leaders_head? (asked : 1 ≤ k) :
    (leaders initial sorted k).head? =
      sorted.head?.map (Alignment.compose initial ·.candidate) := by
  rw [leaders, List.head?_map, List.head?_take, if_neg (by omega)]

theorem leaders_nodup (apart : (sorted.map (·.candidate.triple)).Nodup) (k : Nat) :
    ((leaders initial sorted k).map (·.candidate.triple)).Nodup := by
  rw [leaders, List.map_map]
  exact apart.sublist ((List.take_sublist k sorted).map _)

theorem alignBest_leaders (found : t.align initial cloud m = .ok a) :
    ∃ (search : Search) (scored : List Candidate) (sorted : List Ranked),
      t.prepare initial cloud m = .ok search ∧
        t.score m search.bank search.candidates = .ok scored ∧
        scored.length = search.candidates.length ∧
        sorted.Perm (Ranked.ofList scored) ∧ sorted.Pairwise Ranked.Before ∧
        t.alignBest initial cloud m 0 = .ok [] ∧
        ∀ k, t.alignBest initial cloud m k = .ok (leaders initial sorted k) ∧
          (leaders initial sorted k).length = min k scored.length ∧
          ((leaders initial sorted k).map (·.candidate.triple)).Nodup ∧
          (∀ j ≤ k, leaders initial sorted j <+: leaders initial sorted k) ∧
          (scored.length ≤ k → ((leaders initial sorted k).map (·.candidate)).Perm scored) ∧
          (1 ≤ k → (leaders initial sorted k).head? = some a) := by
  obtain ⟨accepted, room, passed, best, isBest, rfl⟩ := align_eq_ok_iff.mp found
  have moved := Ranked.bestFirst_perm (t.ranked initial cloud m)
  have length : (Ranked.bestFirst (t.ranked initial cloud m)).length =
      (t.valued initial cloud m).length := length_sorted
  refine ⟨_, t.valued initial cloud m, Ranked.bestFirst (t.ranked initial cloud m),
    prepare_eq accepted room, score_passed passed, ?_, moved, Ranked.bestFirst_strict placed_ranked,
    alignBest_zero accepted room, ?_⟩
  · rw [valued, List.length_map]
  · intro k
    refine ⟨alignBest_passed accepted room passed k, ?_, ?_, ?_, ?_, ?_⟩
    · rw [leaders_length, length]
    · exact leaders_nodup sorted_triples_nodup k
    · intro j le
      exact leaders_prefix initial _ le
    · intro full
      rw [leaders_all (length ▸ full)]
      have candidates := moved.map (·.candidate)
      rwa [ranked, Ranked.map_candidate_ofList] at candidates
    · intro asked
      have first : (Ranked.bestFirst (t.ranked initial cloud m)).head? = some best := by
        rw [Ranked.bestFirst_head? placed_ranked]
        exact (Ranked.best?_eq_some_iff placed_ranked).mpr isBest
      rw [leaders_head? asked, first]
      rfl

theorem alignBest_leaders_twoCells :
    ∃ a, standard.align .identity TwoCells.cloud TwoCells.map = .ok a ∧
      ∃ sorted, ∀ k, standard.alignBest .identity TwoCells.cloud TwoCells.map k =
          .ok (leaders .identity sorted k) ∧
        (1 ≤ k → (leaders .identity sorted k).head? = some a) := by
  obtain ⟨a, found⟩ := TwoCells.aligned
  obtain ⟨_, _, sorted, _, _, _, _, _, _, answers⟩ := alignBest_leaders found
  refine ⟨a, found, sorted, ?_⟩
  intro k
  obtain ⟨shown, _, _, _, _, first⟩ := answers k
  exact ⟨shown, first⟩

end Matcher

end ScanAlign
