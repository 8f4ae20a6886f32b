import ScanAlign.Proofs.Match.Outcome

namespace ScanAlign

namespace Matcher

-- One run with several workers. They score the slots one at a time in some order, each slot once, and
-- compare the scored candidates two at a time in some tree.
inductive SideBySide (t : Matcher) (initial : Pose) (cloud : Cloud) (m : Map) :
    Except Failure Alignment → Prop
  | unprepared {failure : Failure} (failed : t.prepare initial cloud m = .error failure) :
      SideBySide t initial cloud m (.error failure)
  | faulted {search : Search} {schedule : List Nat} {f : Fault}
      (prepared : t.prepare initial cloud m = .ok search)
      (once : schedule.Perm (List.range search.candidates.length))
      (failed : Scoring.bySchedule m search.bank t.settings.priorWeights schedule search.candidates =
        .error f) :
      SideBySide t initial cloud m (.error (.fault f))
  | empty {search : Search} {schedule : List Nat} (prepared : t.prepare initial cloud m = .ok search)
      (once : schedule.Perm (List.range search.candidates.length))
      (ran : Scoring.bySchedule m search.bank t.settings.priorWeights schedule search.candidates =
        .ok []) :
      SideBySide t initial cloud m (.error (.rejected (.setting .emptySearch)))
  | found {search : Search} {schedule : List Nat} {scored : List Candidate} {tree : Knockout}
      (prepared : t.prepare initial cloud m = .ok search)
      (once : schedule.Perm (List.range search.candidates.length))
      (ran : Scoring.bySchedule m search.bank t.settings.priorWeights schedule search.candidates =
        .ok scored)
      (moved : tree.entries.Perm (Ranked.ofList scored)) :
      SideBySide t initial cloud m (.ok (.compose initial tree.winner.candidate))

variable {t : Matcher} {initial : Pose} {cloud : Cloud} {m : Map} {search : Search}
  {outcome : Except Failure Alignment}

theorem prepared_inBank (prepared : t.prepare initial cloud m = .ok search) :
    ∀ c ∈ search.candidates, c.rotation < search.bank.size := by
  obtain ⟨_, _, rfl⟩ := prepare_eq_ok_iff.mp prepared
  exact hypotheses_inBank

theorem align_prepared (prepared : t.prepare initial cloud m = .ok search) :
    t.align initial cloud m =
      match Scoring.inOrder m search.bank t.settings.priorWeights search.candidates with
      | .error f => .error (.fault f)
      | .ok scored =>
        match Ranked.best? (Ranked.ofList scored) with
        | none => .error (.rejected (.setting .emptySearch))
        | some best => .ok (.compose initial best.candidate) := by
  simp only [align, prepared, bind, Except.bind, score_eq t m (prepared_inBank prepared), best?_eq]
  cases Scoring.inOrder m search.bank t.settings.priorWeights search.candidates with
  | error f => rfl
  | ok scored => cases Ranked.best? (Ranked.ofList scored) <;> rfl

theorem SideBySide.eq_align (run : SideBySide t initial cloud m outcome) :
    outcome = t.align initial cloud m := by
  cases run with
  | unprepared failed => exact (align_unprepared failed).symm
  | faulted prepared once failed =>
    rw [Scoring.bySchedule_eq_inOrder (prepared_inBank prepared) once] at failed
    rw [align_prepared prepared, failed]
  | empty prepared once ran =>
    rw [Scoring.bySchedule_eq_inOrder (prepared_inBank prepared) once] at ran
    rw [align_prepared prepared, ran]
    rfl
  | found prepared once ran moved =>
    rw [Scoring.bySchedule_eq_inOrder (prepared_inBank prepared) once] at ran
    have chosen := Knockout.winner_eq_best? (Ranked.placed_ofList _) moved
    simp only [align_prepared prepared, ran, chosen]

-- There is always a way for the workers to finish.
theorem sideBySide_align : SideBySide t initial cloud m (t.align initial cloud m) := by
  cases prepared : t.prepare initial cloud m with
  | error failure =>
    rw [align_unprepared prepared]
    exact .unprepared prepared
  | ok search =>
    have once : (List.range search.candidates.length).Perm (List.range search.candidates.length) := .rfl
    have whole := align_prepared prepared
    cases ran : Scoring.inOrder m search.bank t.settings.priorWeights search.candidates with
    | error f =>
      rw [ran] at whole
      rw [whole]
      exact .faulted prepared once (Scoring.bySchedule_range _ ▸ ran)
    | ok scored =>
      have scheduled := (Scoring.bySchedule_range search.candidates).trans ran
      rw [ran] at whole
      cases built : Knockout.balanced (Ranked.ofList scored) with
      | none =>
        obtain rfl : scored = [] := by
          simpa [Ranked.ofList] using Knockout.balanced_eq_none_iff.mp built
        rw [whole]
        exact .empty prepared once scheduled
      | some tree =>
        have moved : tree.entries.Perm (Ranked.ofList scored) := by
          rw [Knockout.entries_balanced built]
        have chosen := Knockout.winner_eq_best? (Ranked.placed_ofList scored) moved
        simp only [chosen] at whole
        rw [whole]
        exact .found prepared once scheduled moved

def withWorkers (t : Matcher) (several : Bool) : Matcher :=
  ⟨{ t.settings with parallel := several }, t.sound⟩

theorem prepare_withWorkers (several : Bool) :
    (t.withWorkers several).prepare initial cloud m = t.prepare initial cloud m := rfl

theorem align_withWorkers (several : Bool) :
    (t.withWorkers several).align initial cloud m = t.align initial cloud m := by
  cases prepared : t.prepare initial cloud m with
  | error failure =>
    have same := align_unprepared prepared
    have failed := (prepare_withWorkers several).trans prepared
    rw [same, align_unprepared failed]
  | ok search =>
    have laidOut := (prepare_withWorkers several).trans prepared
    rw [align_prepared prepared, align_prepared laidOut]
    rfl

end Matcher

theorem schedules_agree (m : Map) (bank : ScanBank) (w : PriorWeights) (candidates : List Candidate)
    (inBank : ∀ c ∈ candidates, c.rotation < bank.size) :
    (∀ schedule, schedule.Perm (List.range candidates.length) →
        Scoring.bySchedule m bank w schedule candidates = Scoring.inOrder m bank w candidates) ∧
      (∀ scored, Scoring.inOrder m bank w candidates = .ok scored →
        scored = candidates.map fun c =>
          { c with score := m.rawScore (bank.scans[c.rotation]?.getD []) c.dx c.dy * c.prior w }) ∧
      (∀ tree : Knockout, tree.entries.Perm (Ranked.ofList candidates) →
        Ranked.best? (Ranked.ofList candidates) = some tree.winner) ∧
      (∀ (t : Matcher) (initial : Pose) (cloud : Cloud) (outcome : Except Failure Alignment),
        Matcher.SideBySide t initial cloud m outcome ↔ outcome = t.align initial cloud m) ∧
      ∀ (t : Matcher) (initial : Pose) (cloud : Cloud),
        (t.withWorkers true).align initial cloud m = (t.withWorkers false).align initial cloud m := by
  refine ⟨?_, ?_, ?_, ?_, ?_⟩
  · intro schedule once
    exact Scoring.bySchedule_eq_inOrder inBank once
  · intro scored ran
    exact Scoring.inOrder_eq_map ran
  · intro tree moved
    exact Knockout.winner_eq_best? (Ranked.placed_ofList candidates) moved
  · intro t initial cloud outcome
    constructor
    · intro run
      exact run.eq_align
    · intro same
      subst same
      exact Matcher.sideBySide_align
  · intro t initial cloud
    rw [Matcher.align_withWorkers, Matcher.align_withWorkers]

def TwoCells.still (rotation : Nat) : Candidate := ⟨rotation, 0, 0, .zero, .zero, .zero, .zero⟩

theorem schedules_agree_twoCells :
    Scoring.bySchedule TwoCells.map ⟨#[[⟨0, 0⟩], [⟨1, 0⟩]]⟩ ⟨.one, .one⟩ [1, 0]
        [TwoCells.still 0, TwoCells.still 1] =
      Scoring.inOrder TwoCells.map ⟨#[[⟨0, 0⟩], [⟨1, 0⟩]]⟩ ⟨.one, .one⟩
        [TwoCells.still 0, TwoCells.still 1] ∧
      Ranked.best? (Ranked.ofList [TwoCells.still 0, TwoCells.still 1]) =
        some (Knockout.duel (.single ⟨1, TwoCells.still 1⟩) (.single ⟨0, TwoCells.still 0⟩)).winner := by
  obtain ⟨scoring, _, selection, _⟩ := schedules_agree TwoCells.map ⟨#[[⟨0, 0⟩], [⟨1, 0⟩]]⟩
    ⟨.one, .one⟩ [TwoCells.still 0, TwoCells.still 1] (by decide)
  exact ⟨scoring [1, 0] (by decide), selection _ (by decide)⟩

end ScanAlign
