import ScanAlign.Proofs.Match.Outcome

namespace ScanAlign

-- What is wrong with the inputs of a search; what comes first in the list is blamed.
inductive Refuses (initial : Pose) (cloud : Cloud) : Map → Rejection → Prop
  | pose {m : Map} (broken : initial.isFinite = false) :
      Refuses initial cloud m (.notFinite .initialPose)
  | cloud {m : Map} {p : Point} (sound : initial.isFinite = true) (member : p ∈ cloud.points)
      (broken : p.isFinite = false) :
      Refuses initial cloud m (.notFinite .pointCloud)
  | empty {map : ProbabilityMap} (sound : initial.isFinite = true) (nothing : cloud.points = []) :
      Refuses initial cloud (.probability map) .emptyCloud

def BlamesSettings (outcome : Except Failure α) : Prop :=
  ∃ reason, outcome = .error (.rejected (.setting reason))

variable {initial : Pose} {cloud : Cloud} {m : Map} {reason : Rejection}

theorem blameless_refusal (refuses : Refuses initial cloud m reason) :
    ¬ BlamesSettings (.error (.rejected reason) : Except Failure α) := by
  intro blames
  obtain ⟨other, blamed⟩ := blames
  cases blamed
  cases refuses

theorem blameless_fault {f : Fault} : ¬ BlamesSettings (.error (.fault f) : Except Failure α) := by
  intro blames
  obtain ⟨other, blamed⟩ := blames
  cases blamed

theorem blameless_ok {value : α} : ¬ BlamesSettings (.ok value) := by
  intro blames
  obtain ⟨other, blamed⟩ := blames
  cases blamed

namespace Matcher

variable {t : Matcher} {failure : Failure} {a : Alignment}

theorem refusal?_eq_some_iff :
    refusal? initial cloud m = some reason ↔ Refuses initial cloud m reason := by
  have broken : cloud.isFinite = false ↔ ∃ p ∈ cloud.points, p.isFinite = false := by
    simp [Cloud.isFinite]
  have empty : cloud.isEmpty = true ↔ cloud.points = [] := by
    simp [Cloud.isEmpty]
  constructor
  · intro refused
    unfold refusal? at refused
    cases pose : initial.isFinite with
    | false =>
      simp only [pose, Bool.not_false, if_true] at refused
      cases refused
      exact .pose pose
    | true =>
      cases points : cloud.isFinite with
      | false =>
        simp only [pose, points, Bool.not_true, Bool.not_false, Bool.false_eq_true, if_true,
          if_false] at refused
        cases refused
        obtain ⟨p, member, infinite⟩ := broken.mp points
        exact .cloud pose member infinite
      | true =>
        simp only [pose, points, Bool.not_true, Bool.false_eq_true, if_false] at refused
        cases m with
        | probability map =>
          cases nothing : cloud.isEmpty with
          | false =>
            simp only [nothing, Bool.false_eq_true, if_false] at refused
            cases refused
          | true =>
            simp only [nothing, if_true] at refused
            cases refused
            exact .empty pose (empty.mp nothing)
        | distance map => cases refused
  · intro refuses
    cases refuses with
    | pose infinite => simp [refusal?, infinite]
    | cloud sound member infinite =>
      have points := broken.mpr ⟨_, member, infinite⟩
      simp [refusal?, sound, points]
    | empty sound nothing =>
      have points : cloud.isFinite = true := by simp [Cloud.isFinite, nothing]
      simp [refusal?, sound, points, empty.mpr nothing]

theorem refusal?_eq_none_iff :
    refusal? initial cloud m = none ↔ ∀ reason, ¬ Refuses initial cloud m reason := by
  simp only [← refusal?_eq_some_iff, Option.eq_none_iff_forall_ne_some]

theorem alignInto_failed (failed : t.align initial cloud m = .error failure) (before : Pose) :
    t.alignInto initial cloud m (some before) = (some before, .error failure) := by
  simp only [alignInto, failed]

theorem alignInto_found (found : t.align initial cloud m = .ok a) (before : Pose) :
    t.alignInto initial cloud m (some before) = (some a.pose, .ok a.score) := by
  simp only [alignInto, found]

theorem run_cases (t : Matcher) (initial : Pose) (cloud : Cloud) (m : Map) :
    (∃ reason, Refuses initial cloud m reason ∧
        t.prepare initial cloud m = .error (.rejected reason)) ∨
      t.prepare initial cloud m = .error (.fault .capacity) ∨
      (refusal? initial cloud m = none ∧ t.HasRoom initial cloud m ∧
        ¬ t.ChecksPass initial cloud m) ∨
      (refusal? initial cloud m = none ∧ t.HasRoom initial cloud m ∧ t.ChecksPass initial cloud m) := by
  cases refused : refusal? initial cloud m with
  | some reason => exact .inl ⟨reason, refusal?_eq_some_iff.mp refused, prepare_refused refused⟩
  | none =>
    by_cases room : t.HasRoom initial cloud m
    · by_cases passed : t.ChecksPass initial cloud m
      · exact .inr (.inr (.inr ⟨rfl, room, passed⟩))
      · exact .inr (.inr (.inl ⟨rfl, room, passed⟩))
    · exact .inr (.inl (prepare_full refused room))

theorem align_blameless : ¬ BlamesSettings (t.align initial cloud m) := by
  rcases t.run_cases initial cloud m with
    ⟨reason, refuses, failed⟩ | full | ⟨accepted, room, failed⟩ | ⟨accepted, room, passed⟩
  · rw [align_unprepared failed]
    exact blameless_refusal refuses
  · rw [align_unprepared full]
    exact blameless_fault
  · rw [align_faulted accepted room failed]
    exact blameless_fault
  · obtain ⟨best, _, found⟩ := align_passed accepted room passed
    rw [found]
    exact blameless_ok

theorem alignBest_blameless (k : Nat) : ¬ BlamesSettings (t.alignBest initial cloud m k) := by
  rcases t.run_cases initial cloud m with
    ⟨reason, refuses, failed⟩ | full | ⟨accepted, room, failed⟩ | ⟨accepted, room, passed⟩
  · rw [alignBest_unprepared failed]
    exact blameless_refusal refuses
  · rw [alignBest_unprepared full]
    exact blameless_fault
  · by_cases zero : k = 0
    · rw [zero, alignBest_zero accepted room]
      exact blameless_ok
    · rw [alignBest_faulted accepted room failed zero]
      exact blameless_fault
  · rw [alignBest_passed accepted room passed]
    exact blameless_ok

theorem alignInto_blameless (slot : Option Pose) :
    ¬ BlamesSettings (t.alignInto initial cloud m slot).2 := by
  have blameless : ¬ BlamesSettings (t.align initial cloud m) := align_blameless
  intro blames
  obtain ⟨reason, blamed⟩ := blames
  cases slot with
  | none => cases blamed
  | some before =>
    cases outcome : t.align initial cloud m with
    | error failure =>
      rw [alignInto_failed outcome] at blamed
      cases blamed
      exact blameless ⟨reason, outcome⟩
    | ok a =>
      rw [alignInto_found outcome] at blamed
      cases blamed

-- The stages of a search up to the clipped space, with what each of their checks asks for.
structure LaidOut (t : Matcher) (initial : Pose) (cloud : Cloud) (m : Map) (start : SearchSpace)
    (bank : ScanBank) (space : SearchSpace) : Prop where
  settings : t.settings.defect? = none
  covered : SearchSpace.covering t.settings.linearWindow t.settings.angularWindow
    (cloud.rotate initial.heading) m.limits.resolution = .ok start
  built : ScanBank.build (cloud.rotate initial.heading) start m.limits initial.translation = .ok bank
  sized : bank.size = start.rotations
  clipped : start.fit bank m.limits = .ok space
  zero : ∀ w ∈ space.windows, w.containsZero = true

-- The enumeration of a clipped space, with what its check and those of the scoring ask for.
structure Listed (bank : ScanBank) (space : SearchSpace) (candidates : List Candidate) : Prop where
  listed : space.candidates = .ok candidates
  counted : candidates.length = space.size
  present : candidates ≠ []
  inBank : ∀ c ∈ candidates, c.rotation < bank.size
  inWindow : ∀ c ∈ candidates, ∃ w, space.windows[c.rotation]? = some w ∧ (c.dx, c.dy) ∈ w.shifts

theorem laidOut (t : Matcher) (initial : Pose) (cloud : Cloud) (m : Map) :
    t.LaidOut initial cloud m (t.start initial cloud m) (t.bank initial cloud m)
      (t.space initial cloud m) where
  settings := t.sound
  covered := SearchSpace.covering_eq m.limits.resolution_pos _ _ _
  built := SearchSpace.build_eq (t.start_sound initial cloud m) _ _ _
  sized := t.size_bank initial cloud m
  clipped := SearchSpace.fit_eq (t.size_bank initial cloud m) _
  zero := by
    intro w member
    exact Window.containsZero_iff.mpr ((t.space_sound initial cloud m).around w member).zero

theorem listed (room : t.HasRoom initial cloud m) :
    Listed (t.bank initial cloud m) (t.space initial cloud m) (t.hypotheses initial cloud m) where
  listed := by
    rw [SearchSpace.candidates_eq (t.space_sound initial cloud m), reserve_eq_ok_iff.mpr room]
    rfl
  counted := SearchSpace.length_eq_size room
  present := List.ne_nil_of_mem zero_mem_hypotheses
  inBank := hypotheses_inBank
  inWindow := by
    intro c member
    obtain ⟨w, found, allowed, _⟩ := SearchSpace.mem_hypotheses.mp member
    exact ⟨w, found, Window.mem_shifts.mpr allowed⟩

-- The checks of the scores are the only ones left open; they read the map.
theorem failures_agree (t : Matcher) (initial : Pose) (cloud : Cloud) (m : Map) :
    t.alignInto initial cloud m none = (none, .error (.rejected .noSlot)) ∧
      (∀ before,
        (∀ failure, t.align initial cloud m = .error failure →
          t.alignInto initial cloud m (some before) = (some before, .error failure)) ∧
        ∀ a, t.align initial cloud m = .ok a →
          t.alignInto initial cloud m (some before) = (some a.pose, .ok a.score)) ∧
      (¬ BlamesSettings (t.align initial cloud m) ∧
        (∀ k, ¬ BlamesSettings (t.alignBest initial cloud m k)) ∧
        ∀ slot, ¬ BlamesSettings (t.alignInto initial cloud m slot).2) ∧
      (∀ reason, Refuses initial cloud m reason →
        t.align initial cloud m = .error (.rejected reason) ∧
          ∀ k, t.alignBest initial cloud m k = .error (.rejected reason)) ∧
      t.LaidOut initial cloud m (t.start initial cloud m) (t.bank initial cloud m)
        (t.space initial cloud m) ∧
      ((t.space initial cloud m).size * 32 ≤ mostBytes →
        Listed (t.bank initial cloud m) (t.space initial cloud m) (t.hypotheses initial cloud m) ∧
          ((∀ reason, ¬ Refuses initial cloud m reason) →
            Scoring.ChecksPass m (t.bank initial cloud m) (t.hypotheses initial cloud m) →
              (∃ a, t.align initial cloud m = .ok a) ∧
                ∀ k, ∃ best, t.alignBest initial cloud m k = .ok best)) := by
  refine ⟨rfl, ?_, ⟨align_blameless, alignBest_blameless, alignInto_blameless⟩, ?_,
    t.laidOut initial cloud m, ?_⟩
  · intro before
    exact ⟨fun _ failed => alignInto_failed failed before, fun _ found => alignInto_found found before⟩
  · intro reason refuses
    have failed := t.prepare_refused (refusal?_eq_some_iff.mpr refuses)
    exact ⟨align_unprepared failed, alignBest_unprepared failed⟩
  · intro room
    refine ⟨listed room, ?_⟩
    intro unrefused passed
    have accepted : refusal? initial cloud m = none := refusal?_eq_none_iff.mpr unrefused
    obtain ⟨best, _, found⟩ := align_passed accepted room passed
    exact ⟨⟨_, found⟩, fun k => ⟨_, alignBest_passed accepted room passed k⟩⟩

theorem failures_agree_twoCells :
    ((∃ a, standard.align .identity TwoCells.cloud TwoCells.map = .ok a) ∧
        ∀ k, ∃ best, standard.alignBest .identity TwoCells.cloud TwoCells.map k = .ok best) ∧
      standard.align .identity .empty TwoCells.map = .error (.rejected .emptyCloud) ∧
        ∀ k, standard.alignBest .identity .empty TwoCells.map k = .error (.rejected .emptyCloud) := by
  obtain ⟨a, found⟩ := TwoCells.aligned
  obtain ⟨accepted, room, passed, _⟩ := align_eq_ok_iff.mp found
  obtain ⟨_, _, _, _, _, succeeds⟩ :=
    failures_agree standard .identity TwoCells.cloud TwoCells.map
  obtain ⟨_, _, _, refusals, _⟩ := failures_agree standard .identity .empty TwoCells.map
  exact ⟨(succeeds room).2 (refusal?_eq_none_iff.mp accepted) passed,
    refusals .emptyCloud (.empty (by decide) rfl)⟩

end Matcher

end ScanAlign
