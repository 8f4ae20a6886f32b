import Mathlib.Logic.Relation
import ScanAlign.Proofs.Match.Failures
import ScanAlign.Proofs.Match.ScoreRange

namespace ScanAlign

namespace Matcher

variable {t : Matcher} {initial : Pose} {cloud : Cloud} {m : Map} {a : Alignment} {k : Nat}
  {found : List Alignment}

def Composed (initial : Pose) (a : Alignment) : Prop :=
  ∃ c : Candidate, c.orientation.isFinite = true ∧ a = .compose initial c

theorem composed_ranked {r : Ranked} (member : r ∈ t.ranked initial cloud m) :
    Composed initial (.compose initial r.candidate) := by
  obtain ⟨d, atPlace, valued⟩ := getElem?_valued.mp (Ranked.mem_ofList.mp member)
  obtain ⟨_, _, orientation⟩ := hypothesis_numbers (List.mem_of_getElem? atPlace)
  refine ⟨_, ?_, rfl⟩
  rw [← valued]
  exact orientation

theorem align_composed (aligned : t.align initial cloud m = .ok a) : Composed initial a := by
  obtain ⟨_, _, _, best, isBest, rfl⟩ := align_eq_ok_iff.mp aligned
  exact composed_ranked isBest.1

theorem aligned_of_alignInto {before after : Pose} {score : Single}
    (written : t.alignInto initial cloud m (some before) = (some after, .ok score)) :
    ∃ a, t.align initial cloud m = .ok a ∧ a.pose = after := by
  cases outcome : t.align initial cloud m with
  | error failure =>
    rw [alignInto_failed outcome] at written
    cases written
  | ok a =>
    rw [alignInto_found outcome] at written
    cases written
    exact ⟨a, rfl, rfl⟩

theorem alignBest_composed (answered : t.alignBest initial cloud m k = .ok found) (member : a ∈ found) :
    Composed initial a := by
  cases refused : refusal? initial cloud m with
  | some reason =>
    rw [alignBest_unprepared (prepare_refused refused)] at answered
    cases answered
  | none =>
    by_cases room : t.HasRoom initial cloud m
    · by_cases passed : t.ChecksPass initial cloud m
      · rw [alignBest_passed refused room passed] at answered
        cases answered
        obtain ⟨r, shown, rfl⟩ := List.mem_map.mp member
        exact composed_ranked ((Ranked.bestFirst_perm _).mem_iff.mp (List.mem_of_mem_take shown))
      · rcases Nat.eq_zero_or_pos k with none | asked
        · rw [none, alignBest_zero refused room] at answered
          cases answered
          cases member
        · rw [alignBest_faulted refused room passed asked.ne'] at answered
          cases answered
    · rw [alignBest_unprepared (prepare_full refused room)] at answered
      cases answered

end Matcher

theorem Alignment.heading_inTurn {initial : Pose} {a : Alignment} (composed : Matcher.Composed initial a)
    (inTurn : initial.heading.InTurn) : a.pose.heading.InTurn := by
  obtain ⟨c, finite, rfl⟩ := composed
  unfold compose
  dsimp only
  split
  · exact inTurn
  · exact Single.wrapAngle_add_inTurn inTurn.isFinite finite (.inl inTurn)

namespace Pose

variable {p q : Pose}

def HeadingWrapped (p : Pose) : Prop := p.heading.isFinite = true → p.heading.InTurn

theorem wrapped_heading (x y angle : Single) : (wrapped x y angle).HeadingWrapped :=
  Single.wrapAngle_inTurn

@[simp] theorem heading_ofAngle (angle : Single) : (ofAngle angle).heading = angle.wrapAngle := rfl

-- One operation on a pose: it gives way to a new one of a finite heading, is composed on either side with any
-- pose of a finite heading, is inverted, or starts an alignment and is replaced by a pose that this returns.
inductive Step : Pose → Pose → Prop
  | built {p : Pose} {x y angle : Single} (finite : angle.isFinite = true) : Step p (wrapped x y angle)
  | turned {p : Pose} {angle : Single} (finite : angle.isFinite = true) : Step p (ofAngle angle)
  | composed {p q : Pose} (finite : q.heading.isFinite = true) : Step p (p.compose q)
  | composedOnto {p q : Pose} (finite : q.heading.isFinite = true) : Step p (q.compose p)
  | inverted {p : Pose} : Step p p.inverse
  | aligned {p : Pose} {t : Matcher} {cloud : Cloud} {m : Map} {a : Alignment}
      (found : t.align p cloud m = .ok a) : Step p a.pose
  | alignedInto {p before after : Pose} {t : Matcher} {cloud : Cloud} {m : Map} {score : Single}
      (written : t.alignInto p cloud m (some before) = (some after, .ok score)) : Step p after
  | alignedBest {p : Pose} {t : Matcher} {cloud : Cloud} {m : Map} {k : Nat} {found : List Alignment}
      {a : Alignment} (answered : t.alignBest p cloud m k = .ok found) (member : a ∈ found) : Step p a.pose

theorem Step.inTurn (step : Step p q) (start : p.heading.InTurn) : q.heading.InTurn := by
  cases step with
  | built finite => exact (Single.wrapAngle_wraps finite).inTurn
  | turned finite => exact (Single.wrapAngle_wraps finite).inTurn
  | composed finite => exact Single.wrapAngle_add_inTurn start.isFinite finite (.inl start)
  | composedOnto finite => exact Single.wrapAngle_add_inTurn finite start.isFinite (.inr start)
  | inverted =>
    have finite : (-p.heading).isFinite = true := start.isFinite
    exact (Single.wrapAngle_wraps finite).inTurn
  | aligned found => exact Alignment.heading_inTurn (Matcher.align_composed found) start
  | alignedInto written =>
    obtain ⟨a, found, rfl⟩ := Matcher.aligned_of_alignInto written
    exact Alignment.heading_inTurn (Matcher.align_composed found) start
  | alignedBest answered member =>
    exact Alignment.heading_inTurn (Matcher.alignBest_composed answered member) start

def Run : Pose → Pose → Prop := Relation.ReflTransGen Step

theorem Run.inTurn {start : Pose} (run : Run start p) (inTurn : start.heading.InTurn) :
    p.heading.InTurn := by
  induction run with
  | refl => exact inTurn
  | tail _ step ih => exact step.inTurn ih

theorem headings_wrapped :
    (∀ a : Single, a.isFinite = true →
        Single.Wraps a a.wrapAngle ∧ a.wrapAngle.wrapAngle = a.wrapAngle) ∧
      (∀ x y angle, (wrapped x y angle).HeadingWrapped) ∧
      (∀ angle, (ofAngle angle).HeadingWrapped) ∧
      (∀ p q : Pose, (p.compose q).HeadingWrapped) ∧
      (∀ p : Pose, p.inverse.HeadingWrapped) ∧
      ∀ start p : Pose, start.heading.InTurn → Run start p → p.heading.InTurn := by
  refine ⟨?_, ?_, ?_, ?_, ?_, ?_⟩
  · intro a finite
    have wraps := Single.wrapAngle_wraps finite
    exact ⟨wraps, Single.wrapAngle_of_inTurn wraps.inTurn⟩
  · exact wrapped_heading
  · intro angle
    exact wrapped_heading _ _ _
  · intro p q
    exact wrapped_heading _ _ _
  · intro p
    exact wrapped_heading _ _ _
  · intro start p inTurn run
    exact run.inTurn inTurn

-- Half a turn backwards is half a turn forwards. From there an alignment is found and undone.
theorem headings_wrapped_behind :
    (-Single.pi).wrapAngle = Single.pi ∧
      ∃ start a, start = ofAngle (-Single.pi) ∧
        Matcher.standard.align start TwoCells.cloud TwoCells.map = .ok a ∧
        Run start a.pose.inverse ∧ a.pose.inverse.heading.InTurn := by
  obtain ⟨wrapping, _, _, _, _, runs⟩ := headings_wrapped
  have start : (ofAngle (-Single.pi)).heading.InTurn := by
    rw [heading_ofAngle]
    exact (wrapping (-Single.pi) (by decide +kernel)).1.inTurn
  have passed :
      (Matcher.standard.align (ofAngle (-Single.pi)) TwoCells.cloud TwoCells.map).isOk = true := by
    decide +kernel
  refine ⟨by decide +kernel, ofAngle (-Single.pi), ?_⟩
  cases found : Matcher.standard.align (ofAngle (-Single.pi)) TwoCells.cloud TwoCells.map with
  | error failure =>
    rw [found] at passed
    cases passed
  | ok a =>
    have run : Run (ofAngle (-Single.pi)) a.pose.inverse :=
      .tail (.single (.aligned found)) .inverted
    exact ⟨a, rfl, rfl, run, runs _ _ start run⟩

end Pose

end ScanAlign
