import ScanAlign.Proofs.Json.NumberTexts
import ScanAlign.Proofs.Match.Failures
import ScanAlign.Proofs.Run.MapBuilding
import ScanAlign.Run.CommandLine

namespace ScanAlign

open Json

def Reads (text : String) (value : Json) : Prop := Json.ofText? text = some value

namespace Json

-- How a number is written: as a numeral that it is the nearest number to, or as null if it is not finite.
inductive IsNumber (x : Single) : Json → Prop
  | numeral {n : Numeral} (finite : x.isFinite = true) (nearest : n.nearest = x) :
      IsNumber x (.number n)
  | null (notFinite : x.isFinite = false) : IsNumber x .null

inductive IsWholeNumber (z : Int) : Json → Prop
  | numeral {n : Numeral} (whole : n.toWhole? = some z) : IsWholeNumber z (.number n)

theorem writes_number (x : Single) : ∃ j, Writes (.leaf (MatchRecord.numberText x)) j ∧ IsNumber x j := by
  unfold MatchRecord.numberText
  split
  · rename_i finite
    obtain ⟨n, isNumeral, nearest⟩ := text_isNumeral Report.number finite
    exact ⟨.number n, writes_numeral isNumeral.isWord, .numeral finite nearest⟩
  · rename_i other
    exact ⟨.null, writes_null, .null (Bool.eq_false_iff.mpr other)⟩

theorem writes_whole (z : Int) : ∃ j, Writes (.leaf (Int.repr z)) j ∧ IsWholeNumber z j := by
  obtain ⟨x, isNumeral, whole⟩ := intRepr_isNumeral z
  exact ⟨.number x, writes_numeral isNumeral.isWord, .numeral whole⟩

end Json

namespace MatchRecord

-- The object of a record: its seven fields by name, in this order and no others.
inductive IsObject (r : MatchRecord) : Json → Prop
  | fields {x y heading score rotation dx dy : Json} (isX : IsNumber r.x x) (isY : IsNumber r.y y)
      (isHeading : IsNumber r.heading heading) (isScore : IsNumber r.score score)
      (isRotation : IsWholeNumber r.rotation rotation) (isDx : IsWholeNumber r.dx dx)
      (isDy : IsWholeNumber r.dy dy) :
      IsObject r (.object [(some "x", x), (some "y", y), (some "theta", heading),
        (some "score", score), (some "scan_index", rotation), (some "x_index_offset", dx),
        (some "y_index_offset", dy)])

theorem writes_layout (r : MatchRecord) : ∃ j, Writes r.layout j ∧ r.IsObject j := by
  obtain ⟨x, writesX, isX⟩ := writes_number r.x
  obtain ⟨y, writesY, isY⟩ := writes_number r.y
  obtain ⟨heading, writesHeading, isHeading⟩ := writes_number r.heading
  obtain ⟨score, writesScore, isScore⟩ := writes_number r.score
  obtain ⟨rotation, writesRotation, isRotation⟩ := writes_whole r.rotation
  obtain ⟨dx, writesDx, isDx⟩ := writes_whole r.dx
  obtain ⟨dy, writesDy, isDy⟩ := writes_whole r.dy
  refine ⟨_, writes_object ?_, .fields isX isY isHeading isScore isRotation isDx isDy⟩
  have plain : ∀ name ∈ ["x", "y", "theta", "score", "scan_index", "x_index_offset",
      "y_index_offset"], Plain name := by decide
  simp only [List.forall_mem_cons] at plain
  obtain ⟨nameX, nameY, nameHeading, nameScore, nameRotation, nameDx, nameDy, _⟩ := plain
  exact .cons ⟨rfl, nameX, writesX⟩ (.cons ⟨rfl, nameY, writesY⟩
    (.cons ⟨rfl, nameHeading, writesHeading⟩ (.cons ⟨rfl, nameScore, writesScore⟩
    (.cons ⟨rfl, nameRotation, writesRotation⟩ (.cons ⟨rfl, nameDx, writesDx⟩
    (.cons ⟨rfl, nameDy, writesDy⟩ .nil))))))

theorem writes_layouts (rs : List MatchRecord) :
    ∃ js, List.Forall₂ Writes (rs.map layout) js ∧ List.Forall₂ IsObject rs js := by
  induction rs with
  | nil => exact ⟨[], .nil, .nil⟩
  | cons r rs ih =>
    obtain ⟨j, writes, isObject⟩ := r.writes_layout
    obtain ⟨js, written, objects⟩ := ih
    exact ⟨j :: js, .cons writes written, .cons isObject objects⟩

end MatchRecord

namespace Report

inductive IsDocument (report : Report) : Json → Prop
  | fields {best : Json} {ranked : List Json} (isBest : report.best.IsObject best)
      (areRanked : List.Forall₂ MatchRecord.IsObject report.ranked ranked) :
      IsDocument report (.object [(some "best", best), (some "topk", .array ranked)])

theorem text_reads (report : Report) : ∃ j, Reads report.text j ∧ report.IsDocument j := by
  obtain ⟨best, writesBest, isBest⟩ := report.best.writes_layout
  obtain ⟨ranked, writesRanked, areRanked⟩ := MatchRecord.writes_layouts report.ranked
  have plainBest : Plain "best" := by decide
  have plainRanked : Plain "topk" := by decide
  have written : List.Forall₂ WritesField
      [("best", report.best.layout), ("topk", .array (report.ranked.map MatchRecord.layout))]
      [(some "best", best), (some "topk", .array ranked)] :=
    .cons ⟨rfl, plainBest, writesBest⟩ (.cons ⟨rfl, plainRanked, writes_array writesRanked⟩ .nil)
  exact ⟨_, (writes_object written).ofText?_eq, .fields isBest areRanked⟩

end Report

variable {e : RunError} {initial : Pose} {cloud : Cloud} {m : Map} {t : Matcher} {a : Alignment} {k : Nat}

namespace Matcher

theorem alignBest_failed {failure : Failure} (failed : t.align initial cloud m = .error failure)
    (asked : k ≠ 0) : t.alignBest initial cloud m k = .error failure := by
  rcases t.run_cases initial cloud m with
    ⟨reason, _, refused⟩ | full | ⟨accepted, room, bad⟩ | ⟨accepted, room, passed⟩
  · rw [align_unprepared refused] at failed
    cases failed
    exact alignBest_unprepared refused k
  · rw [align_unprepared full] at failed
    cases failed
    exact alignBest_unprepared full k
  · rw [align_faulted accepted room bad] at failed
    cases failed
    exact alignBest_faulted accepted room bad asked
  · obtain ⟨best, _, found⟩ := align_passed accepted room passed
    rw [found] at failed
    cases failed

theorem alignBest_found (found : t.align initial cloud m = .ok a) (asked : k ≠ 0) :
    ∃ search alignments, t.prepare initial cloud m = .ok search ∧
      t.alignBest initial cloud m k = .ok alignments ∧
      alignments.length = min k search.candidates.length ∧ alignments.head? = some a := by
  obtain ⟨accepted, room, passed, best, isBest, rfl⟩ := align_eq_ok_iff.mp found
  refine ⟨_, _, prepare_eq accepted room, alignBest_passed accepted room passed k, ?_, ?_⟩
  · rw [← leaders, leaders_length, length_sorted, valued, List.length_map]
  · have first : (Ranked.bestFirst (t.ranked initial cloud m)).head? = some best := by
      rw [Ranked.bestFirst_head? placed_ranked]
      exact (Ranked.best?_eq_some_iff placed_ranked).mpr isBest
    rw [← leaders, leaders_head? (Nat.pos_of_ne_zero asked), first]
    rfl

end Matcher

theorem RunError.status_ne_zero (e : RunError) : e.status ≠ 0 := by
  unfold status
  split <;> decide

theorem MapPlan.build_ne_noHypotheses (plan : MapPlan) : plan.build ≠ .error .noHypotheses := by
  intro failed
  unfold build at failed
  cases made : Limits.make plan.origin plan.resolution plan.columns plan.rows with
  | error reason =>
    simp only [made, Except.mapError, bind, Except.bind] at failed
    cases failed
  | ok l =>
    cases room : reserve plan.pointCount 8 with
    | error fault =>
      simp only [made, room, Except.mapError, bind, Except.bind] at failed
      cases failed
    | ok _ =>
      simp only [made, room, Except.mapError, bind, Except.bind] at failed
      split at failed
      · cases failed
      · cases kind : plan.kind with
        | probability =>
          simp only [kind] at failed
          cases built : probabilityMap l plan.hitProbability plan.points <;>
            rw [built] at failed <;> cases failed
        | distance =>
          simp only [kind] at failed
          cases built : distanceMap l plan.truncation plan.points <;>
            rw [built] at failed <;> cases failed

-- A step on a stage goes on with its result, on the stage that it leaves.
theorem Stage.run_step {α β : Type} (step : StateM Stage α)
    (next : α → ExceptT RunError (StateM Stage) β) (s : Stage) :
    ((liftM step : ExceptT RunError (StateM Stage) α) >>= next).run s =
      (next (step s).1).run (step s).2 := rfl

namespace MatchRecord

-- The record holds the pose, the score and the place in the search of an alignment.
structure Tells (r : MatchRecord) (a : Alignment) : Prop where
  x : r.x = a.pose.x
  y : r.y = a.pose.y
  heading : r.heading = a.pose.heading
  score : r.score = a.score
  rotation : r.rotation = a.candidate.rotation
  dx : r.dx = a.candidate.dx
  dy : r.dy = a.candidate.dy

theorem ofAlignment_tells (a : Alignment) : (ofAlignment a).Tells a := ⟨rfl, rfl, rfl, rfl, rfl, rfl, rfl⟩

theorem map_ofAlignment_tells (alignments : List Alignment) :
    List.Forall₂ Tells (alignments.map ofAlignment) alignments :=
  List.forall₂_map_left_iff.mpr (List.forall₂_same.mpr fun a _ => ofAlignment_tells a)

end MatchRecord

namespace FileTree

variable {files after : FileTree} {path content text : String}

theorem isPath_of_place? {place : List String} (found : files.place? path = some place) :
    isPath path = true := by
  unfold place? at found
  split at found
  · cases found
  · rename_i usable
    simp only [Bool.or_eq_true, not_or, Bool.not_eq_true, Bool.not_eq_false'] at usable
    exact usable.2

theorem isPath_of_write? (written : files.write? path content = some after) : isPath path = true := by
  unfold write? at written
  obtain ⟨place, found, _⟩ := Option.bind_eq_some_iff.mp written
  exact isPath_of_place? found

theorem isPath_of_read? (read : files.read? path = some text) : isPath path = true := by
  unfold read? at read
  obtain ⟨place, found, _⟩ := Option.bind_eq_some_iff.mp read
  exact isPath_of_place? found

end FileTree

namespace Plan

variable {plan : Plan} {report : Report}

-- Why a plan fails; what comes first in the list is the reason.
inductive Fails (plan : Plan) : RunError → Prop
  | count (none : plan.count = 0) : Fails plan .zeroCount
  | map {e : RunError} (some : plan.count ≠ 0) (failed : plan.map.build = .error e) : Fails plan e
  | settings {m : Map} {reason : Rejection} (some : plan.count ≠ 0) (built : plan.map.build = .ok m)
      (failed : Matcher.ofSettings plan.settings = .error reason) :
      Fails plan (.failure (.rejected reason))
  | search {m : Map} {t : Matcher} {failure : Failure} (some : plan.count ≠ 0)
      (built : plan.map.build = .ok m) (set : Matcher.ofSettings plan.settings = .ok t)
      (failed : t.align plan.start plan.cloud m = .error failure) : Fails plan (.failure failure)

-- What a report tells: the alignment that `align` finds, and those that `alignBest` finds in their order.
structure Answers (plan : Plan) (m : Map) (t : Matcher) (report : Report) : Prop where
  built : plan.map.build = .ok m
  set : Matcher.ofSettings plan.settings = .ok t
  best : ∃ a, t.align plan.start plan.cloud m = .ok a ∧ report.best.Tells a
  ranked : ∃ alignments, t.alignBest plan.start plan.cloud m plan.count = .ok alignments ∧
    List.Forall₂ MatchRecord.Tells report.ranked alignments
  length : ∃ search, t.prepare plan.start plan.cloud m = .ok search ∧
    report.ranked.length = min plan.count search.candidates.length
  first : report.ranked.head? = some report.best

theorem Fails.ne_noHypotheses (fails : plan.Fails e) : e ≠ .noHypotheses := by
  rintro rfl
  cases fails with
  | map _ failed => exact plan.map.build_ne_noHypotheses failed

theorem report_failed (fails : plan.Fails e) : plan.report = .error e := by
  cases fails with
  | count none => simp only [report, alignments, none, if_true, bind, Except.bind]
  | map some failed => simp only [report, alignments, some, failed, if_false, bind, Except.bind]
  | settings some built failed =>
    simp only [report, alignments, some, built, failed, if_false, bind, Except.bind, Except.mapError]
  | search some built set failed =>
    simp only [report, alignments, some, built, set, Matcher.alignBest_failed failed some, if_false,
      bind, Except.bind, Except.mapError]

theorem report_answers (m : Map) (t : Matcher) (some : plan.count ≠ 0)
    (built : plan.map.build = .ok m) (set : Matcher.ofSettings plan.settings = .ok t)
    (found : t.align plan.start plan.cloud m = .ok a) :
    ∃ report, plan.report = .ok report ∧ plan.Answers m t report := by
  obtain ⟨search, alignments, prepared, shown, length, first⟩ := Matcher.alignBest_found found some
  cases alignments with
  | nil => cases first
  | cons best rest =>
    cases first
    refine ⟨⟨.ofAlignment a, (a :: rest).map .ofAlignment⟩, ?_, ?_⟩
    · simp only [report, alignments, some, built, set, shown, if_false, bind, Except.bind,
        Except.mapError, Report.ofAlignments?]
      rfl
    · exact ⟨built, set, ⟨a, found, MatchRecord.ofAlignment_tells a⟩,
        ⟨_, shown, MatchRecord.map_ofAlignment_tells _⟩,
        ⟨search, prepared, by rw [List.length_map, length]⟩, rfl⟩

theorem report_cases (plan : Plan) :
    (∃ e, plan.Fails e) ∨ ∃ m t report, plan.report = .ok report ∧ plan.Answers m t report := by
  by_cases none : plan.count = 0
  · exact .inl ⟨_, .count none⟩
  cases built : plan.map.build with
  | error e => exact .inl ⟨_, .map none built⟩
  | ok m =>
    cases set : Matcher.ofSettings plan.settings with
    | error reason => exact .inl ⟨_, .settings none built set⟩
    | ok t =>
      cases found : t.align plan.start plan.cloud m with
      | error failure => exact .inl ⟨_, .search none built set found⟩
      | ok a => exact .inr ⟨m, t, report_answers m t none built set found⟩

-- The report is handed over in one place, and nothing else changes.
inductive Delivers (plan : Plan) (report : Report) (before : Stage) : Stage → Prop
  | printed (toOutput : plan.outputPath = none) :
      Delivers plan report before { before with printed := before.printed ++ (report.text ++ "\n") }
  | saved {path : String} {files : FileTree} (toFile : plan.outputPath = some path)
      (written : before.files.write? path report.text = some files) :
      Delivers plan report before { before with files := files }

def CanWrite (plan : Plan) (s : Stage) : Prop :=
  ∀ path, plan.outputPath = some path → ∀ content, ∃ files, s.files.write? path content = some files

theorem execute_failed (failed : plan.report = .error e) (s : Stage) :
    (plan.execute Stage.surroundings).run s = (.error e, s) := by
  rw [execute, failed]
  rfl

theorem execute_delivers (answered : plan.report = .ok report) {s : Stage}
    (writable : plan.CanWrite s) :
    ∃ after, (plan.execute Stage.surroundings).run s = (.ok (), after) ∧
      plan.Delivers report s after := by
  simp only [execute, answered]
  cases destination : plan.outputPath with
  | none =>
    refine ⟨_, ?_, .printed destination⟩
    simp only [deliver, destination]
    rfl
  | some path =>
    obtain ⟨files, written⟩ := writable path destination report.text
    refine ⟨_, ?_, .saved destination written⟩
    have saved : Stage.surroundings.write path report.text s = (true, { s with files := files }) := by
      simp only [Stage.surroundings, written]
    simp only [deliver, destination, FileTree.isPath_of_write? written, Bool.not_true,
      Bool.false_eq_true, if_false]
    rw [Stage.run_step, saved]
    rfl

end Plan

namespace CommandLine

variable {arguments : List String} {options : Options} {s : Stage} {text : String} {plan : Plan}

theorem execute_eq (untraced : options.trace = false) (asked : options.printExample = false)
    (read : s.files.read? options.configPath = some text) (parsed : Plan.ofText? text = some plan) :
    (execute options Stage.surroundings).run s = (plan.execute Stage.surroundings).run s := by
  simp only [execute, untraced, asked, FileTree.isPath_of_read? read, Bool.not_true,
    Bool.false_eq_true, if_false]
  rw [Stage.run_step]
  simp only [Stage.surroundings, read, parsed]

theorem program_completed (given : Options.ofArguments? .standard arguments = some options)
    {after : Stage} (ran : (execute options Stage.surroundings).run s = (.ok (), after)) :
    program Stage.surroundings arguments s = (0, after) := by
  simp only [program, given, bind, StateT.bind, ran]
  rfl

theorem program_failed (given : Options.ofArguments? .standard arguments = some options)
    {after : Stage} (ran : (execute options Stage.surroundings).run s = (.error e, after)) :
    program Stage.surroundings arguments s =
      (e.status, { after with complaints := after.complaints ++ (e.report ++ "\n") }) := by
  simp only [program, given, bind, StateT.bind, ran]
  rfl

end CommandLine

namespace TwoCells

def configuration : String :=
  "\x7b\"map\": \x7b\"resolution\": 1, \"num_x_cells\": 2, \"num_y_cells\": 1, " ++
    "\"occupied\": [[0.5, 0.5]]\x7d, \"scan\": [[0.5, 0.5]]\x7d"

def plan : Plan where
  map := .twoCells .probability (.ofFraction 3 10)
  scan := [⟨Limits.half, Limits.half⟩]
  initial := .identity
  outputPath := none
  count := 1
  settings := .standard

theorem plan_sound (e : RunError) : ¬ plan.Fails e := by
  intro fails
  have passed : plan.report.isOk = true := by decide +kernel
  rw [Plan.report_failed fails] at passed
  cases passed

def stage : Stage := .ofFiles ⟨[(["config.json"], .text configuration)], []⟩

end TwoCells

end ScanAlign
