import ScanAlign.Proofs.Run.MapBuilding

namespace ScanAlign

namespace MapPlan

variable {plan : MapPlan} {l : Limits} {hit : Single} {points others : List Point} {c : Cell} {index : Nat}

def Marked (l : Limits) (points : List Point) (c : Cell) : Prop := ∃ p ∈ points, l.cellOf p = c

instance : DecidablePred (Marked l points) := fun c => by
  unfold Marked
  infer_instance

theorem met_iff_marked (found : l.index? c = some index) : Met l points index ↔ Marked l points c := by
  unfold Met Marked
  refine exists_congr fun p => and_congr_right fun _ => ?_
  constructor
  · intro same
    rw [← (Limits.cellAt_of_index? same).2, (Limits.cellAt_of_index? found).2]
  · intro same
    rw [same, found]

theorem marked_cellAt_iff (inside : index < l.cellCount) :
    Met l points index ↔ Marked l points (l.cellAt index) :=
  met_iff_marked (Limits.index?_cellAt inside)

theorem met_congr (same : ∀ p, p ∈ points ↔ p ∈ others) : Met l points index ↔ Met l others index := by
  simp only [Met, same]

theorem marks_congr (same : ∀ p, p ∈ points ↔ p ∈ others) : marks l hit points = marks l hit others := by
  refine Array.ext_getElem? ?_
  intro index
  by_cases inside : index < l.cellCount
  · simp only [getElem?_marks inside, met_congr same]
  · simp [inside]

theorem probabilityMap_congr (same : ∀ p, p ∈ points ↔ p ∈ others) :
    probabilityMap l hit points = probabilityMap l hit others := by
  have tables : points.foldl (mark l hit) (.replicate l.cellCount ProbabilityMap.lowest) =
      others.foldl (mark l hit) (.replicate l.cellCount ProbabilityMap.lowest) := marks_congr same
  simp only [probabilityMap, marked, tables]

-- Each cell with a point in it reads the hit probability, the others on the map the lowest. Where these
-- two are one number the map does not tell them apart.
structure HoldsMarks (l : Limits) (hit : Single) (points : List Point) (m : ProbabilityMap) : Prop where
  limits : m.limits = l
  hit : ∀ c, l.contains c = true → Marked l points c → m.read c = hit
  lowest : ∀ c, l.contains c = true → ¬ Marked l points c → m.read c = ProbabilityMap.lowest

def Sound (l : Limits) (hit : Single) (points : List Point) : Prop :=
  hit.isProbability = true ∨ ∀ p ∈ points, l.contains (l.cellOf p) = false

inductive MarksEnd (l : Limits) (hit : Single) (points : List Point) :
    Except Failure ProbabilityMap → Prop
  | built {m : ProbabilityMap} (sound : Sound l hit points) (holds : HoldsMarks l hit points m) :
      MarksEnd l hit points (.ok m)
  | blamed {c : Cell} (unsound : ¬ Sound l hit points) (first : l.FirstBad (Marked l points) c) :
      MarksEnd l hit points (.error (.rejected (.cell c .probabilityRange)))

theorem read_marks {m : ProbabilityMap} (limits : m.limits = l) (cells : m.cells = marks l hit points)
    (inside : l.contains c = true) :
    m.read c = if Marked l points c then hit else ProbabilityMap.lowest := by
  have found := Limits.index?_eq_some_iff.mpr ⟨inside, rfl⟩
  have below := (Limits.cellAt_of_index? found).1
  rw [ProbabilityMap.read, limits, cells, found]
  simp only [Array.getD_eq_getD_getElem?, getElem?_marks below, Option.getD_some, met_iff_marked found]

theorem sound_iff :
    Sound l hit points ↔ ∀ index, Met l points index → hit.isProbability = true := by
  constructor
  · rintro (proper | outside) index ⟨p, member, found⟩
    · exact proper
    · have inside := (Limits.index?_eq_some_iff.mp found).1
      rw [outside p member] at inside
      cases inside
  · intro proper
    by_cases used : ∃ index, Met l points index
    · obtain ⟨index, met⟩ := used
      exact .inl (proper index met)
    · refine .inr fun p member => ?_
      rw [← Bool.not_eq_true]
      intro inside
      exact used ⟨_, p, member, Limits.index?_eq_some_iff.mpr ⟨inside, rfl⟩⟩

theorem probabilityMap_ends (room : l.cellCount * 4 ≤ mostBytes) (hit : Single) (points : List Point) :
    MarksEnd l hit points (probabilityMap l hit points) := by
  by_cases sound : Sound l hit points
  · obtain ⟨m, made, limits, cells⟩ := probabilityMap_passed room (sound_iff.mp sound)
    rw [made]
    refine .built sound ⟨limits, ?_, ?_⟩
    · intro c inside marked
      rw [read_marks limits cells inside, if_pos marked]
    · intro c inside unmarked
      rw [read_marks limits cells inside, if_neg unmarked]
  · obtain ⟨bad, index, met, earlier⟩ := exists_first_met (mt sound_iff.mpr sound)
    rw [probabilityMap_failed room bad met earlier]
    refine .blamed sound (Limits.firstBad_of_index met.inside ?_ ?_)
    · exact (marked_cellAt_iff met.inside).mp met
    · intro before less
      exact mt (marked_cellAt_iff (Nat.lt_trans less met.inside)).mpr (earlier before less)

theorem holdsMarks_of_built {m : ProbabilityMap} (built : plan.build = .ok (.probability m)) :
    plan.Frames m.limits ∧ HoldsMarks m.limits plan.hitProbability plan.points m := by
  obtain ⟨l, frames, made⟩ := build_probability built
  by_cases room : l.cellCount * 4 ≤ mostBytes
  · have ends := probabilityMap_ends room plan.hitProbability plan.points
    rw [made] at ends
    cases ends with
    | built _ holds =>
      obtain rfl := holds.limits
      exact ⟨frames, holds⟩
  · rw [probabilityMap_full room] at made
    cases made

structure KeepsMarks (plan : MapPlan) (l : Limits) : Prop where
  built_iff : (∃ m, plan.build = .ok m) ↔ Sound l plan.hitProbability plan.points
  holds : ∀ m, plan.build = .ok m →
    ∃ table, m = .probability table ∧ HoldsMarks l plan.hitProbability plan.points table
  blames : ∀ e, plan.build = .error e →
    ∃ c, e = .failure (.rejected (.cell c .probabilityRange)) ∧ l.FirstBad (Marked l plan.points) c
  set : plan.SeesOnlyTheSet

theorem build_ends (frames : plan.Frames l) (room : plan.HasRoom) (some : plan.points ≠ [])
    (kind : plan.kind = .probability) :
    (∃ m, plan.build = .ok (.probability m) ∧ Sound l plan.hitProbability plan.points ∧
        HoldsMarks l plan.hitProbability plan.points m) ∨
      ∃ c, plan.build = .error (.failure (.rejected (.cell c .probabilityRange))) ∧
        ¬ Sound l plan.hitProbability plan.points ∧ l.FirstBad (Marked l plan.points) c := by
  have ends := probabilityMap_ends (room.marks frames kind) plan.hitProbability plan.points
  have framed := build_framed (room _ frames).1 frames some
  rw [kind] at framed
  cases made : probabilityMap l plan.hitProbability plan.points with
  | ok m =>
    rw [made] at ends framed
    cases ends with
    | built sound holds => exact .inl ⟨m, framed, sound, holds⟩
  | error failure =>
    rw [made] at ends framed
    cases ends with
    | @blamed c unsound first => exact .inr ⟨c, framed, unsound, first⟩

theorem build_marks (frames : plan.Frames l) (some : plan.points ≠ []) (kind : plan.kind = .probability) :
    (plan.HasRoom → plan.KeepsMarks l) ∧
      (¬ plan.HasRoom → plan.build = .error (.failure (.fault .capacity))) := by
  refine ⟨?_, fun full => build_full frames full some (by rw [kind]; rintro ⟨⟩)⟩
  intro room
  have set : plan.SeesOnlyTheSet := by
    apply seesOnlyTheSet_of_alike room frames some
    intro others same
    refine ⟨fun _ => probabilityMap_congr same, ?_⟩
    rw [kind]
    rintro ⟨⟩
  rcases build_ends frames room some kind with ⟨table, built, sound, holds⟩ | ⟨c, failed, unsound, first⟩
  · refine ⟨iff_of_true ⟨_, built⟩ sound, ?_, ?_, set⟩ <;> rw [built]
    · rintro m ⟨⟩
      exact ⟨table, rfl, holds⟩
    · rintro e ⟨⟩
  · refine ⟨iff_of_false ?_ unsound, ?_, ?_, set⟩ <;> rw [failed]
    · rintro ⟨m, ⟨⟩⟩
    · rintro m ⟨⟩
    · rintro e ⟨⟩
      exact ⟨c, rfl, first⟩

def overconfident : MapPlan := { twoCells .probability .one with hitProbability := .ofInt 2 }

theorem overconfident_frames : overconfident.Frames TwoCells.limits := ⟨rfl, rfl, rfl, rfl⟩

theorem overconfident_hasRoom : overconfident.HasRoom := by
  intro l frames
  exact twoCells_hasRoom .probability .one l ⟨frames.origin, frames.resolution, frames.columns, frames.rows⟩

theorem build_marks_twoCells :
    (∃ m, (twoCells .probability .one).build = .ok (.probability m) ∧
        m.read ⟨0, 0⟩ = ProbabilityMap.highest ∧ m.read ⟨1, 0⟩ = ProbabilityMap.lowest) ∧
      overconfident.build = .error (.failure (.rejected (.cell ⟨0, 0⟩ .probabilityRange))) ∧
      (vastCells .probability).build = .error (.failure (.fault .capacity)) := by
  have marks := (build_marks (twoCells_frames .probability .one) (List.cons_ne_nil _ _) rfl).1
    (twoCells_hasRoom _ _)
  have blamed := (build_marks overconfident_frames (List.cons_ne_nil _ _) rfl).1 overconfident_hasRoom
  have full := (build_marks (vastCells_frames .probability) (List.cons_ne_nil _ _) rfl).2 (vastCells_full _)
  have first : Marked TwoCells.limits (twoCells .probability .one).points ⟨0, 0⟩ :=
    ⟨_, List.mem_cons_self .., by decide +kernel⟩
  refine ⟨?_, ?_, full⟩
  · obtain ⟨m, built⟩ := marks.built_iff.mpr (.inl (by decide +kernel))
    obtain ⟨table, rfl, holds⟩ := marks.holds m built
    exact ⟨table, built, holds.hit _ rfl first, holds.lowest _ rfl (by decide +kernel)⟩
  · cases outcome : overconfident.build with
    | ok m =>
      have sound := blamed.built_iff.mp ⟨m, outcome⟩
      exact absurd sound (by unfold Sound; decide +kernel)
    | error e =>
      obtain ⟨c, rfl, blames⟩ := blamed.blames e outcome
      have row : TwoCells.limits.FirstBad (Marked TwoCells.limits overconfident.points) ⟨0, 0⟩ :=
        Limits.firstBad_of_index (show 0 < TwoCells.limits.cellCount by decide) first (by simp)
      rw [blames.unique row]

theorem not_keepsMarks_vastCells :
    ((vastCells .probability).Frames .vast ∧ (vastCells .probability).points ≠ []) ∧
      ¬ (vastCells .probability).KeepsMarks .vast := by
  have some : (vastCells .probability).points ≠ [] := List.cons_ne_nil _ _
  refine ⟨⟨vastCells_frames _, some⟩, ?_⟩
  intro keeps
  have full := build_full (vastCells_frames .probability) (vastCells_full _) some (by rintro ⟨⟩)
  obtain ⟨c, blamed, _⟩ := keeps.blames _ full
  cases blamed

end MapPlan

namespace Single

variable {x y : Single} {n : Nat}

theorem isFinite_ofInt_count (few : n ≤ greatestCount) : (ofInt n).isFinite = true := by
  have le : n ≤ 2 ^ 64 := Nat.le_trans few (by decide)
  exact isFinite_of_quanta_le (quanta_ofInt_le (n := n) (j := 64) le) (by decide)

theorem ceilCount_range (x : Single) : 1 ≤ x.ceilCount ∧ x.ceilCount ≤ greatestCount := by
  have most : 1 ≤ greatestCount := by decide
  unfold ceilCount
  split
  · exact ⟨Nat.le_refl 1, most⟩
  · split
    · split
      · exact ⟨Nat.le_refl 1, most⟩
      · exact ⟨most, Nat.le_refl _⟩
    · omega

theorem add_sub_error (xFinite : x.isFinite = true) (yFinite : y.isFinite = true)
    (differenceFinite : (y - x).isFinite = true) (finite : (x + (y - x)).isFinite = true) :
    2 ^ 23 * |(x + (y - x)).value - y.value| ≤ |y.value - x.value| + |y.value| := by
  have difference := sub_error yFinite xFinite differenceFinite
  have sum := add_error xFinite differenceFinite finite
  generalize x + (y - x) = s at *
  generalize y - x = d at *
  have whole : (2 : ℚ) ^ 23 * |(s.value - y.value : ℚ)| ≤ |(y.value - x.value : ℚ)| + |(y.value : ℚ)| := by
    have gap : (s.value - y.value : ℚ) =
        (s.value - (x.value + d.value)) + (d.value - (y.value - x.value)) := by ring
    have place : (x.value + d.value : ℚ) = y.value + (d.value - (y.value - x.value)) := by ring
    have steps := abs_add_le (s.value - (x.value + d.value) : ℚ) (d.value - (y.value - x.value))
    have size := abs_add_le (y.value : ℚ) (d.value - (y.value - x.value))
    rw [← gap] at steps
    rw [← place] at size
    linarith [abs_nonneg (y.value - x.value : ℚ), abs_nonneg (y.value : ℚ)]
  exact_mod_cast whole

theorem add_sub_exact (xFinite : x.isFinite = true) (yFinite : y.isFinite = true)
    (differenceFinite : (y - x).isFinite = true) (exact : (y - x).value = y.value - x.value) :
    (x + (y - x)).SameNumber y := by
  obtain ⟨finite, sum⟩ := value_add xFinite differenceFinite yFinite (by omega)
  rw [sameNumber_iff_value finite yFinite]
  omega

-- Coordinates on a grid of which they are few lines apart have a difference that is a number.
theorem value_sub_of_grid {j : Nat} {k m : Int} (xFinite : x.isFinite = true) (yFinite : y.isFinite = true)
    (xLine : x.value = k * 2 ^ j) (yLine : y.value = m * 2 ^ j) (few : (k - m).natAbs ≤ 2 ^ 24)
    (fine : j ≤ 252) : (x - y).value = x.value - y.value := by
  have range : (k - m).natAbs * 2 ^ j < 2 ^ 277 := by
    calc (k - m).natAbs * 2 ^ j ≤ 2 ^ 24 * 2 ^ j := Nat.mul_le_mul_right _ few
      _ = 2 ^ (24 + j) := (Nat.pow_add 2 24 j).symm
      _ < 2 ^ 277 := pow_lt_pow_right₀ (by decide) (by omega)
  obtain ⟨z, finite, sign, quanta⟩ := exists_short few range (decide (k < m))
  have difference : z.value = x.value + (-y).value := by
    rw [value_neg, xLine, yLine, value, sign, quanta]
    push_cast
    by_cases less : k < m
    · rw [decide_eq_true less, if_pos rfl, abs_of_neg (by omega)]
      ring
    · rw [decide_eq_false less, if_neg Bool.false_ne_true, abs_of_nonneg (by omega)]
      ring
  rw [sub_eq_add_neg (isFinite_iff.mp xFinite).1 (isFinite_iff.mp yFinite).1,
    (value_add (y := -y) xFinite yFinite finite difference).2, value_neg]
  ring

end Single

structure Point.SamePlace (p q : Point) : Prop where
  x : p.x.SameNumber q.x
  y : p.y.SameNumber q.y

theorem Limits.cellOf_congr (l : Limits) {p q : Point} (same : p.SamePlace q) : l.cellOf p = l.cellOf q := by
  have origin := Point.isFinite_iff.mp l.origin_finite
  have nonzero := (Single.isPlus_of_pos l.resolution_pos).2
  rw [cellOf, cellOf, Single.place_congr same.x origin.1 l.resolution_finite nonzero,
    Single.place_congr same.y origin.2 l.resolution_finite nonzero]

namespace Wall

variable {w : Wall} {spacing t : Single}

structure Proper (w : Wall) : Prop where
  start : w.start.isFinite = true
  finish : w.finish.isFinite = true
  length : (w.finish - w.start).norm.isFinite = true

-- Where the start and the rounded difference of the ends lead.
def farEnd (w : Wall) : Point := w.start + (w.finish - w.start)

structure Exact (w : Wall) : Prop where
  x : (w.finish.x - w.start.x).value = w.finish.x.value - w.start.x.value
  y : (w.finish.y - w.start.y).value = w.finish.y.value - w.start.y.value

-- On each axis both ends lie on the same lines, and few lines apart.
structure OnGrid (w : Wall) (j : Nat) : Prop where
  x : ∃ k m : Int, w.finish.x.value = k * 2 ^ j ∧ w.start.x.value = m * 2 ^ j ∧ (k - m).natAbs ≤ 2 ^ 24
  y : ∃ k m : Int, w.finish.y.value = k * 2 ^ j ∧ w.start.y.value = m * 2 ^ j ∧ (k - m).natAbs ≤ 2 ^ 24

-- Two roundings away from the finish at most.
structure Near (w : Wall) (p : Point) : Prop where
  x : 2 ^ 23 * |p.x.value - w.finish.x.value| ≤
    |w.finish.x.value - w.start.x.value| + |w.finish.x.value|
  y : 2 ^ 23 * |p.y.value - w.finish.y.value| ≤
    |w.finish.y.value - w.start.y.value| + |w.finish.y.value|

theorem samples_eq (w : Wall) (spacing : Single) :
    ∃ middle, w.samples spacing = w.pointAt .zero :: (middle ++ [w.pointAt .one]) := by
  obtain ⟨least, most⟩ := ((w.finish - w.start).norm / spacing).ceilCount_range
  have finite := Single.isFinite_ofInt_count most
  have nonzero := Single.isZero_ofInt least
  have start : Single.ofInt (0 : Nat) = .zero := by decide +kernel
  have first := Single.zero_div finite nonzero (Single.isPlus_ofInt _)
  have last := Single.div_self finite nonzero
  unfold samples parts
  dsimp only
  generalize ((w.finish - w.start).norm / spacing).ceilCount = count at *
  obtain ⟨k, rfl⟩ : ∃ k, count = k + 1 := ⟨count - 1, by omega⟩
  refine ⟨(List.range k).map fun (i : Nat) => w.pointAt (.ofInt (i + 1 : Nat) / .ofInt (k + 1 : Nat)), ?_⟩
  rw [List.range_succ, List.range_succ_eq_map, List.map_append, List.map_cons, List.map_map, start, first]
  simp only [List.map_cons, List.map_nil, last, List.cons_append]
  rfl

theorem Proper.differences (proper : w.Proper) :
    (w.finish.x - w.start.x).isFinite = true ∧ (w.finish.y - w.start.y).isFinite = true :=
  Single.isFinite_of_hypotenuse proper.length

theorem pointAt_zero (proper : w.Proper) : (w.pointAt .zero).SamePlace w.start := by
  obtain ⟨xFinite, yFinite⟩ := proper.differences
  have start := Point.isFinite_iff.mp proper.start
  have none : Single.zero.isFinite = true := by decide
  exact ⟨Single.add_isZero start.1 (Single.isZero_mul none xFinite (.inl rfl)),
    Single.add_isZero start.2 (Single.isZero_mul none yFinite (.inl rfl))⟩

theorem pointAt_one (proper : w.Proper) : w.pointAt .one = w.farEnd := by
  obtain ⟨xFinite, yFinite⟩ := proper.differences
  rw [pointAt, Single.one_mul_self xFinite, Single.one_mul_self yFinite]
  rfl

theorem OnGrid.exact {j : Nat} (grid : w.OnGrid j) (fine : j ≤ 252) (proper : w.Proper) : w.Exact := by
  have start := Point.isFinite_iff.mp proper.start
  have finish := Point.isFinite_iff.mp proper.finish
  obtain ⟨k, m, xFinish, xStart, xFew⟩ := grid.x
  obtain ⟨k', m', yFinish, yStart, yFew⟩ := grid.y
  exact ⟨Single.value_sub_of_grid finish.1 start.1 xFinish xStart xFew fine,
    Single.value_sub_of_grid finish.2 start.2 yFinish yStart yFew fine⟩

theorem farEnd_samePlace (proper : w.Proper) (exact : w.Exact) : w.farEnd.SamePlace w.finish := by
  obtain ⟨xFinite, yFinite⟩ := proper.differences
  have start := Point.isFinite_iff.mp proper.start
  have finish := Point.isFinite_iff.mp proper.finish
  exact ⟨Single.add_sub_exact start.1 finish.1 xFinite exact.x,
    Single.add_sub_exact start.2 finish.2 yFinite exact.y⟩

theorem farEnd_near (proper : w.Proper) (finite : w.farEnd.isFinite = true) : w.Near w.farEnd := by
  obtain ⟨xFinite, yFinite⟩ := proper.differences
  have start := Point.isFinite_iff.mp proper.start
  have finish := Point.isFinite_iff.mp proper.finish
  have farFinite := Point.isFinite_iff.mp finite
  exact ⟨Single.add_sub_error start.1 finish.1 xFinite farFinite.1,
    Single.add_sub_error start.2 finish.2 yFinite farFinite.2⟩

end Wall

namespace MapPlan

variable {plan : MapPlan} {w : Wall} {p q : Point}

def samplesOf (plan : MapPlan) (w : Wall) : List Point := w.samples (plan.resolution * Limits.half)

def MarksAt (plan : MapPlan) (p : Point) : Prop :=
  ∀ m, plan.build = .ok (.probability m) → m.limits.contains (m.limits.cellOf p) = true →
    m.read (m.limits.cellOf p) = plan.hitProbability

theorem marksAt_of_mem (member : p ∈ plan.points) : plan.MarksAt p := by
  intro m built inside
  obtain ⟨_, holds⟩ := holdsMarks_of_built built
  exact holds.hit _ inside ⟨p, member, rfl⟩

theorem MarksAt.congr (marks : plan.MarksAt p) (same : p.SamePlace q) : plan.MarksAt q := by
  intro m built
  rw [← m.limits.cellOf_congr same]
  exact marks m built

-- A wall is sampled from its start to its far end, which is its finish or near it, and both are marked.
structure Covers (plan : MapPlan) (w : Wall) : Prop where
  ends : ∃ first middle, plan.samplesOf w = first :: (middle ++ [w.farEnd]) ∧ first.SamePlace w.start
  exact : w.Exact → w.farEnd.SamePlace w.finish
  near : w.farEnd.isFinite = true → w.Near w.farEnd
  start : plan.MarksAt w.start
  farEnd : plan.MarksAt w.farEnd
  finish : w.Exact → plan.MarksAt w.finish

theorem mem_points (wall : w ∈ plan.walls) (member : p ∈ plan.samplesOf w) : p ∈ plan.points :=
  List.mem_append_right _ (List.mem_flatMap.mpr ⟨w, wall, member⟩)

theorem points_covered (plan : MapPlan) :
    plan.points = plan.occupied ++ plan.walls.flatMap plan.samplesOf ∧
      ∀ w ∈ plan.walls, w.Proper → plan.Covers w := by
  refine ⟨rfl, ?_⟩
  intro w wall proper
  obtain ⟨middle, samples⟩ := w.samples_eq (plan.resolution * Limits.half)
  rw [Wall.pointAt_one proper] at samples
  have place := Wall.pointAt_zero proper
  have first : plan.MarksAt (w.pointAt .zero) := by
    apply marksAt_of_mem
    exact mem_points wall (by rw [samplesOf, samples]; simp)
  have last : plan.MarksAt w.farEnd := by
    apply marksAt_of_mem
    exact mem_points wall (by rw [samplesOf, samples]; simp)
  exact {
    ends := ⟨_, middle, samples, place⟩
    exact := Wall.farEnd_samePlace proper
    near := Wall.farEnd_near proper
    start := first.congr place
    farEnd := last
    finish := fun exact => last.congr (Wall.farEnd_samePlace proper exact) }

def twoMiddles : Wall := ⟨⟨Limits.half, Limits.half⟩, ⟨.ofFraction 3 2, Limits.half⟩⟩

def walled : MapPlan := { twoCells .probability .one with occupied := [], walls := [twoMiddles] }

theorem points_covered_walled :
    twoMiddles ∈ walled.walls ∧ twoMiddles.Proper ∧ twoMiddles.Exact ∧ walled.Covers twoMiddles ∧
      walled.MarksAt twoMiddles.finish := by
  have wall : twoMiddles ∈ walled.walls := List.mem_cons_self ..
  have proper : twoMiddles.Proper := ⟨by decide +kernel, by decide +kernel, by decide +kernel⟩
  have grid : twoMiddles.OnGrid 148 :=
    ⟨⟨3, 1, by decide +kernel, by decide +kernel, by decide⟩,
      ⟨1, 1, by decide +kernel, by decide +kernel, by decide⟩⟩
  have exact := grid.exact (by decide) proper
  have covers := (points_covered walled).2 twoMiddles wall proper
  exact ⟨wall, proper, exact, covers, covers.finish exact⟩

-- Each wall is sampled from its start to its finish, and both are marked.
def SampledEndToEnd (plan : MapPlan) : Prop :=
  ∀ w ∈ plan.walls, w.Proper →
    (∃ first middle last, plan.samplesOf w = first :: (middle ++ [last]) ∧
      first.SamePlace w.start ∧ last.SamePlace w.finish) ∧
    plan.MarksAt w.start ∧ plan.MarksAt w.finish

-- Down from 1.25 meters to just below half a meter, on twelve cells of half a meter. The difference is rounded
-- to three quarters of a meter, and the sampling ends at half a meter.
def shortWall : Wall :=
  ⟨⟨.ofFraction 5 4, .ofFraction 5 4⟩, ⟨.ofFraction 5 4, .ofFraction (2 ^ 24 - 1) (2 ^ 25)⟩⟩

def shortOfTheEnd : MapPlan := { walled with
  resolution := Limits.half
  origin := ⟨.one, .zero⟩
  columns := 4
  rows := 3
  walls := [shortWall] }

theorem shortOfTheEnd_frames : shortOfTheEnd.Frames .twelveCells := ⟨rfl, rfl, rfl, rfl⟩

theorem shortOfTheEnd_misses :
    ∃ m, shortOfTheEnd.build = .ok (.probability m) ∧
      m.limits.contains (m.limits.cellOf shortWall.finish) = true ∧
      m.read (m.limits.cellOf shortWall.finish) = ProbabilityMap.lowest := by
  have some : shortOfTheEnd.points ≠ [] := by decide +kernel
  have crowd : shortOfTheEnd.pointCount * 8 ≤ mostBytes := by decide +kernel
  have proper : shortOfTheEnd.hitProbability.isProbability = true := by decide +kernel
  have room : Limits.twelveCells.cellCount * 4 ≤ mostBytes := by decide
  have sound (index : Nat) (_ : Met .twelveCells shortOfTheEnd.points index) := proper
  obtain ⟨m, made, limits, cells⟩ := probabilityMap_passed room sound
  have inside : Limits.twelveCells.contains (Limits.twelveCells.cellOf shortWall.finish) = true := by
    decide +kernel
  have unmarked :
      ¬ Marked .twelveCells shortOfTheEnd.points (Limits.twelveCells.cellOf shortWall.finish) := by
    decide +kernel
  refine ⟨m, ?_, ?_, ?_⟩
  · rw [build_framed crowd shortOfTheEnd_frames some]
    change ((probabilityMap .twelveCells _ _).mapError _).map _ = _
    rw [made]
    rfl
  · rw [limits, inside]
  · rw [limits, read_marks limits cells inside, if_neg unmarked]

theorem not_sampledEndToEnd_shortOfTheEnd :
    (∃ l, shortOfTheEnd.Frames l) ∧ shortWall ∈ shortOfTheEnd.walls ∧ shortWall.Proper ∧
      ¬ shortOfTheEnd.SampledEndToEnd := by
  have wall : shortWall ∈ shortOfTheEnd.walls := List.mem_cons_self ..
  have proper : shortWall.Proper := ⟨by decide +kernel, by decide +kernel, by decide +kernel⟩
  refine ⟨⟨_, shortOfTheEnd_frames⟩, wall, proper, ?_⟩
  intro sampled
  obtain ⟨_, _, finish⟩ := sampled _ wall proper
  obtain ⟨m, built, inside, missed⟩ := shortOfTheEnd_misses
  have marked := finish m built inside
  rw [missed] at marked
  exact absurd marked (by decide +kernel)

end MapPlan

end ScanAlign
