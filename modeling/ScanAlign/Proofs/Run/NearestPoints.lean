import ScanAlign.Proofs.Run.MapBuilding

namespace ScanAlign

namespace MapPlan

variable {l : Limits} {t before d d' : Single} {reach : Int} {points others seen : List Point} {p : Point}
  {c : Cell} {table : Array Single} {index : Nat}

-- The cell of the point is at most `reach` cells away on each axis.
structure Within (l : Limits) (reach : Int) (p : Point) (c : Cell) : Prop where
  x : ((c.x - (l.cellOf p).x).natAbs : Int) ≤ reach
  y : ((c.y - (l.cellOf p).y).natAbs : Int) ≤ reach

instance : Decidable (Within l reach p c) :=
  decidable_of_iff (((c.x - (l.cellOf p).x).natAbs : Int) ≤ reach ∧
    ((c.y - (l.cellOf p).y).natAbs : Int) ≤ reach) ⟨fun h => ⟨h.1, h.2⟩, fun h => ⟨h.x, h.y⟩⟩

def distanceTo (l : Limits) (c : Cell) (p : Point) : Single := (l.center c - p).norm

def neighbours (l : Limits) (reach : Int) (p : Point) : List Cell :=
  (around l reach (l.cellOf p)).shifts.map fun s => (l.cellOf p).shift s.1 s.2

-- On the map no shift is cut off, and the shifts that are left out lead off the map.
theorem mem_neighbours_iff (inside : l.contains c = true) :
    c ∈ neighbours l reach p ↔ Within l reach p c := by
  obtain ⟨⟨left, right⟩, low, high⟩ := Limits.contains_iff.mp inside
  simp only [neighbours, List.mem_map, Prod.exists, Window.mem_shifts, Window.Allows, around]
  constructor
  · rintro ⟨dx, dy, allowed, rfl⟩
    have whole := Limits.shift_eq_moved inside
    rw [whole]
    simp only [Cell.moved] at *
    constructor <;> dsimp only <;> omega
  · rintro ⟨across, along⟩
    have back : (l.cellOf p).moved (c.x - (l.cellOf p).x) (c.y - (l.cellOf p).y) = c := by
      cases c
      simp only [Cell.moved, Cell.mk.injEq]
      omega
    have met : l.contains ((l.cellOf p).shift (c.x - (l.cellOf p).x) (c.y - (l.cellOf p).y)) = true := by
      rwa [Limits.contains_shift_eq, back]
    refine ⟨c.x - (l.cellOf p).x, c.y - (l.cellOf p).y, ?_, (Limits.shift_eq_moved met).trans back⟩
    omega

theorem stamp_eq (l : Limits) (reach : Int) (table : Array Single) (p : Point) :
    stamp l reach table p =
      (neighbours l reach p).foldl (fun table c => lower l c (l.center c - p) table) table := by
  simp only [stamp, neighbours, Window.shifts, List.foldl_map, List.foldl_flatMap]
  rfl

-- What is kept of two distances; one without a value never replaces the other.
def nearer (before d : Single) : Single := if d < before then d else before

theorem nearer_again (before d : Single) : nearer (nearer before d) d = nearer before d := by
  have same : ¬ d < d := fun less => absurd (Single.lt_iff.mp less).2.2 (Int.lt_irrefl _)
  by_cases less : d < before
  · rw [nearer, nearer, if_pos less, if_neg same]
  · rw [nearer, nearer, if_neg less, if_neg less]

theorem lower_meets (found : l.index? c = some index) (entry : table[index]? = some before) (gap : Point) :
    (lower l c gap table)[index]? = some (nearer before gap.norm) := by
  obtain ⟨room, _⟩ := Array.getElem?_eq_some_iff.mp entry
  simp only [lower, found, entry, nearer]
  split
  · exact Array.getElem?_setIfInBounds_self_of_lt room
  · exact entry

theorem lower_misses {other : Cell} (found : l.index? c = some index) (apart : other ≠ c) (gap : Point) :
    (lower l other gap table)[index]? = table[index]? := by
  unfold lower
  cases elsewhere : l.index? other with
  | none => rfl
  | some place =>
    have away : place ≠ index := by
      rintro rfl
      exact apart ((Limits.cellAt_of_index? elsewhere).2.symm.trans (Limits.cellAt_of_index? found).2)
    dsimp only
    split
    · rfl
    · split
      · exact Array.getElem?_setIfInBounds_ne away
      · rfl

variable {cells : List Cell}

theorem foldl_lower_missed (found : l.index? c = some index) (missed : c ∉ cells) :
    (cells.foldl (fun table d => lower l d (l.center d - p) table) table)[index]? = table[index]? := by
  induction cells generalizing table with
  | nil => rfl
  | cons other rest ih =>
    rw [List.mem_cons, not_or] at missed
    rw [List.foldl_cons, ih missed.2, lower_misses found (Ne.symm missed.1)]

theorem foldl_lower_met (found : l.index? c = some index) (entry : table[index]? = some before)
    (met : c ∈ cells) :
    (cells.foldl (fun table d => lower l d (l.center d - p) table) table)[index]? =
      some (nearer before (distanceTo l c p)) := by
  induction cells generalizing table before with
  | nil => cases met
  | cons other rest ih =>
    rw [List.foldl_cons]
    by_cases here : other = c
    · subst here
      have lowered := lower_meets found entry (l.center other - p)
      by_cases later : other ∈ rest
      · rw [ih lowered later]
        exact congrArg some (nearer_again before (distanceTo l other p))
      · rw [foldl_lower_missed found later, lowered]
        rfl
    · have later : c ∈ rest := (List.mem_cons.mp met).resolve_left (Ne.symm here)
      exact ih ((lower_misses found here _).trans entry) later

theorem getElem?_stamp (found : l.index? c = some index) (entry : table[index]? = some before)
    (reach : Int) (p : Point) :
    (stamp l reach table p)[index]? =
      some (if Within l reach p c then nearer before (distanceTo l c p) else before) := by
  have inside := (Limits.index?_eq_some_iff.mp found).1
  rw [stamp_eq]
  split
  · rename_i within
    exact foldl_lower_met found entry ((mem_neighbours_iff inside).mpr within)
  · rename_i beyond
    rw [foldl_lower_missed found (mt (mem_neighbours_iff inside).mp beyond), entry]

-- The least of the limit and of the distances to the points within reach, those that have a value.
structure Nearest (l : Limits) (limit : Single) (reach : Int) (points : List Point) (c : Cell)
    (d : Single) : Prop where
  attained : d = limit ∨ ∃ p ∈ points, Within l reach p c ∧ d = distanceTo l c p
  limited : d ≤ limit
  least : ∀ p ∈ points, Within l reach p c → (distanceTo l c p).isNaN = false → d ≤ distanceTo l c p

theorem Nearest.start (number : t.isNaN = false) : Nearest l t reach [] c t where
  attained := .inl rfl
  limited := Single.le_refl number
  least := by simp

theorem Nearest.far (nearest : Nearest l t reach seen c d) (beyond : ¬ Within l reach p c) :
    Nearest l t reach (seen ++ [p]) c d where
  attained := nearest.attained.imp_right fun ⟨q, member, rest⟩ => ⟨q, List.mem_append_left _ member, rest⟩
  limited := nearest.limited
  least := by
    intro q member within
    rcases List.mem_append.mp member with old | new
    · exact nearest.least q old within
    · rw [List.mem_singleton.mp new] at within
      exact absurd within beyond

theorem Nearest.near (nearest : Nearest l t reach seen c d) (within : Within l reach p c) :
    Nearest l t reach (seen ++ [p]) c (nearer d (distanceTo l c p)) := by
  unfold nearer
  split
  · rename_i less
    have le := Single.le_of_lt less
    refine ⟨.inr ⟨p, by simp, within, rfl⟩, Single.le_trans le nearest.limited, ?_⟩
    intro q member reached number
    rcases List.mem_append.mp member with old | new
    · exact Single.le_trans le (nearest.least q old reached number)
    · rw [List.mem_singleton.mp new] at number ⊢
      exact Single.le_refl number
  · rename_i kept
    have dNumber := (Single.le_iff.mp nearest.limited).1
    refine ⟨?_, nearest.limited, ?_⟩
    · exact nearest.attained.imp_right fun ⟨q, member, rest⟩ => ⟨q, List.mem_append_left _ member, rest⟩
    · intro q member reached number
      rcases List.mem_append.mp member with old | new
      · exact nearest.least q old reached number
      · rw [List.mem_singleton.mp new] at number ⊢
        exact Single.le_of_not_lt dNumber number kept

-- The invariant of the run through the points: `seen` are those that have been held against the cell.
theorem foldl_stamp_nearest (found : l.index? c = some index) (entry : table[index]? = some d)
    (nearest : Nearest l t reach seen c d) :
    ∃ d', (points.foldl (stamp l reach) table)[index]? = some d' ∧
      Nearest l t reach (seen ++ points) c d' := by
  induction points generalizing table d seen with
  | nil => exact ⟨d, entry, by rwa [List.append_nil]⟩
  | cons p rest ih =>
    have stamped := getElem?_stamp found entry reach p
    have next : Nearest l t reach (seen ++ [p]) c
        (if Within l reach p c then nearer d (distanceTo l c p) else d) := by
      split
      · rename_i within
        exact nearest.near within
      · rename_i beyond
        exact nearest.far beyond
    obtain ⟨d', last, whole⟩ := ih stamped next
    exact ⟨d', last, by rwa [List.append_assoc] at whole⟩

theorem distances_nearest (number : t.isNaN = false) (found : l.index? c = some index)
    (reach : Int) (points : List Point) :
    ∃ d, (distances l t reach points)[index]? = some d ∧ Nearest l t reach points c d := by
  have below := (Limits.cellAt_of_index? found).1
  have entry : (Array.replicate l.cellCount t)[index]? = some t := by
    rw [Array.getElem?_replicate, if_pos below]
  exact foldl_stamp_nearest found entry (.start number)

theorem Nearest.congr (nearest : Nearest l t reach points c d) (same : ∀ p, p ∈ points ↔ p ∈ others) :
    Nearest l t reach others c d := by
  obtain ⟨attained, limited, least⟩ := nearest
  simp only [same] at attained least
  exact ⟨attained, limited, least⟩

theorem Nearest.isPlus (nearest : Nearest l t reach points c d) (plus : t.IsPlus) : d.IsPlus := by
  rcases nearest.attained with rfl | ⟨p, _, _, rfl⟩
  · exact plus
  · have number := (Single.le_iff.mp nearest.limited).1
    exact (Single.hypotenuse_cases _ _).resolve_left (Bool.eq_false_iff.mp number)

theorem Nearest.le (one : Nearest l t reach points c d) (two : Nearest l t reach points c d') : d ≤ d' := by
  rcases two.attained with rfl | ⟨p, member, within, rfl⟩
  · exact one.limited
  · exact one.least p member within (Single.le_iff.mp two.limited).1

theorem Nearest.unique (one : Nearest l t reach points c d) (two : Nearest l t reach points c d')
    (plus : t.IsPlus) : d = d' :=
  (one.isPlus plus).eq_of_sameNumber (two.isPlus plus) ⟨one.le two, two.le one⟩

theorem Nearest.clamp_eq (nearest : Nearest l t reach points c d) (plus : t.IsPlus) :
    d.clamp (-t) t = d := by
  have low : -t ≤ Single.zero := by
    refine Single.le_iff.mpr ⟨plus.number, by decide, ?_⟩
    rw [Single.position_neg, plus.position_eq, show Single.zero.position = 0 by decide]
    omega
  exact Single.clamp_of_within (Single.le_trans low (nearest.isPlus plus).zero_le) nearest.limited

theorem reading_nearest (number : t.isNaN = false) (inside : l.contains c = true) (reach : Int)
    (points : List Point) :
    Nearest l t reach points c (reading l t (distances l t reach points) c).distance := by
  have found := Limits.index?_eq_some_iff.mpr ⟨inside, rfl⟩
  obtain ⟨d, entry, nearest⟩ := distances_nearest number found reach points
  simp only [reading, found, Array.getD_eq_getD_getElem?, entry]
  exact nearest

theorem reading_weight (l : Limits) (t : Single) (table : Array Single) (c : Cell) :
    (reading l t table c).weight = .one := by
  unfold reading
  split <;> rfl

theorem reading_congr (plus : t.IsPlus) (same : ∀ p, p ∈ points ↔ p ∈ others) (reach : Int) :
    reading l t (distances l t reach points) = reading l t (distances l t reach others) := by
  funext c
  cases inside : l.contains c with
  | true =>
    have one := reading_nearest plus.number inside reach points
    have two := reading_nearest plus.number inside reach others
    have distance := (one.congr same).unique two plus
    have weight := (reading_weight l t (distances l t reach points) c).trans
      (reading_weight l t (distances l t reach others) c).symm
    exact congrArg₂ Reading.mk distance weight
  | false =>
    have missing : l.index? c = none := by simp [Limits.index?, inside]
    simp only [reading, missing]

theorem distanceMap_congr (positive : t.isTruncation = true) (same : ∀ p, p ∈ points ↔ p ∈ others) :
    distanceMap l t points = distanceMap l t others := by
  have plus := Single.isPlus_of_isTruncation positive
  simp only [distanceMap, reading_congr plus same]

-- Each cell of the map reads the distance to the nearest point within reach, cut off at the truncation
-- distance, as one observation.
structure HoldsNearest (plan : MapPlan) (l : Limits) (m : DistanceMap) : Prop where
  limits : m.limits = l
  truncation : m.truncation = plan.truncation
  nearest : ∀ c, l.contains c = true → Nearest l plan.truncation
    (plan.truncation / l.resolution).ceilWhole plan.points c (m.read c).distance
  weight : ∀ c, l.contains c = true → (m.read c).weight = .one
  range : ∀ c, .zero ≤ (m.read c).distance ∧ (m.read c).distance ≤ plan.truncation

variable {plan : MapPlan}

theorem distanceMap_holdsNearest (room : l.cellCount * 8 ≤ mostBytes)
    (positive : plan.truncation.isTruncation = true) :
    ∃ m, distanceMap l plan.truncation plan.points = .ok m ∧ plan.HoldsNearest l m := by
  obtain ⟨m, made, limits, truncation, cells⟩ := distanceMap_passed room positive plan.points
  have plus := Single.isPlus_of_isTruncation positive
  have read {c : Cell} (inside : l.contains c = true) :=
    (DistanceMap.read_eq limits truncation cells c).trans (if_pos inside)
  have nearest {c : Cell} (inside : l.contains c = true) : Nearest l plan.truncation
      (plan.truncation / l.resolution).ceilWhole plan.points c (m.read c).distance := by
    have nearest := reading_nearest plus.number inside (plan.truncation / l.resolution).ceilWhole plan.points
    rw [read inside]
    dsimp only [DistanceMap.cutOff]
    rwa [nearest.clamp_eq plus]
  refine ⟨m, made, limits, truncation, fun c => nearest, ?_, ?_⟩
  · intro c inside
    rw [read inside]
    exact reading_weight _ _ _ _
  · intro c
    refine ⟨?_, (DistanceMap.read_bounded truncation c).1.2⟩
    cases inside : l.contains c with
    | true => exact ((nearest inside).isPlus plus).zero_le
    | false =>
      rw [DistanceMap.read_eq limits truncation cells c, inside, if_neg Bool.false_ne_true]
      exact plus.zero_le

-- The plan gives a map, and the order and the number of the points have no say in it.
structure KeepsNearest (plan : MapPlan) (l : Limits) : Prop where
  built : ∃ m, plan.build = .ok (.distance m) ∧ plan.HoldsNearest l m
  set : plan.SeesOnlyTheSet

theorem build_nearest (frames : plan.Frames l) (some : plan.points ≠ []) (kind : plan.kind = .distance)
    (positive : plan.truncation.isTruncation = true) :
    (plan.HasRoom → plan.KeepsNearest l) ∧
      (¬ plan.HasRoom → plan.build = .error (.failure (.fault .capacity))) := by
  refine ⟨?_, fun full => build_full frames full some fun _ => positive⟩
  intro room
  constructor
  · obtain ⟨m, made, holds⟩ := distanceMap_holdsNearest (room.readings frames kind) positive
    refine ⟨m, ?_, holds⟩
    rw [build_framed (room _ frames).1 frames some, kind]
    simp only [made, Except.mapError, Except.map]
  · apply seesOnlyTheSet_of_alike room frames some
    intro others same
    refine ⟨?_, fun _ => distanceMap_congr positive same⟩
    rw [kind]
    rintro ⟨⟩

theorem build_nearest_twoCells :
    (∃ m, (twoCells .distance .one).build = .ok (.distance m) ∧ (m.read ⟨0, 0⟩).distance = .zero ∧
        (m.read ⟨0, 0⟩).weight = .one) ∧
      (vastCells .distance).build = .error (.failure (.fault .capacity)) := by
  have held := build_nearest (twoCells_frames .distance .one) (List.cons_ne_nil _ _) rfl (by decide +kernel)
  have full := build_nearest (vastCells_frames .distance) (List.cons_ne_nil _ _) rfl (by decide +kernel)
  refine ⟨?_, full.2 (vastCells_full _)⟩
  obtain ⟨m, built, holds⟩ := (held.1 (twoCells_hasRoom _ _)).built
  refine ⟨m, built, ?_, holds.weight ⟨0, 0⟩ rfl⟩
  have nearest := holds.nearest ⟨0, 0⟩ rfl
  have here : Within TwoCells.limits (Single.one / .one).ceilWhole ⟨Limits.half, Limits.half⟩ ⟨0, 0⟩ := by
    decide +kernel
  have none : distanceTo TwoCells.limits ⟨0, 0⟩ ⟨Limits.half, Limits.half⟩ = .zero := by decide +kernel
  have low := nearest.least _ (List.mem_cons_self ..) here (by rw [none]; decide)
  rw [none] at low
  exact (nearest.isPlus ⟨by decide, rfl⟩).eq_of_sameNumber Single.isPlus_zero ⟨low, (holds.range _).1⟩

theorem not_keepsNearest_vastCells :
    ((vastCells .distance).Frames .vast ∧ (vastCells .distance).points ≠ [] ∧
        (vastCells .distance).truncation.isTruncation = true) ∧
      ¬ (vastCells .distance).KeepsNearest .vast := by
  have positive : (vastCells .distance).truncation.isTruncation = true := by decide +kernel
  have some : (vastCells .distance).points ≠ [] := List.cons_ne_nil _ _
  refine ⟨⟨vastCells_frames _, some, positive⟩, ?_⟩
  rintro ⟨⟨m, built, _⟩, _⟩
  rw [build_full (vastCells_frames _) (vastCells_full _) some fun _ => positive] at built
  cases built

end MapPlan

end ScanAlign
