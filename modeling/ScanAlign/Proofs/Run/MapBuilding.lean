import ScanAlign.Proofs.Map.Filling
import ScanAlign.Proofs.Match.ReachedCells
import ScanAlign.Proofs.Match.ScoreRange
import ScanAlign.Proofs.Run.MapTables

namespace ScanAlign

variable {l : Limits} {hit t : Single} {points : List Point} {index : Nat}

def Map.kind : Map → MapKind
  | probability _ => .probability
  | distance _ => .distance

namespace MapPlan

variable {plan : MapPlan} {e : RunError}

theorem probabilityMap_passed (room : l.cellCount * 4 ≤ mostBytes)
    (sound : ∀ index, Met l points index → hit.isProbability = true) :
    ∃ m, probabilityMap l hit points = .ok m ∧ m.limits = l ∧ m.cells = marks l hit points := by
  have entries : ∀ p ∈ marks l hit points, p.isProbability = true := by
    intro p member
    obtain ⟨index, found⟩ := Array.mem_iff_getElem?.mp member
    have inside : index < l.cellCount := by
      obtain ⟨inside, _⟩ := Array.getElem?_eq_some_iff.mp found
      rwa [size_marks] at inside
    rw [getElem?_marks inside] at found
    cases found
    split
    · rename_i met
      exact sound index met
    · decide +kernel
  have made := ProbabilityMap.ofTable_sound size_marks entries
  refine ⟨⟨l, marks l hit points, size_marks, entries⟩, ?_, rfl, rfl⟩
  simp only [probabilityMap, marked_eq room, Except.mapError, bind, Except.bind, made]

theorem probabilityMap_failed (room : l.cellCount * 4 ≤ mostBytes)
    (bad : hit.isProbability = false) (met : Met l points index)
    (first : ∀ before < index, ¬ Met l points before) :
    probabilityMap l hit points = .error (.rejected (.cell (l.cellAt index) .probabilityRange)) := by
  have entry {i : Nat} (inside : i < (marks l hit points).size) :
      (marks l hit points)[i] = if Met l points i then hit else ProbabilityMap.lowest := by
    have found : (marks l hit points)[i]? = _ := getElem?_marks (size_marks ▸ inside)
    rwa [Array.getElem?_eq_getElem inside, Option.some.injEq] at found
  have found : (marks l hit points).findIdx? (fun p => !p.isProbability) = some index := by
    have inside : index < (marks l hit points).size := by
      rw [size_marks]
      exact met.inside
    refine Array.findIdx?_eq_some_iff_getElem.mpr ⟨inside, ?_, ?_⟩
    · rw [entry inside, if_pos met, bad]
      rfl
    · intro before less
      rw [entry (Nat.lt_trans less inside), if_neg (first before less)]
      decide +kernel
  have made := ProbabilityMap.ofTable_failed size_marks found
  simp only [probabilityMap, marked_eq room, Except.mapError, bind, Except.bind, made]

-- A hit probability out of range that is used somewhere is used at a first cell.
theorem exists_first_met (unsound : ¬ ∀ index, Met l points index → hit.isProbability = true) :
    hit.isProbability = false ∧
      ∃ index, Met l points index ∧ ∀ before < index, ¬ Met l points before := by
  rw [not_forall] at unsound
  obtain ⟨index, bad⟩ := unsound
  rw [Classical.not_imp, Bool.not_eq_true] at bad
  have met : ∃ index, Met l points index := ⟨index, bad.1⟩
  exact ⟨bad.2, Nat.find met, Nat.find_spec met, fun _ => Nat.find_min met⟩

-- So far below zero that its reach has no opposite among the whole numbers of 32 bits.
def ReachesTooFar (l : Limits) (truncation : Single) : Prop :=
  truncation / l.resolution ≤ .ofInt Single.leastWhole

theorem reach_overflows (room : l.cellCount * 4 ≤ mostBytes) (far : ReachesTooFar l t) :
    reach l t = .error .overflow := by
  have least := Single.ceilWhole_eq_leastWhole_iff.mpr far
  simp only [reach, reserve_eq_ok_iff.mpr room, bind, Except.bind, least]
  rfl

theorem reach_fits (room : l.cellCount * 4 ≤ mostBytes) (near : ¬ ReachesTooFar l t) :
    reach l t = .ok (t / l.resolution).ceilWhole := by
  have above : (t / l.resolution).ceilWhole ≠ Single.leastWhole := by
    intro least
    exact near (Single.ceilWhole_eq_leastWhole_iff.mp least)
  have range := (t / l.resolution).ceilWhole_range
  have fits : Single.leastWhole ≤ -(t / l.resolution).ceilWhole ∧
      -(t / l.resolution).ceilWhole ≤ Single.greatestWhole := by
    simp only [Single.leastWhole, Single.greatestWhole] at *
    omega
  simp only [reach, reserve_eq_ok_iff.mpr room, bind, Except.bind, checked, if_pos fits]
  rfl

theorem not_reachesTooFar (positive : t.isTruncation = true) : ¬ ReachesTooFar l t := by
  intro far
  have below := Single.le_iff.mp far
  have tPlus := Single.isPlus_of_isTruncation positive
  have plus : (t / l.resolution).IsPlus :=
    tPlus.div (Single.isPlus_of_pos l.resolution_pos).1 below.1
  have floor : (Single.ofInt Single.leastWhole).position < 0 := by decide +kernel
  have le := below.2.2
  rw [plus.position_eq] at le
  omega

theorem room_of_map (room : l.cellCount * 8 ≤ mostBytes) : l.cellCount * 4 ≤ mostBytes := by omega

theorem distanceMap_overflows (room : l.cellCount * 8 ≤ mostBytes) (far : ReachesTooFar l t) :
    distanceMap l t points = .error (.fault .overflow) := by
  simp only [distanceMap, reach_overflows (room_of_map room) far, Except.mapError, bind, Except.bind]

theorem distanceMap_refused (room : l.cellCount * 8 ≤ mostBytes) (near : ¬ ReachesTooFar l t)
    (bad : t.isTruncation = false) :
    distanceMap l t points = .error (.rejected (.setting .truncation)) := by
  simp only [distanceMap, reach_fits (room_of_map room) near, Except.mapError, bind, Except.bind, bad,
    Bool.false_eq_true, if_false]

theorem distanceMap_passed (room : l.cellCount * 8 ≤ mostBytes) (positive : t.isTruncation = true)
    (points : List Point) : ∃ m, distanceMap l t points = .ok m ∧ m.limits = l ∧ m.truncation = t ∧
      m.cells = l.table fun c => DistanceMap.cutOff t
        (reading l t (distances l t (t / l.resolution).ceilWhole points) c) := by
  have number := DistanceMap.not_isNaN_of_isTruncation positive
  have numbers := distances_numbers (l := l) number (t / l.resolution).ceilWhole points
  obtain ⟨m, made, filled⟩ := DistanceMap.ofFunction_sound positive
    (reserve_eq_ok_iff.mpr room) fun c _ => defect?_reading number numbers c
  refine ⟨m, ?_, filled⟩
  simp only [distanceMap, reach_fits (room_of_map room) (not_reachesTooFar positive), Except.mapError,
    bind, Except.bind, positive, if_true]
  exact made

theorem probabilityMap_full (full : ¬ l.cellCount * 4 ≤ mostBytes) :
    probabilityMap l hit points = .error (.fault .capacity) := by
  simp only [probabilityMap, marked, reserve_full full, Except.mapError, bind, Except.bind]

-- The table of distances may have room where the map, twice as large, has none.
theorem distanceMap_full (full : ¬ l.cellCount * 8 ≤ mostBytes) (positive : t.isTruncation = true) :
    distanceMap l t points = .error (.fault .capacity) := by
  by_cases half : l.cellCount * 4 ≤ mostBytes
  · simp only [distanceMap, reach_fits half (not_reachesTooFar positive), Except.mapError, bind,
      Except.bind, positive, if_true]
    exact DistanceMap.ofFunction_full positive (reserve_full full)
  · simp only [distanceMap, reach, reserve_full half, Except.mapError, bind, Except.bind]

structure Frames (plan : MapPlan) (l : Limits) : Prop where
  origin : l.origin = plan.origin
  resolution : l.resolution = plan.resolution
  columns : l.columns = plan.columns
  rows : l.rows = plan.rows

def IsCellSize (size : Single) : Prop := size.isFinite = true ∧ Single.zero < size

def IsCount (n : Nat) : Prop := 0 < n ∧ n < 2 ^ 31

-- What is wrong with a plan, and what is answered; what comes first in the list is blamed.
inductive Refused (plan : MapPlan) : RunError → Prop
  | resolution (bad : ¬ IsCellSize plan.resolution) :
      Refused plan (.failure (.rejected (.resolution plan.resolution)))
  | origin (sized : IsCellSize plan.resolution) (bad : plan.origin.isFinite = false) :
      Refused plan (.failure (.rejected (.notFinite .mapOrigin)))
  | dimensions (sized : IsCellSize plan.resolution) (placed : plan.origin.isFinite = true)
      (bad : ¬ (IsCount plan.columns ∧ IsCount plan.rows)) :
      Refused plan (.failure (.rejected (.dimensions plan.columns plan.rows)))
  | points {l : Limits} (frames : plan.Frames l) (none : plan.points = []) : Refused plan .noPoints
  | truncation {l : Limits} (frames : plan.Frames l) (some : plan.points ≠ [])
      (kind : plan.kind = .distance) (bad : plan.truncation.isTruncation = false) :
      Refused plan (.failure (.rejected (.setting .truncation)))
  | hit {l : Limits} {index : Nat} (frames : plan.Frames l) (kind : plan.kind = .probability)
      (bad : plan.hitProbability.isProbability = false) (met : Met l plan.points index)
      (first : ∀ before < index, ¬ Met l plan.points before) :
      Refused plan (.failure (.rejected (.cell (l.cellAt index) .probabilityRange)))

-- The slip: the reach of the truncation distance is negated before its check.
structure Overflows (plan : MapPlan) : Prop where
  frames : ∃ l, plan.Frames l ∧ ReachesTooFar l plan.truncation
  some : plan.points ≠ []
  kind : plan.kind = .distance

def HasRoom (plan : MapPlan) : Prop :=
  ∀ l, plan.Frames l →
    plan.pointCount * 8 ≤ mostBytes ∧ l.cellCount * plan.kind.cellBytes ≤ mostBytes

theorem frames_iff :
    Limits.make plan.origin plan.resolution plan.columns plan.rows = .ok l ↔ plan.Frames l := by
  rw [Limits.make_eq_ok_iff]
  exact ⟨fun ⟨origin, resolution, columns, rows⟩ => ⟨origin, resolution, columns, rows⟩,
    fun frames => ⟨frames.origin, frames.resolution, frames.columns, frames.rows⟩⟩

theorem Frames.make (frames : plan.Frames l) :
    Limits.make plan.origin plan.resolution plan.columns plan.rows = .ok l := frames_iff.mpr frames

theorem Frames.unique {l' : Limits} (one : plan.Frames l) (two : plan.Frames l') : l = l' :=
  Except.ok.inj (one.make.symm.trans two.make)

theorem HasRoom.marks (room : plan.HasRoom) (frames : plan.Frames l) (kind : plan.kind = .probability) :
    l.cellCount * 4 ≤ mostBytes := by
  have cells := (room l frames).2
  rwa [kind] at cells

theorem HasRoom.readings (room : plan.HasRoom) (frames : plan.Frames l) (kind : plan.kind = .distance) :
    l.cellCount * 8 ≤ mostBytes := by
  have cells := (room l frames).2
  rwa [kind] at cells

theorem Frames.hasRoom_iff (frames : plan.Frames l) :
    plan.HasRoom ↔
      plan.pointCount * 8 ≤ mostBytes ∧ l.cellCount * plan.kind.cellBytes ≤ mostBytes := by
  constructor
  · intro room
    exact room l frames
  · rintro room l' frames'
    rwa [← frames.unique frames']

theorem frames_cases (plan : MapPlan) :
    (∃ l, plan.Frames l) ∨ ∃ reason, plan.Refused (.failure (.rejected reason)) := by
  by_cases sized : IsCellSize plan.resolution
  · cases placed : plan.origin.isFinite with
    | false => exact .inr ⟨_, .origin sized placed⟩
    | true =>
      by_cases counted : IsCount plan.columns ∧ IsCount plan.rows
      · exact .inl ⟨⟨plan.origin, plan.resolution, plan.columns, plan.rows, sized.1, sized.2, placed,
          counted.1.1, counted.1.2, counted.2.1, counted.2.2⟩, rfl, rfl, rfl, rfl⟩
      · exact .inr ⟨_, .dimensions sized placed counted⟩
  · exact .inr ⟨_, .resolution sized⟩

theorem build_unframed {reason : Rejection}
    (made : Limits.make plan.origin plan.resolution plan.columns plan.rows = .error reason) :
    plan.build = .error (.failure (.rejected reason)) := by
  simp only [build, made, Except.mapError, bind, Except.bind]

theorem build_empty (frames : plan.Frames l) (none : plan.points = []) :
    plan.build = .error .noPoints := by
  have room : plan.pointCount * 8 ≤ mostBytes := by
    rw [← length_points, none]
    decide
  simp only [build, frames.make, reserve_eq_ok_iff.mpr room, none, List.isEmpty_nil,
    Except.mapError, bind, Except.bind, if_true]

theorem build_framed (room : plan.pointCount * 8 ≤ mostBytes) (frames : plan.Frames l)
    (some : plan.points ≠ []) :
    plan.build = match plan.kind with
      | .probability =>
        ((probabilityMap l plan.hitProbability plan.points).mapError .failure).map .probability
      | .distance => ((distanceMap l plan.truncation plan.points).mapError .failure).map .distance := by
  simp only [build, frames.make, reserve_eq_ok_iff.mpr room, List.isEmpty_eq_false_iff.mpr some,
    Except.mapError, bind, Except.bind, Bool.false_eq_true, if_false]
  cases plan.kind with
  | probability => cases probabilityMap l plan.hitProbability plan.points <;> rfl
  | distance => cases distanceMap l plan.truncation plan.points <;> rfl

theorem build_crowded (frames : plan.Frames l) (full : ¬ plan.pointCount * 8 ≤ mostBytes) :
    plan.build = .error (.failure (.fault .capacity)) := by
  simp only [build, frames.make, reserve_full full, Except.mapError, bind, Except.bind]

theorem build_probability {m : ProbabilityMap} (built : plan.build = .ok (.probability m)) :
    ∃ l, plan.Frames l ∧ probabilityMap l plan.hitProbability plan.points = .ok m := by
  cases framed : Limits.make plan.origin plan.resolution plan.columns plan.rows with
  | error reason =>
    rw [build_unframed framed] at built
    cases built
  | ok l =>
    have frames := frames_iff.mp framed
    by_cases room : plan.pointCount * 8 ≤ mostBytes
    · by_cases none : plan.points = []
      · rw [build_empty frames none] at built
        cases built
      · rw [build_framed room frames none] at built
        cases kind : plan.kind with
        | probability =>
          rw [kind] at built
          cases made : probabilityMap l plan.hitProbability plan.points with
          | error failure =>
            rw [made] at built
            cases built
          | ok table =>
            rw [made] at built
            cases built
            exact ⟨l, frames, made⟩
        | distance =>
          rw [kind] at built
          cases made : distanceMap l plan.truncation plan.points <;> rw [made] at built <;> cases built
    · rw [build_crowded frames room] at built
      cases built

theorem build_full (frames : plan.Frames l) (full : ¬ plan.HasRoom) (some : plan.points ≠ [])
    (positive : plan.kind = .distance → plan.truncation.isTruncation = true) :
    plan.build = .error (.failure (.fault .capacity)) := by
  rw [frames.hasRoom_iff, Classical.not_and_iff_not_or_not] at full
  by_cases room : plan.pointCount * 8 ≤ mostBytes
  · have cells := full.resolve_left (not_not_intro room)
    rw [build_framed room frames some]
    cases kind : plan.kind with
    | probability =>
      rw [kind] at cells
      simp only [probabilityMap_full cells, Except.mapError, Except.map]
    | distance =>
      rw [kind] at cells
      simp only [distanceMap_full cells (positive kind), Except.mapError, Except.map]
  · exact build_crowded frames room

def listing (plan : MapPlan) (occupied : List Point) (walls : List Wall) : MapPlan :=
  { plan with occupied := occupied, walls := walls }

section
variable {occupied : List Point} {walls : List Wall}

@[simp] theorem listing_kind : (plan.listing occupied walls).kind = plan.kind := rfl

@[simp] theorem listing_hitProbability :
    (plan.listing occupied walls).hitProbability = plan.hitProbability := rfl

@[simp] theorem listing_truncation : (plan.listing occupied walls).truncation = plan.truncation := rfl

end

-- The outcome does not tell apart lists with the same points in them.
def SeesOnlyTheSet (plan : MapPlan) : Prop :=
  ∀ occupied walls, (plan.listing occupied walls).HasRoom →
    (∀ p, p ∈ (plan.listing occupied walls).points ↔ p ∈ plan.points) →
    (plan.listing occupied walls).build = plan.build

theorem Frames.listing (frames : plan.Frames l) (occupied : List Point) (walls : List Wall) :
    (plan.listing occupied walls).Frames l :=
  ⟨frames.origin, frames.resolution, frames.columns, frames.rows⟩

theorem seesOnlyTheSet_of_alike (room : plan.HasRoom) (frames : plan.Frames l) (some : plan.points ≠ [])
    (alike : ∀ others, (∀ p, p ∈ others ↔ p ∈ plan.points) →
      (plan.kind = .probability →
        probabilityMap l plan.hitProbability others = probabilityMap l plan.hitProbability plan.points) ∧
      (plan.kind = .distance →
        distanceMap l plan.truncation others = distanceMap l plan.truncation plan.points)) :
    plan.SeesOnlyTheSet := by
  intro occupied walls otherRoom same
  have frames' := frames.listing occupied walls
  have some' : (plan.listing occupied walls).points ≠ [] := by
    obtain ⟨p, member⟩ := List.exists_mem_of_ne_nil _ some
    exact List.ne_nil_of_mem ((same p).mpr member)
  obtain ⟨probability, distance⟩ := alike _ same
  rw [build_framed (otherRoom _ frames').1 frames' some', build_framed (room _ frames).1 frames some]
  cases kind : plan.kind with
  | probability => simp only [listing_kind, listing_hitProbability, kind, probability kind]
  | distance => simp only [listing_kind, listing_truncation, kind, distance kind]

theorem build_overflows (room : plan.HasRoom) (overflows : plan.Overflows) :
    plan.build = .error (.failure (.fault .overflow)) := by
  obtain ⟨⟨l, frames, far⟩, some, kind⟩ := overflows
  rw [build_framed (room _ frames).1 frames some, kind]
  simp only [distanceMap_overflows (room.readings frames kind) far, Except.mapError, Except.map]

theorem build_refused (room : plan.HasRoom) (fits : ¬ plan.Overflows) (refused : plan.Refused e) :
    plan.build = .error e := by
  cases refused with
  | resolution bad =>
    apply build_unframed
    exact dif_neg bad
  | origin sized bad =>
    apply build_unframed
    exact (dif_pos sized).trans (dif_neg (Bool.eq_false_iff.mp bad))
  | dimensions sized placed bad =>
    apply build_unframed
    exact (dif_pos sized).trans ((dif_pos placed).trans (dif_neg bad))
  | points frames none => exact build_empty frames none
  | @truncation l frames some kind bad =>
    have near : ¬ ReachesTooFar l plan.truncation := by
      intro far
      exact fits ⟨⟨l, frames, far⟩, some, kind⟩
    rw [build_framed (room _ frames).1 frames some, kind]
    simp only [distanceMap_refused (room.readings frames kind) near bad, Except.mapError, Except.map]
  | @hit l index frames kind bad met first =>
    have some : plan.points ≠ [] := by
      obtain ⟨p, member, _⟩ := met
      exact List.ne_nil_of_mem member
    rw [build_framed (room _ frames).1 frames some, kind]
    simp only [probabilityMap_failed (room.marks frames kind) bad met first, Except.mapError, Except.map]

structure Built (plan : MapPlan) (m : Map) : Prop where
  built : plan.build = .ok m
  kind : m.kind = plan.kind
  frames : plan.Frames m.limits

theorem build_cases (room : plan.HasRoom) :
    (∃ e, plan.Refused e) ∨ plan.Overflows ∨ ∃ m, plan.Built m := by
  rcases plan.frames_cases with ⟨l, frames⟩ | ⟨reason, refused⟩
  · by_cases none : plan.points = []
    · exact .inl ⟨_, .points frames none⟩
    cases kind : plan.kind with
    | probability =>
      by_cases sound : ∀ index, Met l plan.points index → plan.hitProbability.isProbability = true
      · obtain ⟨m, made, rfl, _⟩ := probabilityMap_passed (room.marks frames kind) sound
        refine .inr (.inr ⟨.probability m, ?_, kind.symm, frames⟩)
        rw [build_framed (room _ frames).1 frames none, kind]
        simp only [made, Except.mapError, Except.map]
      · obtain ⟨bad, index, met, first⟩ := exists_first_met sound
        exact .inl ⟨_, .hit frames kind bad met first⟩
    | distance =>
      by_cases far : ReachesTooFar l plan.truncation
      · exact .inr (.inl ⟨⟨l, frames, far⟩, none, kind⟩)
      cases positive : plan.truncation.isTruncation with
      | false => exact .inl ⟨_, .truncation frames none kind positive⟩
      | true =>
        obtain ⟨m, made, rfl, _⟩ := distanceMap_passed (room.readings frames kind) positive plan.points
        refine .inr (.inr ⟨.distance m, ?_, kind.symm, frames⟩)
        rw [build_framed (room _ frames).1 frames none, kind]
        simp only [made, Except.mapError, Except.map]
  · exact .inl ⟨_, refused⟩

theorem Overflows.refused (overflows : plan.Overflows) :
    plan.Refused (.failure (.rejected (.setting .truncation))) := by
  obtain ⟨⟨l, frames, far⟩, some, kind⟩ := overflows
  refine .truncation frames some kind (Bool.eq_false_iff.mpr ?_)
  intro positive
  exact not_reachesTooFar positive far

-- The answer is the first failed check, or else a map.
def BuildsAsChecked (plan : MapPlan) : Prop :=
  (∀ e, plan.build = .error e ↔ plan.Refused e) ∧ ((∀ e, ¬ plan.Refused e) → ∃ m, plan.Built m)

theorem build_outcome (plan : MapPlan) (room : plan.HasRoom) :
    (¬ plan.Overflows → plan.BuildsAsChecked) ∧
      (plan.Overflows → plan.build = .error (.failure (.fault .overflow)) ∧
        plan.Refused (.failure (.rejected (.setting .truncation)))) := by
  refine ⟨?_, fun overflows => ⟨build_overflows room overflows, overflows.refused⟩⟩
  intro fits
  refine ⟨?_, ?_⟩
  · intro e
    refine ⟨?_, build_refused room fits⟩
    intro failed
    rcases build_cases room with ⟨other, refused⟩ | overflows | ⟨m, built⟩
    · have same := build_refused room fits refused
      rw [failed] at same
      cases same
      exact refused
    · exact absurd overflows fits
    · rw [built.built] at failed
      cases failed
  · intro unrefused
    rcases build_cases room with ⟨e, refused⟩ | overflows | built
    · exact absurd refused (unrefused e)
    · exact absurd overflows fits
    · exact built

def twoCells (kind : MapKind) (truncation : Single) : MapPlan where
  kind := kind
  resolution := .one
  origin := ⟨.zero, .zero⟩
  columns := 2
  rows := 1
  hitProbability := ProbabilityMap.highest
  truncation := truncation
  walls := []
  occupied := [⟨Limits.half, Limits.half⟩]

theorem twoCells_frames (kind : MapKind) (truncation : Single) :
    (twoCells kind truncation).Frames TwoCells.limits := ⟨rfl, rfl, rfl, rfl⟩

theorem twoCells_hasRoom (kind : MapKind) (truncation : Single) :
    (twoCells kind truncation).HasRoom := by
  intro l frames
  rw [Limits.cellCount, frames.columns, frames.rows]
  refine ⟨show 1 * 8 ≤ mostBytes by decide, ?_⟩
  cases kind with
  | probability => exact show 2 * 1 * 4 ≤ mostBytes by decide
  | distance => exact show 2 * 1 * 8 ≤ mostBytes by decide

-- As many cells as a map can have, a point in the middle of the first, and a hit probability of two.
def vastCells (kind : MapKind) : MapPlan where
  kind := kind
  resolution := Limits.half
  origin := ⟨.one, .zero⟩
  columns := 2147483647
  rows := 2147483647
  hitProbability := .ofInt 2
  truncation := Limits.half
  walls := []
  occupied := [⟨.ofFraction 5 4, .ofFraction 1 4⟩]

theorem vastCells_frames (kind : MapKind) : (vastCells kind).Frames Limits.vast := ⟨rfl, rfl, rfl, rfl⟩

theorem vastCells_full (kind : MapKind) : ¬ (vastCells kind).HasRoom := by
  rw [(vastCells_frames kind).hasRoom_iff]
  rintro ⟨_, cells⟩
  cases kind <;> exact absurd cells (by decide)

theorem twoCells_unrefused (positive : t.isTruncation = true) :
    ¬ (twoCells .distance t).Refused e := by
  intro refused
  cases refused with
  | resolution bad => exact bad ⟨TwoCells.limits.resolution_finite, TwoCells.limits.resolution_pos⟩
  | origin _ bad => exact Bool.eq_false_iff.mp bad TwoCells.limits.origin_finite
  | dimensions _ _ bad =>
    exact bad ⟨⟨TwoCells.limits.columns_pos, TwoCells.limits.columns_lt⟩,
      TwoCells.limits.rows_pos, TwoCells.limits.rows_lt⟩
  | points _ none => cases none
  | truncation _ _ _ bad =>
    change t.isTruncation = false at bad
    rw [positive] at bad
    cases bad
  | hit _ kind => cases kind

theorem twoCells_overflows (far : ReachesTooFar TwoCells.limits t) :
    (twoCells .distance t).Overflows :=
  ⟨⟨_, twoCells_frames _ _, far⟩, List.cons_ne_nil _ _, rfl⟩

def threeBillionBelow : Single := .ofInt (-3000000000)

theorem threeBillionBelow_far : ReachesTooFar TwoCells.limits threeBillionBelow := by
  unfold ReachesTooFar
  decide +kernel

theorem build_outcome_twoCells :
    (∃ m, (twoCells .distance .one).Built m) ∧
      (twoCells .distance threeBillionBelow).build = .error (.failure (.fault .overflow)) := by
  have unrefused (e : RunError) : ¬ (twoCells .distance .one).Refused e :=
    twoCells_unrefused TwoCells.one_isTruncation
  have fits : ¬ (twoCells .distance .one).Overflows := by
    intro overflows
    exact unrefused _ overflows.refused
  have overflows := twoCells_overflows threeBillionBelow_far
  exact ⟨((build_outcome _ (twoCells_hasRoom _ _)).1 fits).2 unrefused,
    ((build_outcome _ (twoCells_hasRoom _ _)).2 overflows).1⟩

-- The truncation distance is to blame, and instead the run stops.
theorem not_buildsAsChecked_twoCells :
    ¬ (twoCells .distance threeBillionBelow).BuildsAsChecked := by
  intro builds
  have overflows := twoCells_overflows threeBillionBelow_far
  have blamed := (builds.1 _).mpr overflows.refused
  rw [build_overflows (twoCells_hasRoom _ _) overflows] at blamed
  cases blamed

end MapPlan

end ScanAlign
