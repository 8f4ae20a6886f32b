import ScanAlign.Proofs.Map.Indexing
import ScanAlign.Search

namespace ScanAlign

namespace Limits

variable {l : Limits} {c : Cell} {dx dy : Int}

-- A shift that stops at the edge of 32 bits stops outside every map.
theorem contains_shift :
    l.contains (c.shift dx dy) = true ↔
      (0 ≤ c.x + dx ∧ c.x + dx < l.columns) ∧ 0 ≤ c.y + dy ∧ c.y + dy < l.rows := by
  have columns := l.columns_lt
  have rows := l.rows_lt
  simp only [contains_iff, Cell.shift, Single.saturate, Single.leastWhole, Single.greatestWhole]
  omega

theorem shift_zero (inside : l.contains c = true) : l.contains (c.shift 0 0) = true := by
  rw [contains_shift, Int.add_zero, Int.add_zero]
  exact contains_iff.mp inside

end Limits

namespace Window

variable {l : Limits} {w within : Window} {scan : List Cell} {c : Cell} {dx dy : Int}

theorem checked_eq_ok {n : Int} (fits : Single.leastWhole ≤ n ∧ n ≤ Single.greatestWhole) :
    checked n = .ok n := if_pos fits

def Allows (w : Window) (dx dy : Int) : Prop :=
  (w.minX ≤ dx ∧ dx ≤ w.maxX) ∧ w.minY ≤ dy ∧ dy ≤ w.maxY

theorem containsZero_iff : w.containsZero = true ↔ w.Allows 0 0 := by
  simp only [containsZero, Bool.and_eq_true, decide_eq_true_eq, Allows, and_assoc]

theorem allows_centered {n : Int} :
    (centered n).Allows dx dy ↔ (-n ≤ dx ∧ dx ≤ n) ∧ -n ≤ dy ∧ dy ≤ n := Iff.rfl

def narrowed (l : Limits) (w : Window) (c : Cell) : Window :=
  if l.contains c then
    ⟨max w.minX (-c.x), min w.maxX (l.columns - 1 - c.x),
     max w.minY (-c.y), min w.maxY (l.rows - 1 - c.y)⟩
  else w

-- A cell on the map has coordinates below `2 ^ 31`, so its distances to the edges are whole numbers
-- of 32 bits.
theorem keepInside_eq (l : Limits) (w : Window) (c : Cell) :
    keepInside l w c = .ok (narrowed l w c) := by
  unfold keepInside narrowed
  split
  · rename_i inside
    obtain ⟨⟨left, right⟩, down, up⟩ := Limits.contains_iff.mp inside
    have columns := l.columns_lt
    have rows := l.rows_lt
    have fits (n : Int) (low : -0x80000000 ≤ n) (high : n ≤ 0x7fffffff) : checked n = .ok n :=
      checked_eq_ok ⟨low, high⟩
    rw [fits (-c.x) (by omega) (by omega), fits (l.columns - 1 - c.x) (by omega) (by omega),
      fits (-c.y) (by omega) (by omega), fits (l.rows - 1 - c.y) (by omega) (by omega)]
    rfl
  · rfl

def widest (l : Limits) : Window :=
  ⟨-((l.columns : Int) - 1), (l.columns : Int) - 1, -((l.rows : Int) - 1), (l.rows : Int) - 1⟩

def kept (l : Limits) (scan : List Cell) : Window := scan.foldl (narrowed l) (widest l)

theorem keeping_eq (l : Limits) (scan : List Cell) : keeping l scan = .ok (kept l scan) := by
  have whole (w : Window) : scan.foldlM (keepInside l) w = .ok (scan.foldl (narrowed l) w) := by
    induction scan generalizing w with
    | nil => rfl
    | cons c rest ih => rw [List.foldlM_cons, keepInside_eq, List.foldl_cons, ← ih]; rfl
  exact whole (widest l)

theorem clip_zero (w within : Window) : (w.clip within).Allows 0 0 := by
  simp only [Allows, clip]
  omega

theorem fit_eq (l : Limits) (w : Window) (scan : List Cell) :
    fit l w scan = .ok (w.clip (kept l scan)) := by
  have zero : (w.clip (kept l scan)).containsZero = true := containsZero_iff.mpr (clip_zero _ _)
  simp only [fit, keeping_eq, bind, Except.bind, zero, if_true]
  rfl

def Small (l : Limits) (dx dy : Int) : Prop :=
  (-((l.columns : Int) - 1) ≤ dx ∧ dx ≤ l.columns - 1) ∧
    -((l.rows : Int) - 1) ≤ dy ∧ dy ≤ l.rows - 1

def Stays (l : Limits) (scan : List Cell) (dx dy : Int) : Prop :=
  ∀ c ∈ scan, l.contains c = true → l.contains (c.shift dx dy) = true

theorem allows_narrowed :
    (narrowed l w c).Allows dx dy ↔
      w.Allows dx dy ∧ (l.contains c = true → l.contains (c.shift dx dy) = true) := by
  unfold narrowed
  split
  · rename_i inside
    rw [Limits.contains_shift]
    simp only [Allows, inside, true_implies]
    omega
  · rename_i outside
    exact ⟨fun held => ⟨held, fun inside => absurd inside outside⟩, And.left⟩

theorem allows_foldl_narrowed :
    (scan.foldl (narrowed l) w).Allows dx dy ↔ w.Allows dx dy ∧ Stays l scan dx dy := by
  induction scan generalizing w with
  | nil => simp [Stays]
  | cons c rest ih =>
    have parts : Stays l (c :: rest) dx dy ↔
        (l.contains c = true → l.contains (c.shift dx dy) = true) ∧ Stays l rest dx dy :=
      List.forall_mem_cons
    rw [List.foldl_cons, ih, allows_narrowed, parts, and_assoc]

theorem allows_kept : (kept l scan).Allows dx dy ↔ Small l dx dy ∧ Stays l scan dx dy :=
  allows_foldl_narrowed

theorem kept_zero (l : Limits) (scan : List Cell) : (kept l scan).Allows 0 0 := by
  have columns := l.columns_pos
  have rows := l.rows_pos
  refine allows_kept.mpr ⟨?_, ?_⟩
  · unfold Small
    omega
  · intro c _ inside
    exact Limits.shift_zero inside

-- Between two windows that hold the zero shift the guards of the clipping have no work.
theorem allows_clip (zero : w.Allows 0 0) (zeroWithin : within.Allows 0 0) :
    (w.clip within).Allows dx dy ↔ w.Allows dx dy ∧ within.Allows dx dy := by
  simp only [Allows, clip] at *
  omega

theorem allows_clip_kept (zero : w.Allows 0 0) :
    (w.clip (kept l scan)).Allows dx dy ↔
      w.Allows dx dy ∧ Small l dx dy ∧ Stays l scan dx dy := by
  rw [allows_clip zero (kept_zero l scan), allows_kept]

theorem mem_shiftsX : dx ∈ w.shiftsX ↔ w.minX ≤ dx ∧ dx ≤ w.maxX := by
  simp only [shiftsX, countX, List.mem_map, List.mem_range]
  constructor
  · intro held
    obtain ⟨i, below, rfl⟩ := held
    omega
  · intro held
    obtain ⟨low, high⟩ := held
    exact ⟨(dx - w.minX).toNat, by omega, by omega⟩

theorem mem_shiftsY : dy ∈ w.shiftsY ↔ w.minY ≤ dy ∧ dy ≤ w.maxY := by
  simp only [shiftsY, countY, List.mem_map, List.mem_range]
  constructor
  · intro held
    obtain ⟨j, below, rfl⟩ := held
    omega
  · intro held
    obtain ⟨low, high⟩ := held
    exact ⟨(dy - w.minY).toNat, by omega, by omega⟩

theorem mem_shifts : (dx, dy) ∈ w.shifts ↔ w.Allows dx dy := by
  simp only [shifts, List.mem_flatMap, List.mem_map, Prod.mk.injEq, Allows, ← mem_shiftsX,
    ← mem_shiftsY]
  constructor
  · intro held
    obtain ⟨x, across, y, along, rfl, rfl⟩ := held
    exact ⟨across, along⟩
  · intro held
    obtain ⟨across, along⟩ := held
    exact ⟨dx, across, dy, along, rfl, rfl⟩

theorem length_shifts (w : Window) : w.shifts.length = w.countX * w.countY := by
  simp only [shifts, shiftsX, shiftsY, List.length_flatMap, List.length_map, List.length_range,
    List.map_const', List.sum_replicate_nat]

-- Each bound lies on its side of zero and at most `n` cells from it.
def Around (n : Int) (w : Window) : Prop :=
  ((-n ≤ w.minX ∧ w.minX ≤ 0) ∧ 0 ≤ w.maxX ∧ w.maxX ≤ n) ∧
    (-n ≤ w.minY ∧ w.minY ≤ 0) ∧ 0 ≤ w.maxY ∧ w.maxY ≤ n

variable {n : Int}

theorem Around.zero (around : w.Around n) : w.Allows 0 0 := by
  unfold Around at around
  unfold Allows
  omega

theorem centered_around (nonneg : 0 ≤ n) : (centered n).Around n := by
  simp only [Around, centered]
  omega

theorem Around.mono {m : Int} (around : w.Around n) (le : n ≤ m) : w.Around m := by
  unfold Around at *
  omega

theorem Around.clip (around : w.Around n) (within : Window) : (w.clip within).Around n := by
  simp only [Around, Window.clip] at *
  omega

end Window

namespace SearchSpace

structure Sound (s : SearchSpace) : Prop where
  turns_le : s.turns ≤ mostTurns
  length_windows : s.windows.length = s.rotations
  around : ∀ w ∈ s.windows, w.Around mostShifts

theorem Sound.lt_of_window {s : SearchSpace} {place : Nat} {w : Window} (sound : s.Sound)
    (found : s.windows[place]? = some w) : place < s.rotations := by
  rw [← sound.length_windows]
  exact (List.getElem?_eq_some_iff.mp found).1

theorem ofCounts_sound (shifts turns : Int) (step resolution : Single) :
    (ofCounts shifts turns step resolution).Sound := by
  refine ⟨?_, ?_, ?_⟩
  · simp only [ofCounts, mostTurns]
    omega
  · simp only [ofCounts, List.length_replicate, rotations]
  · intro w member
    rw [List.eq_of_mem_replicate member]
    refine (Window.centered_around ?_).mono ?_
    · omega
    · have : (0 : Int) ≤ mostShifts := Int.natCast_nonneg _
      omega

theorem turnsFor_le (window : Single) (step : Dyadic) : turnsFor window step ≤ mostTurns := by
  unfold turnsFor
  dsimp only
  split
  · exact Nat.zero_le _
  · exact Nat.min_le_left _ _

theorem shiftsFor_le (window resolution : Single) : shiftsFor window resolution ≤ mostShifts := by
  unfold shiftsFor
  split
  · exact Nat.zero_le _
  · split
    · exact Nat.le_refl _
    · exact Nat.min_le_left _ _

theorem ofCounts_eq {shifts turns : Nat} (shiftsLe : shifts ≤ mostShifts) (turnsLe : turns ≤ mostTurns)
    (step resolution : Single) :
    ofCounts shifts turns step resolution =
      ⟨turns, step, resolution, List.replicate (2 * turns + 1) (.centered shifts)⟩ := by
  have sameShifts : max 0 (min (shifts : Int) mostShifts) = shifts := by omega
  have sameTurns : (max 0 (min (turns : Int) mostTurns)).toNat = turns := by omega
  simp only [ofCounts, sameShifts, sameTurns]

def wide (linear angular : Single) (cloud : Cloud) (resolution : Single) : SearchSpace :=
  let turns := turnsFor angular (stepFor cloud resolution)
  ⟨turns, (stepFor cloud resolution).toSingle, resolution,
    List.replicate (2 * turns + 1) (.centered (shiftsFor linear resolution))⟩

theorem ofCounts_eq_wide (linear angular : Single) (cloud : Cloud) (resolution : Single) :
    ofCounts (shiftsFor linear resolution) (turnsFor angular (stepFor cloud resolution))
        (stepFor cloud resolution).toSingle resolution = wide linear angular cloud resolution :=
  ofCounts_eq (shiftsFor_le _ _) (turnsFor_le _ _) _ _

theorem covering_eq {resolution : Single} (positive : Single.zero < resolution)
    (linear angular : Single) (cloud : Cloud) :
    covering linear angular cloud resolution = .ok (wide linear angular cloud resolution) := by
  rw [covering, if_pos positive, ← ofCounts_eq_wide]

theorem wide_sound (linear angular : Single) (cloud : Cloud) (resolution : Single) :
    (wide linear angular cloud resolution).Sound := by
  rw [← ofCounts_eq_wide]
  exact ofCounts_sound _ _ _ _

end SearchSpace

end ScanAlign
