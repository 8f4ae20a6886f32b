import Mathlib.Algebra.Ring.Nat
import Mathlib.Data.Int.Interval
import Mathlib.Data.Set.Card
import ScanAlign.Proofs.Search.Windows

namespace ScanAlign

theorem getElem?_flatMap (entries : α → List β) {parts : List α} {part : α} {i j : Nat}
    (found : parts[i]? = some part) (inside : j < (entries part).length) :
    (parts.flatMap entries)[((parts.take i).map fun p => (entries p).length).sum + j]? =
      (entries part)[j]? := by
  induction parts generalizing i with
  | nil => simp at found
  | cons first rest ih =>
    cases i with
    | zero =>
      obtain rfl : first = part := by simpa using found
      simp [List.getElem?_append_left inside]
    | succ i =>
      have later := ih (by simpa using found)
      simp only [List.take_succ_cons, List.map_cons, List.sum_cons, List.flatMap_cons, Nat.add_assoc]
      rw [List.getElem?_append_right (Nat.le_add_right _ _), Nat.add_sub_cancel_left]
      exact later

namespace Window

variable {w : Window} {dx dy : Int}

-- How many shifts the window holds, whatever counts can be kept.
def count (w : Window) : Nat := w.countX * w.countY

def placeOf (w : Window) (dx dy : Int) : Nat :=
  (dx - w.minX).toNat * w.countY + (dy - w.minY).toNat

theorem length_shiftsY (w : Window) : w.shiftsY.length = w.countY := by
  simp [shiftsY]

theorem getElem?_run {low high d : Int} (above : low ≤ d) (below : d ≤ high) :
    ((List.range (high - low + 1).toNat).map fun (i : Nat) => low + i)[(d - low).toNat]? = some d := by
  have inside : (d - low).toNat < (high - low + 1).toNat := by omega
  simp only [List.getElem?_map, List.getElem?_range inside, Option.map_some, Option.some.injEq]
  omega

theorem getElem?_shifts (allowed : w.Allows dx dy) : w.shifts[w.placeOf dx dy]? = some (dx, dy) := by
  obtain ⟨⟨left, right⟩, down, up⟩ := allowed
  have across : w.shiftsX[(dx - w.minX).toNat]? = some dx := getElem?_run left right
  have along : w.shiftsY[(dy - w.minY).toNat]? = some dy := getElem?_run down up
  have column : (dx - w.minX).toNat < w.shiftsX.length := (List.getElem?_eq_some_iff.mp across).1
  have row : (dy - w.minY).toNat < w.shiftsY.length := (List.getElem?_eq_some_iff.mp along).1
  have found := getElem?_flatMap (fun dx => w.shiftsY.map fun dy => (dx, dy)) across
    (by simpa using row)
  simpa [shifts, placeOf, length_shiftsY, Nat.min_eq_left (Nat.le_of_lt column), along] using found

end Window

namespace SearchSpace

variable {s : SearchSpace} {w : Window} {rotation : Nat} {dx dy : Int}

def count (s : SearchSpace) : Nat := (s.windows.map Window.count).sum

-- The place of a hypothesis: all of earlier rotations come first, then the earlier shifts of its own.
def placeOf (s : SearchSpace) (w : Window) (rotation : Nat) (dx dy : Int) : Nat :=
  ((s.windows.take rotation).map Window.count).sum + w.placeOf dx dy

theorem length_group (w : Window) (rotation : Nat) : (s.group w rotation).length = w.count := by
  rw [group, List.length_map, Window.length_shifts, Window.count]

theorem length_eq_count (s : SearchSpace) : s.hypotheses.length = s.count := by
  have counts : (fun w : Window => w.shifts.length) = Window.count := funext Window.length_shifts
  rw [length_hypotheses, List.length_flatMap, counts, count]

theorem getElem?_group (s : SearchSpace) (rotation : Nat) (allowed : w.Allows dx dy) :
    (s.group w rotation)[w.placeOf dx dy]? = some (s.hypothesis rotation dx dy) := by
  simp [group, Window.getElem?_shifts allowed]

theorem getElem?_hypotheses (found : s.windows[rotation]? = some w) (allowed : w.Allows dx dy) :
    s.hypotheses[s.placeOf w rotation dx dy]? = some (s.hypothesis rotation dx dy) := by
  have here := s.getElem?_group rotation allowed
  have inside := (List.getElem?_eq_some_iff.mp here).1
  have numbered : s.windows.zipIdx[rotation]? = some (w, rotation) := by simp [found]
  have earlier : (s.windows.zipIdx.take rotation).map (fun entry => (s.group entry.1 entry.2).length) =
      (s.windows.take rotation).map Window.count := by
    conv_rhs => rw [← List.zipIdx_map_fst 0 s.windows, ← List.map_take, List.map_map]
    simp only [length_group, Function.comp_def]
  have placed := getElem?_flatMap (fun entry => s.group entry.1 entry.2) numbered inside
  rw [earlier] at placed
  exact placed.trans here

-- Each rotation and shift that the windows hold, once and in rising order, at its place.
structure Lists (s : SearchSpace) (list : List Candidate) : Prop where
  mem_iff : ∀ rotation dx dy, (∃ c ∈ list, c.rotation = rotation ∧ c.dx = dx ∧ c.dy = dy) ↔
    rotation < s.rotations ∧ ∃ w, s.windows[rotation]? = some w ∧ w.Allows dx dy
  rising : list.Pairwise Candidate.Earlier
  length_eq : list.length = s.size
  entry : ∀ rotation w dx dy, s.windows[rotation]? = some w → w.Allows dx dy →
    ∃ angle, s.angleAt rotation = .ok angle ∧ list[s.placeOf w rotation dx dy]? =
      some ⟨rotation, dx, dy, .ofInt dx * s.resolution, .ofInt dy * s.resolution, angle, .zero⟩

theorem size_eq_min_count (s : SearchSpace) : s.size = min greatestCount s.count := by
  rw [size_eq, length_eq_count]

theorem size_eq_count (fits : s.count ≤ greatestCount) : s.size = s.count := by
  rw [size_eq_min_count, Nat.min_eq_right fits]

theorem hypotheses_lists (sound : s.Sound) (fits : s.count ≤ greatestCount) :
    s.Lists s.hypotheses := by
  refine ⟨?_, s.hypotheses_rising, ?_, ?_⟩
  · intro rotation dx dy
    constructor
    · rintro ⟨c, member, rfl, rfl, rfl⟩
      obtain ⟨w, found, allowed, _⟩ := mem_hypotheses.mp member
      exact ⟨sound.lt_of_window found, w, found, allowed⟩
    · rintro ⟨_, w, found, allowed⟩
      exact ⟨s.hypothesis rotation dx dy, mem_hypotheses.mpr ⟨w, found, allowed, rfl⟩, rfl, rfl, rfl⟩
  · rw [size_eq_count fits, length_eq_count]
  · intro rotation w dx dy found allowed
    exact ⟨_, angleAt_eq sound (sound.lt_of_window found), getElem?_hypotheses found allowed⟩

theorem candidates_listed (reachable : s.Reachable) (fits : s.count ≤ greatestCount) :
    ∃ list, s.Lists list ∧ (s.count * 32 ≤ mostBytes → s.candidates = .ok list) ∧
      (mostBytes < s.count * 32 → s.candidates = .error .capacity) := by
  have sound := reachable_sound reachable
  refine ⟨s.hypotheses, hypotheses_lists sound fits, ?_, ?_⟩
  · intro room
    rw [candidates_eq sound, size_eq_count fits, reserve_eq_ok_iff.mpr room]
    rfl
  · intro full
    rw [candidates_eq sound, size_eq_count fits, reserve, if_neg (Nat.not_le_of_lt full)]
    rfl

-- Behind twelve shifts of each of the first two rotations come the thirty-five of the last.
theorem candidates_listed_corner :
    ∃ list, cornerSpace.candidates = .ok list ∧ cornerSpace.Lists list ∧ list.length = 59 ∧
      ∃ c, list[45]? = some c ∧ c.rotation = 2 ∧ c.dx = 1 ∧ c.dy = -1 := by
  have reachable : cornerSpace.Reachable := .fit (.counts 3 1 .one .one) fit_cornerScans
  obtain ⟨list, lists, listed, _⟩ := candidates_listed reachable (by decide)
  obtain ⟨_, _, placed⟩ := lists.entry 2 ⟨-3, 3, -2, 2⟩ 1 (-1) rfl ⟨by decide, by decide⟩
  exact ⟨list, listed (by decide), lists, lists.length_eq, _, placed, rfl, rfl, rfl⟩

end SearchSpace

-- A whole number of 64 bits with a sign; one outside stops the run.
def checkedLong (n : Int) : Except Fault Int :=
  if -2 ^ 63 ≤ n ∧ n < 2 ^ 63 then .ok n else .error .overflow

namespace Window

variable {w : Window} {low high : Int}

structure InWords (w : Window) : Prop where
  minX : IsWhole w.minX := by decide
  maxX : IsWhole w.maxX := by decide
  minY : IsWhole w.minY := by decide
  maxY : IsWhole w.maxY := by decide

def spanInWords (low high : Int) : Except Fault Nat := do
  let distance ← checkedLong (high - low)
  let count ← checkedLong (distance + 1)
  return min greatestCount (max count 0).toNat

theorem spanInWords_eq (lowWhole : IsWhole low) (highWhole : IsWhole high) :
    spanInWords low high = .ok (high - low + 1).toNat := by
  unfold IsWhole Single.leastWhole Single.greatestWhole at lowWhole highWhole
  have distance : checkedLong (high - low) = .ok (high - low) := if_pos (by omega)
  have count : checkedLong (high - low + 1) = .ok (high - low + 1) := if_pos (by omega)
  have kept : min greatestCount (max (high - low + 1) 0).toNat = (high - low + 1).toNat := by
    unfold greatestCount
    omega
  rw [spanInWords, distance, ok_bind, count, ok_bind, kept]
  rfl

def axis (low high : Int) : Set Int := {n | low ≤ n ∧ n ≤ high}

theorem ncard_axis (low high : Int) : (axis low high).ncard = (high - low + 1).toNat := by
  have same : axis low high = Finset.Icc low high := by
    ext n
    simp [axis]
  rw [same, Set.ncard_coe_finset, Int.card_Icc]
  congr 1
  omega

def allowed (w : Window) : Set (Int × Int) := {shift | w.Allows shift.1 shift.2}

theorem ncard_allowed (w : Window) : w.allowed.ncard = w.count := by
  have same : w.allowed = axis w.minX w.maxX ×ˢ axis w.minY w.maxY := rfl
  rw [same, Set.ncard_prod, ncard_axis, ncard_axis]
  rfl

theorem isEmpty_iff : w.isEmpty = true ↔ w.size = 0 := by
  have across : w.countX = 0 ↔ w.maxX < w.minX := by
    unfold countX
    omega
  have along : w.countY = 0 ↔ w.maxY < w.minY := by
    unfold countY
    omega
  have kept : min greatestCount (w.countX * w.countY) = 0 ↔ w.countX * w.countY = 0 := by
    unfold greatestCount
    omega
  rw [isEmpty, size, kept, Nat.mul_eq_zero, across, along]
  simp

-- The counts of a window are those of its whole numbers and its shifts.
structure Counted (w : Window) : Prop where
  countX : w.countX = (axis w.minX w.maxX).ncard
  countY : w.countY = (axis w.minY w.maxY).ncard
  spanX : spanInWords w.minX w.maxX = .ok w.countX
  spanY : spanInWords w.minY w.maxY = .ok w.countY
  size : w.size = min greatestCount w.allowed.ncard
  isEmpty_iff : w.isEmpty = true ↔ w.size = 0

theorem InWords.counted (words : w.InWords) : w.Counted where
  countX := (ncard_axis _ _).symm
  countY := (ncard_axis _ _).symm
  spanX := spanInWords_eq words.minX words.maxX
  spanY := spanInWords_eq words.minY words.maxY
  size := by rw [ncard_allowed, Window.size, count]
  isEmpty_iff := Window.isEmpty_iff

end Window

namespace SearchSpace

variable {s other : SearchSpace}

theorem size_perm (moved : other.windows.Perm s.windows) : other.size = s.size := by
  rw [size_eq_min_count, size_eq_min_count, count, count, (moved.map _).sum_nat]

theorem sizes_exact (s : SearchSpace) :
    (∀ w : Window, w.InWords → w.Counted) ∧
      s.size = min greatestCount (s.windows.map fun w => w.allowed.ncard).sum ∧
      ∀ other : SearchSpace, other.windows.Perm s.windows → other.size = s.size := by
  refine ⟨fun _ words => words.counted, ?_, fun _ moved => size_perm moved⟩
  simp only [Window.ncard_allowed]
  exact s.size_eq_min_count

-- All shifts of 32 bits, those with `dy` not below zero, and none, since two bounds are exchanged.
def everyShift : Window := ⟨-2147483648, 2147483647, -2147483648, 2147483647⟩

def upperShifts : Window := ⟨-2147483648, 2147483647, 0, 2147483647⟩

def noShift : Window := ⟨5, 4, -2147483648, 2147483647⟩

def twoHalves : SearchSpace := ⟨0, .one, .one, [upperShifts, noShift, upperShifts]⟩

-- The windows of `twoHalves` together hold one shift more than can be counted.
theorem sizes_exact_twoHalves :
    everyShift.allowed.ncard = 2 ^ 64 ∧ everyShift.size = 2 ^ 64 - 1 ∧
      Window.spanInWords (-2147483648) 2147483647 = .ok (2 ^ 32) ∧
      noShift.isEmpty = true ∧ upperShifts.size = 2 ^ 63 ∧ twoHalves.size = 2 ^ 64 - 1 ∧
      SearchSpace.size ⟨0, .one, .one, [upperShifts, upperShifts, noShift]⟩ = 2 ^ 64 - 1 := by
  obtain ⟨counted, size, moved⟩ := sizes_exact twoHalves
  have every := counted everyShift {}
  have upper := counted upperShifts {}
  have none := counted noShift {}
  have all : everyShift.allowed.ncard = 2 ^ 64 := by
    rw [Window.ncard_allowed]
    decide
  have half : upperShifts.allowed.ncard = 2 ^ 63 := by
    rw [Window.ncard_allowed]
    decide
  have nothing : noShift.allowed.ncard = 0 := by
    rw [Window.ncard_allowed]
    decide
  have total : twoHalves.size = 2 ^ 64 - 1 := by
    rw [size]
    simp [twoHalves, half, nothing, greatestCount]
  refine ⟨all, ?_, every.spanX, ?_, ?_, total, ?_⟩
  · rw [every.size, all]
    rfl
  · rw [none.isEmpty_iff, none.size, nothing]
    rfl
  · rw [upper.size, half]
    rfl
  · rw [← total]
    exact moved ⟨0, .one, .one, _⟩ (by decide)

end SearchSpace

end ScanAlign
