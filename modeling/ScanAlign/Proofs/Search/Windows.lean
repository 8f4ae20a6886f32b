import Mathlib.Data.List.Forall2
import ScanAlign.Proofs.Search.Hypotheses

namespace ScanAlign

def IsWhole (n : Int) : Prop := Single.leastWhole ≤ n ∧ n ≤ Single.greatestWhole

instance (n : Int) : Decidable (IsWhole n) :=
  inferInstanceAs (Decidable (Single.leastWhole ≤ n ∧ n ≤ Single.greatestWhole))

namespace Window

variable {l : Limits} {w within : Window} {scan : List Cell} {bound n : Int}

-- Each bound of the inner window lies between zero and the same bound of the outer one.
structure Narrows (w inner : Window) : Prop where
  left : w.minX ≤ inner.minX ∧ inner.minX ≤ 0
  right : 0 ≤ inner.maxX ∧ inner.maxX ≤ w.maxX
  down : w.minY ≤ inner.minY ∧ inner.minY ≤ 0
  up : 0 ≤ inner.maxY ∧ inner.maxY ≤ w.maxY

theorem Around.narrows_clip (around : w.Around bound) (within : Window) :
    w.Narrows (w.clip within) := by
  obtain ⟨⟨⟨_, _⟩, _, _⟩, ⟨_, _⟩, _, _⟩ := around
  constructor <;> simp only [Window.clip] <;> omega

-- Every whole number that the clipping of one window computes: how many columns and rows there are,
-- the last of them, the same to the other side, and how far each cell on the map is from the edges.
def clipSteps (l : Limits) (scan : List Cell) : List Int :=
  let lastX : Int := l.columns - 1
  let lastY : Int := l.rows - 1
  [(l.columns : Int), lastX, -lastX, (l.rows : Int), lastY, -lastY] ++
    (scan.filter l.contains).flatMap fun c => [-c.x, lastX - c.x, -c.y, lastY - c.y]

theorem clipSteps_isWhole (step : n ∈ clipSteps l scan) : IsWhole n := by
  have columns := l.columns_lt
  have rows := l.rows_lt
  unfold IsWhole Single.leastWhole Single.greatestWhole
  rcases List.mem_append.mp step with edge | distance
  · simp only [List.mem_cons, List.not_mem_nil, or_false] at edge
    have columnsPos := l.columns_pos
    have rowsPos := l.rows_pos
    omega
  · obtain ⟨c, member, held⟩ := List.mem_flatMap.mp distance
    obtain ⟨⟨left, right⟩, down, up⟩ := Limits.contains_iff.mp (List.mem_filter.mp member).2
    simp only [List.mem_cons, List.not_mem_nil, or_false] at held
    omega

end Window

namespace SearchSpace

variable {s next : SearchSpace} {b : ScanBank} {l : Limits} {place : Nat}

inductive Reachable : SearchSpace → Prop
  | counts (shifts turns : Int) (step resolution : Single) :
      Reachable (ofCounts shifts turns step resolution)
  | covering {s : SearchSpace} {linear angular resolution : Single} {cloud : Cloud}
      (made : covering linear angular cloud resolution = .ok s) : Reachable s
  | fit {s next : SearchSpace} {b : ScanBank} {l : Limits} (before : Reachable s)
      (clipped : s.fit b l = .ok next) : Reachable next

-- What one clipping may change: the windows, and those only inwards.
structure Narrowed (s next : SearchSpace) : Prop where
  turns : next.turns = s.turns
  step : next.step = s.step
  resolution : next.resolution = s.resolution
  windows : List.Forall₂ Window.Narrows s.windows next.windows

theorem covering_sound {linear angular resolution : Single} {cloud : Cloud}
    (made : SearchSpace.covering linear angular cloud resolution = .ok s) : s.Sound := by
  unfold SearchSpace.covering at made
  split at made
  · cases made
    apply ofCounts_sound
  · cases made

theorem size_of_fit (clipped : s.fit b l = .ok next) : b.size = s.rotations := by
  unfold SearchSpace.fit at clipped
  split at clipped
  · assumption
  · cases clipped

theorem reachable_sound (reachable : s.Reachable) : s.Sound := by
  induction reachable with
  | counts shifts turns step resolution => exact ofCounts_sound shifts turns step resolution
  | covering made => exact covering_sound made
  | fit before clipped sound =>
    have sized := size_of_fit clipped
    rw [fit_eq sized] at clipped
    cases clipped
    exact fitted_sound sound sized _

theorem fitted_narrowed (sound : s.Sound) (sized : b.size = s.rotations) (l : Limits) :
    s.Narrowed (s.fitted b l) := by
  refine ⟨rfl, rfl, rfl, List.forall₂_iff_get.mpr ⟨?_, ?_⟩⟩
  · rw [sound.length_windows, (fitted_sound sound sized l).length_windows]
    rfl
  · intro i inside _
    have atPlace : (s.fitted b l).windows[i]? = some ((s.fitted b l).windows.get ⟨i, ‹_›⟩) :=
      List.getElem?_eq_getElem _
    obtain ⟨w, scan, before, _, same⟩ := getElem?_fitted.mp atPlace
    have found : s.windows.get ⟨i, inside⟩ = w := by
      rw [List.getElem?_eq_getElem inside] at before
      exact Option.some.inj before
    rw [← same, found]
    exact (sound.around w (List.mem_of_getElem? before)).narrows_clip _

theorem turn_isWhole (sound : s.Sound) (inside : place < s.rotations) :
    IsWhole place ∧ IsWhole ((place : Int) - s.turns) := by
  have turns : s.turns ≤ 31416 := sound.turns_le
  unfold rotations at inside
  unfold IsWhole Single.leastWhole Single.greatestWhole
  omega

theorem reachable_stays_whole (reachable : s.Reachable) :
    s.turns ≤ mostTurns ∧ s.rotations = 2 * s.turns + 1 ∧ s.windows.length = 2 * s.turns + 1 ∧
      s.zeroRotation < s.rotations ∧ (∀ w ∈ s.windows, w.Around mostShifts) ∧
      (∀ place < s.rotations, IsWhole place ∧ IsWhole ((place : Int) - s.turns) ∧
        s.angleAt place = .ok (.ofInt ((place : Int) - s.turns) * s.step)) ∧
      ∀ (b : ScanBank) (l : Limits), b.size = s.rotations →
        (∀ scan ∈ b.scans, ∀ n ∈ Window.clipSteps l scan, IsWhole n) ∧
          ∃ next, s.fit b l = .ok next ∧ s.Narrowed next := by
  have sound := reachable_sound reachable
  refine ⟨sound.turns_le, rfl, sound.length_windows, ?_, sound.around, ?_, ?_⟩
  · unfold zeroRotation rotations
    omega
  · intro place inside
    obtain ⟨whole, difference⟩ := turn_isWhole sound inside
    exact ⟨whole, difference, angleAt_eq sound inside⟩
  · intro b l sized
    refine ⟨?_, s.fitted b l, fit_eq sized l, fitted_narrowed sound sized l⟩
    intro scan _ n step
    exact Window.clipSteps_isWhole step

theorem reachable_stays_whole_three :
    (ofCounts 2 1 .one .one).Reachable ∧
      (∃ angle, (ofCounts 2 1 .one .one).angleAt 2 = .ok angle) ∧
      ∃ scans, scans.size = 3 ∧
        ∀ l, ∃ next, (ofCounts 2 1 .one .one).fit ⟨scans⟩ l = .ok next ∧
          (ofCounts 2 1 .one .one).Narrowed next := by
  have reachable : (ofCounts 2 1 .one .one).Reachable := .counts 2 1 .one .one
  obtain ⟨_, _, _, _, _, turns, clips⟩ := reachable_stays_whole reachable
  obtain ⟨_, _, angle⟩ := turns 2 (by decide)
  refine ⟨reachable, ⟨_, angle⟩, #[[⟨0, 0⟩], [⟨-7, 1⟩], []], rfl, ?_⟩
  intro l
  exact (clips ⟨#[[⟨0, 0⟩], [⟨-7, 1⟩], []]⟩ l (by decide)).2

end SearchSpace

namespace Window

variable {l : Limits} {w clipped : Window} {scan : CellScan} {dx dy : Int}

def KeepsColumns (l : Limits) (scan : CellScan) (dx : Int) : Prop :=
  ∀ c ∈ scan, l.contains c = true → 0 ≤ c.x + dx ∧ c.x + dx < l.columns

def KeepsRows (l : Limits) (scan : CellScan) (dy : Int) : Prop :=
  ∀ c ∈ scan, l.contains c = true → 0 ≤ c.y + dy ∧ c.y + dy < l.rows

theorem stays_iff : Stays l scan dx dy ↔ KeepsColumns l scan dx ∧ KeepsRows l scan dy := by
  unfold Stays KeepsColumns KeepsRows
  simp only [Limits.contains_shift]
  constructor
  · intro stays
    exact ⟨fun c member inside => (stays c member inside).1,
      fun c member inside => (stays c member inside).2⟩
  · intro both c member inside
    exact ⟨both.1 c member inside, both.2 c member inside⟩

theorem small_iff : Small l dx dy ↔ dx.natAbs ≤ l.columns - 1 ∧ dy.natAbs ≤ l.rows - 1 := by
  have columns := l.columns_pos
  have rows := l.rows_pos
  unfold Small
  omega

theorem allows_clip_axes (zero : w.Allows 0 0) (l : Limits) (scan : CellScan) (dx dy : Int) :
    (w.clip (kept l scan)).Allows dx dy ↔
      ((w.minX ≤ dx ∧ dx ≤ w.maxX) ∧ dx.natAbs ≤ l.columns - 1 ∧ KeepsColumns l scan dx) ∧
        (w.minY ≤ dy ∧ dy ≤ w.maxY) ∧ dy.natAbs ≤ l.rows - 1 ∧ KeepsRows l scan dy := by
  rw [allows_clip_kept zero, small_iff, stays_iff, Allows]
  constructor
  · rintro ⟨⟨across, along⟩, ⟨narrow, short⟩, keepsColumns, keepsRows⟩
    exact ⟨⟨across, narrow, keepsColumns⟩, along, short, keepsRows⟩
  · rintro ⟨⟨across, narrow, keepsColumns⟩, along, short, keepsRows⟩
    exact ⟨⟨across, along⟩, ⟨narrow, short⟩, keepsColumns, keepsRows⟩

-- The window keeps each shift of `w` that it may keep on either axis, and under any two of them
-- together every cell that starts on the map stays there.
structure Largest (l : Limits) (w : Window) (scan : CellScan) (clipped : Window) : Prop where
  across : ∀ dx, (clipped.minX ≤ dx ∧ dx ≤ clipped.maxX) ↔
    (w.minX ≤ dx ∧ dx ≤ w.maxX) ∧ dx.natAbs ≤ l.columns - 1 ∧ KeepsColumns l scan dx
  along : ∀ dy, (clipped.minY ≤ dy ∧ dy ≤ clipped.maxY) ↔
    (w.minY ≤ dy ∧ dy ≤ w.maxY) ∧ dy.natAbs ≤ l.rows - 1 ∧ KeepsRows l scan dy
  stays : ∀ dx dy, clipped.Allows dx dy →
    ∀ c ∈ scan, l.contains c = true → l.contains (c.shift dx dy) = true

-- Each axis is seen by itself when the other one is not shifted along.
theorem clip_largest (zero : w.Allows 0 0) : Largest l w scan (w.clip (kept l scan)) := by
  have axes := allows_clip_axes zero l scan
  have still := clip_zero w (kept l scan)
  obtain ⟨stillAcross, stillAlong⟩ := (axes 0 0).mp still
  refine ⟨?_, ?_, ?_⟩
  · intro dx
    constructor
    · intro held
      exact ((axes dx 0).mp ⟨held, still.2⟩).1
    · intro held
      exact ((axes dx 0).mpr ⟨held, stillAlong⟩).1
  · intro dy
    constructor
    · intro held
      exact ((axes 0 dy).mp ⟨still.1, held⟩).2
    · intro held
      exact ((axes 0 dy).mpr ⟨stillAcross, held⟩).2
  · intro dx dy allowed
    exact ((allows_clip_kept zero).mp allowed).2.2

theorem clip_comm (w a b : Window) : (w.clip a).clip b = (w.clip b).clip a := by
  simp only [clip, Window.mk.injEq]
  omega

theorem clip_again (w a : Window) : (w.clip a).clip a = w.clip a := by
  simp only [clip, Window.mk.injEq]
  omega

theorem kept_filter (l : Limits) (scan : CellScan) : kept l (scan.filter l.contains) = kept l scan := by
  unfold kept
  rw [List.foldl_filter]
  congr 1
  funext window c
  unfold narrowed
  split <;> rfl

end Window

namespace SearchSpace

variable {s : SearchSpace} {b b' : ScanBank} {l l' : Limits}

theorem fitted_eq (windows : List Window)
    (same : ∀ (place : Nat) w, (s.fitted b l).windows[place]? = some w ↔ windows[place]? = some w) :
    s.fitted b l = { s with windows := windows } := by
  have equal : (s.fitted b l).windows = windows :=
    List.ext_getElem? fun place => Option.ext (same place)
  exact congrArg (fun windows => { s with windows := windows }) equal

theorem fitted_comm (s : SearchSpace) (b b' : ScanBank) (l l' : Limits) :
    (s.fitted b l).fitted b' l' = (s.fitted b' l').fitted b l := by
  refine fitted_eq ((s.fitted b' l').fitted b l).windows fun place window => ?_
  simp only [getElem?_fitted]
  constructor
  · rintro ⟨_, scan', ⟨w, scan, found, inBank, rfl⟩, inBank', rfl⟩
    exact ⟨_, scan, ⟨w, scan', found, inBank', rfl⟩, inBank, Window.clip_comm _ _ _⟩
  · rintro ⟨_, scan, ⟨w, scan', found, inBank', rfl⟩, inBank, rfl⟩
    exact ⟨_, scan', ⟨w, scan, found, inBank, rfl⟩, inBank', Window.clip_comm _ _ _⟩

theorem fitted_again (s : SearchSpace) (b : ScanBank) (l : Limits) :
    (s.fitted b l).fitted b l = s.fitted b l := by
  refine fitted_eq (s.fitted b l).windows fun place window => ?_
  simp only [getElem?_fitted]
  constructor
  · rintro ⟨_, scan, ⟨w, same, found, inBank, rfl⟩, again, rfl⟩
    obtain rfl : same = scan := Option.some.inj (inBank.symm.trans again)
    exact ⟨w, same, found, inBank, (Window.clip_again _ _).symm⟩
  · rintro ⟨w, scan, found, inBank, rfl⟩
    exact ⟨_, scan, ⟨w, scan, found, inBank, rfl⟩, inBank, Window.clip_again _ _⟩

theorem fitted_congr (same : b'.scans.map (List.filter l.contains) = b.scans.map (List.filter l.contains))
    (s : SearchSpace) : s.fitted b' l = s.fitted b l := by
  have kept : b'.scans.toList.map (Window.kept l) = b.scans.toList.map (Window.kept l) := by
    have scans := congrArg (fun scans => scans.toList.map (Window.kept l)) same
    simpa [Function.comp_def, Window.kept_filter] using scans
  have zipped (b : ScanBank) : (s.fitted b l).windows =
      (s.windows.zip (b.scans.toList.map (Window.kept l))).map fun (w, within) => w.clip within := by
    simp [fitted, List.zip_map_right, Function.comp_def]
  have windows : (s.fitted b' l).windows = (s.fitted b l).windows := by
    rw [zipped, zipped, kept]
  exact congrArg (fun windows => { s with windows := windows }) windows

theorem size_of_congr
    (same : b'.scans.map (List.filter l.contains) = b.scans.map (List.filter l.contains)) :
    b'.size = b.size := by
  simpa [ScanBank.size] using congrArg Array.size same

-- What a clipping to a map leaves of a space.
structure Shrunk (s : SearchSpace) (b : ScanBank) (l : Limits) (next : SearchSpace) : Prop where
  turns : next.turns = s.turns
  step : next.step = s.step
  resolution : next.resolution = s.resolution
  length_windows : next.windows.length = s.windows.length
  largest : ∀ (place : Nat) (w : Window) (scan : CellScan), s.windows[place]? = some w →
    b.scans[place]? = some scan →
    ∃ clipped, next.windows[place]? = some clipped ∧ Window.Largest l w scan clipped

theorem fitted_shrunk (listed : s.windows.length = s.rotations)
    (zero : ∀ w ∈ s.windows, w.containsZero = true) (sized : b.size = s.rotations) (l : Limits) :
    s.Shrunk b l (s.fitted b l) := by
  refine ⟨rfl, rfl, rfl, ?_, ?_⟩
  · rw [length_fitted listed sized, listed]
  · intro place w scan found inBank
    have zero := Window.containsZero_iff.mp (zero w (List.mem_of_getElem? found))
    exact ⟨_, getElem?_fitted.mpr ⟨w, scan, found, inBank, rfl⟩, Window.clip_largest zero⟩

theorem fit_largest (listed : s.windows.length = s.rotations)
    (zero : ∀ w ∈ s.windows, w.containsZero = true) (sized : b.size = s.rotations) (l : Limits) :
    ∃ next, s.fit b l = .ok next ∧ s.Shrunk b l next ∧
      (∀ b' : ScanBank,
        b'.scans.map (List.filter l.contains) = b.scans.map (List.filter l.contains) →
        s.fit b' l = .ok next) ∧
      next.fit b l = .ok next ∧
      ∀ (b' : ScanBank) (l' : Limits), b'.size = s.rotations →
        ∃ other last, next.fit b' l' = .ok last ∧ s.fit b' l' = .ok other ∧ other.fit b l = .ok last := by
  refine ⟨s.fitted b l, fit_eq sized l, fitted_shrunk listed zero sized l, ?_, ?_, ?_⟩
  · intro b' same
    rw [fit_eq ((size_of_congr same).trans sized), fitted_congr same]
  · exact (fit_eq (s := s.fitted b l) sized l).trans (congrArg _ (fitted_again s b l))
  · intro b' l' sized'
    refine ⟨s.fitted b' l', (s.fitted b l).fitted b' l', fit_eq (s := s.fitted b l) sized' l',
      fit_eq sized' l', ?_⟩
    rw [fitted_comm]
    exact fit_eq (s := s.fitted b' l') sized l

-- One scan starts in the first cell, one in the last, and one as far off the map as cells go.
def cornerScans : ScanBank :=
  ⟨#[[⟨0, 0⟩, ⟨-7, 5⟩], [⟨3, 2⟩], [⟨Single.greatestWhole, Single.leastWhole⟩]]⟩

def cornerSpace : SearchSpace :=
  ⟨1, .one, .one, [⟨0, 3, 0, 2⟩, ⟨-3, 0, -2, 0⟩, ⟨-3, 3, -2, 2⟩]⟩

theorem fit_cornerScans : (ofCounts 3 1 .one .one).fit cornerScans .twelveCells = .ok cornerSpace := rfl

theorem fit_largest_twelveCells :
    (ofCounts 3 1 .one .one).fit cornerScans .twelveCells = .ok cornerSpace ∧
      (ofCounts 3 1 .one .one).Shrunk cornerScans .twelveCells cornerSpace ∧
      cornerSpace.fit cornerScans .twelveCells = .ok cornerSpace := by
  obtain ⟨next, found, shrunk, _, again, _⟩ := fit_largest (s := ofCounts 3 1 .one .one)
    (b := cornerScans) (by decide) (by decide) (by decide) .twelveCells
  obtain rfl := Except.ok.inj (fit_cornerScans.symm.trans found)
  exact ⟨fit_cornerScans, shrunk, again⟩

end SearchSpace

end ScanAlign
