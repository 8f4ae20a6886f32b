import ScanAlign.Proofs.Search.Clipping

namespace ScanAlign

section

variable {step : α → Except ε β} {value : α → β} {list : List α}

theorem ok_bind (a : α) (next : α → Except ε β) : (Except.ok a >>= next) = next a := rfl

theorem mapM_eq_ok (passed : ∀ a ∈ list, step a = .ok (value a)) :
    list.mapM step = .ok (list.map value) := by
  induction list with
  | nil => rfl
  | cons a rest ih =>
    obtain ⟨first, others⟩ := List.forall_mem_cons.mp passed
    rw [List.mapM_cons, first, ih others]
    rfl

theorem mapM_congr {other : α → Except ε β} (same : ∀ a ∈ list, step a = other a) :
    list.mapM step = list.mapM other := by
  induction list with
  | nil => rfl
  | cons a rest ih =>
    obtain ⟨first, others⟩ := List.forall_mem_cons.mp same
    simp only [List.mapM_cons, first, ih others]

theorem eq_map_of_mapM_eq_ok (sound : ∀ a ∈ list, ∀ b, step a = .ok b → b = value a)
    {results : List β} (passed : list.mapM step = .ok results) : results = list.map value := by
  induction list generalizing results with
  | nil =>
    cases passed
    rfl
  | cons a rest ih =>
    obtain ⟨soundFirst, soundRest⟩ := List.forall_mem_cons.mp sound
    rw [List.mapM_cons] at passed
    cases first : step a with
    | error e =>
      rw [first] at passed
      cases passed
    | ok b =>
      cases others : rest.mapM step with
      | error e =>
        rw [first, others] at passed
        cases passed
      | ok bs =>
        rw [first, others] at passed
        cases passed
        rw [List.map_cons, ← soundFirst b first, ← ih soundRest others]

theorem mapM_ok_or_error (list : List α) (step : α → Except ε β) :
    ((∀ a ∈ list, ∃ b, step a = .ok b) ∧ ∃ results, list.mapM step = .ok results) ∨
      ∃ a ∈ list, ∃ e, step a = .error e ∧ list.mapM step = .error e := by
  induction list with
  | nil => exact .inl ⟨by simp, [], rfl⟩
  | cons a rest ih =>
    rw [List.mapM_cons]
    cases first : step a with
    | error e => exact .inr ⟨a, List.mem_cons_self, e, first, rfl⟩
    | ok b =>
      rcases ih with ⟨passed, results, others⟩ | ⟨x, member, e, failed, others⟩
      · refine .inl ⟨List.forall_mem_cons.mpr ⟨⟨b, first⟩, passed⟩, b :: results, ?_⟩
        rw [others]
        rfl
      · refine .inr ⟨x, List.mem_cons_of_mem _ member, e, failed, ?_⟩
        rw [others]
        rfl

variable {next : σ → α → Except ε σ} {s : σ} {xs ys : List α}

-- The states of a run stay valid, so pairs of steps have to change places only in valid states.
theorem foldlM_perm (Valid : σ → Prop)
    (keeps : ∀ s x t, Valid s → next s x = .ok t → Valid t)
    (swaps : ∀ s x y, Valid s → (next s x >>= (next · y)) = (next s y >>= (next · x)))
    (valid : Valid s) (moved : xs.Perm ys) : xs.foldlM next s = ys.foldlM next s := by
  induction moved generalizing s with
  | nil => rfl
  | cons x _ ih =>
    rw [List.foldlM_cons, List.foldlM_cons]
    cases ran : next s x with
    | error e => rfl
    | ok t => exact ih (keeps s x t valid ran)
  | swap x y rest =>
    simp only [List.foldlM_cons]
    rw [← bind_assoc, ← bind_assoc, swaps s x y valid]
  | trans _ _ first second => exact (first valid).trans (second valid)

end

namespace Candidate

def Earlier (a b : Candidate) : Prop :=
  a.rotation < b.rotation ∨
    (a.rotation = b.rotation ∧ (a.dx < b.dx ∨ (a.dx = b.dx ∧ a.dy < b.dy)))

theorem Earlier.asymm {a b : Candidate} (first : a.Earlier b) : ¬ b.Earlier a := by
  unfold Earlier at *
  omega

end Candidate

namespace Window

theorem shiftsX_rising (w : Window) : w.shiftsX.Pairwise (· < ·) := by
  refine List.pairwise_map.mpr (List.pairwise_lt_range.imp ?_)
  intro i j less
  omega

theorem shiftsY_rising (w : Window) : w.shiftsY.Pairwise (· < ·) := by
  refine List.pairwise_map.mpr (List.pairwise_lt_range.imp ?_)
  intro i j less
  omega

theorem shifts_rising (w : Window) :
    w.shifts.Pairwise fun p q => p.1 < q.1 ∨ (p.1 = q.1 ∧ p.2 < q.2) := by
  refine List.pairwise_flatMap.mpr ⟨?_, ?_⟩
  · intro dx _
    refine List.pairwise_map.mpr (w.shiftsY_rising.imp ?_)
    intro y z less
    exact .inr ⟨rfl, less⟩
  · refine w.shiftsX_rising.imp ?_
    intro x z less p first q second
    obtain ⟨_, _, rfl⟩ := List.mem_map.mp first
    obtain ⟨_, _, rfl⟩ := List.mem_map.mp second
    exact .inl less

end Window

namespace SearchSpace

variable {s : SearchSpace} {place rotation : Nat} {dx dy : Int} {c : Candidate}

def angle (s : SearchSpace) (place : Nat) : Single := .ofInt ((place : Int) - s.turns) * s.step

theorem angleAt_eq (sound : s.Sound) (inside : place < s.rotations) :
    s.angleAt place = .ok (s.angle place) := by
  have turns : s.turns ≤ 31416 := sound.turns_le
  unfold rotations at inside
  have whole : (place : Int).bmod 0x100000000 = place :=
    Int.bmod_eq_of_le (by omega) (by omega)
  have fits : checked ((place : Int) - s.turns) = .ok ((place : Int) - s.turns) :=
    Window.checked_eq_ok ⟨by unfold Single.leastWhole; omega, by unfold Single.greatestWhole; omega⟩
  rw [angleAt, whole, fits]
  rfl

theorem angles_eq (sound : s.Sound) : s.angles = .ok ((List.range s.rotations).map s.angle) := by
  refine mapM_eq_ok ?_
  intro place member
  exact angleAt_eq sound (List.mem_range.mp member)

def hypothesis (s : SearchSpace) (rotation : Nat) (dx dy : Int) : Candidate :=
  ⟨rotation, dx, dy, .ofInt dx * s.resolution, .ofInt dy * s.resolution, s.angle rotation, .zero⟩

theorem candidate_eq (sound : s.Sound) (inside : rotation < s.rotations) (dx dy : Int) :
    s.candidate rotation dx dy = .ok (s.hypothesis rotation dx dy) := by
  rw [candidate, angleAt_eq sound inside]
  rfl

def group (s : SearchSpace) (w : Window) (rotation : Nat) : List Candidate :=
  w.shifts.map fun (dx, dy) => s.hypothesis rotation dx dy

def hypotheses (s : SearchSpace) : List Candidate :=
  s.windows.zipIdx.flatMap fun (w, rotation) => s.group w rotation

theorem mem_group {w : Window} :
    c ∈ s.group w rotation ↔ w.Allows c.dx c.dy ∧ c = s.hypothesis rotation c.dx c.dy := by
  simp only [group, List.mem_map, Prod.exists, Window.mem_shifts]
  constructor
  · intro held
    obtain ⟨dx, dy, allowed, rfl⟩ := held
    exact ⟨allowed, rfl⟩
  · intro held
    obtain ⟨allowed, same⟩ := held
    exact ⟨_, _, allowed, same.symm⟩

theorem mem_hypotheses :
    c ∈ s.hypotheses ↔ ∃ w, s.windows[c.rotation]? = some w ∧ w.Allows c.dx c.dy ∧
      c = s.hypothesis c.rotation c.dx c.dy := by
  simp only [hypotheses, List.mem_flatMap, Prod.exists, List.mk_mem_zipIdx_iff_getElem?, mem_group]
  constructor
  · intro held
    obtain ⟨w, rotation, found, allowed, same⟩ := held
    have turned : c.rotation = rotation := congrArg Candidate.rotation same
    subst turned
    exact ⟨w, found, allowed, same⟩
  · intro held
    obtain ⟨w, found, allowed, same⟩ := held
    exact ⟨w, c.rotation, found, allowed, same⟩

theorem rotation_lt (sound : s.Sound) (member : c ∈ s.hypotheses) : c.rotation < s.rotations := by
  obtain ⟨w, found, _⟩ := mem_hypotheses.mp member
  exact sound.lt_of_window found

theorem zero_mem_hypotheses (sound : s.Sound) :
    s.hypothesis s.zeroRotation 0 0 ∈ s.hypotheses := by
  have inside : s.zeroRotation < s.windows.length := by
    rw [sound.length_windows, zeroRotation, rotations]
    omega
  refine mem_hypotheses.mpr ⟨_, List.getElem?_eq_getElem inside, ?_, rfl⟩
  exact (sound.around _ (List.getElem_mem inside)).zero

theorem group_rising (s : SearchSpace) (w : Window) (rotation : Nat) :
    (s.group w rotation).Pairwise Candidate.Earlier := by
  refine List.pairwise_map.mpr (w.shifts_rising.imp ?_)
  intro p q earlier
  exact .inr ⟨rfl, earlier⟩

theorem hypotheses_rising (s : SearchSpace) : s.hypotheses.Pairwise Candidate.Earlier := by
  have places : s.windows.zipIdx.Pairwise fun a b => a.2 < b.2 := by
    refine List.pairwise_map.mp ?_
    rw [List.zipIdx_map_snd]
    exact List.pairwise_lt_range'
  refine List.pairwise_flatMap.mpr ⟨?_, ?_⟩
  · intro entry _
    exact s.group_rising entry.1 entry.2
  · refine places.imp ?_
    intro p q less a first b second
    have one := congrArg Candidate.rotation (mem_group.mp first).2
    have two := congrArg Candidate.rotation (mem_group.mp second).2
    refine .inl ?_
    rw [one, two]
    exact less

-- Cutting off each sum loses nothing that cutting off the last one would keep.
theorem foldl_size (windows : List Window) (total : Nat) :
    windows.foldl (fun total w => min greatestCount (total + w.size)) (min greatestCount total) =
      min greatestCount (total + (windows.flatMap Window.shifts).length) := by
  induction windows generalizing total with
  | nil => rfl
  | cons w rest ih =>
    have cut : min greatestCount (min greatestCount total + w.size) =
        min greatestCount (total + w.shifts.length) := by
      unfold Window.size
      rw [Window.length_shifts]
      omega
    rw [List.foldl_cons, cut, ih, List.flatMap_cons, List.length_append, Nat.add_assoc]

theorem length_hypotheses (s : SearchSpace) :
    s.hypotheses.length = (s.windows.flatMap Window.shifts).length := by
  have groups (windows : List Window) (start : Nat) :
      ((windows.zipIdx start).flatMap fun (w, rotation) => s.group w rotation).length =
        (windows.flatMap Window.shifts).length := by
    induction windows generalizing start with
    | nil => rfl
    | cons w rest ih =>
      have own : (s.group w start).length = w.shifts.length := by rw [group, List.length_map]
      rw [List.zipIdx_cons, List.flatMap_cons, List.length_append, ih, own, List.flatMap_cons,
        List.length_append]
  exact groups s.windows 0

theorem size_eq (s : SearchSpace) : s.size = min greatestCount s.hypotheses.length := by
  have total := foldl_size s.windows 0
  rw [Nat.zero_add, ← length_hypotheses] at total
  exact total

theorem length_eq_size (room : s.size * 32 ≤ mostBytes) : s.hypotheses.length = s.size := by
  have size := s.size_eq
  unfold mostBytes at room
  unfold greatestCount at size
  omega

theorem candidates_eq (sound : s.Sound) :
    s.candidates = (reserve s.size 32).map fun _ => s.hypotheses := by
  have groups : (s.windows.zipIdx.mapM fun (w, rotation) =>
      w.shifts.mapM fun (dx, dy) => s.candidate rotation dx dy) =
        .ok (s.windows.zipIdx.map fun (w, rotation) => s.group w rotation) := by
    refine mapM_eq_ok ?_
    intro ⟨w, rotation⟩ member
    have inside : rotation < s.rotations :=
      sound.lt_of_window (List.mk_mem_zipIdx_iff_getElem?.mp member)
    refine mapM_eq_ok ?_
    intro ⟨dx, dy⟩ _
    exact candidate_eq sound inside dx dy
  unfold candidates
  rw [groups]
  by_cases room : s.size * 32 ≤ mostBytes
  · rw [reserve_eq_ok_iff.mpr room]
    exact if_pos (length_eq_size room)
  · rw [reserve, if_neg room]
    rfl

end SearchSpace

section Packs

variable (V : Type) [Packed V] [Lanewise V]

theorem Limits.projectTurned_eq (l : Limits) (r : Rotation) (translation : Point)
    (points : List Point) :
    l.projectTurned V r translation points =
      points.map fun p => l.cellOf (p.rotate r + translation) := by
  fun_induction Limits.projectTurned V l r translation points with
  | case1 p q s t rest xs ys sine cosine turnedX turnedY gridX gridY ih =>
    -- Each lane goes through the steps that its point would go through alone.
    simp only [gridX, gridY, turnedX, turnedY, xs, ys, sine, cosine, Lanewise.lanes_div,
      Lanewise.lanes_sub, Lanewise.lanes_add, Lanewise.lanes_mul, Lanewise.lanes_pack,
      Lanewise.lanes_spread, ih]
    rfl
  | case2 rest => rfl

theorem ScanBank.buildPacked_eq (cloud : Cloud) (s : SearchSpace) (l : Limits) (translation : Point) :
    buildPacked V cloud s l translation =
      (cloud.turned s).map fun turned => projectAll l turned translation := by
  have scans (angle : Single) : l.projectTurned V (.ofAngle angle) translation cloud.points =
      l.project (cloud.rotate angle) translation := by
    simp only [Limits.projectTurned_eq, Limits.project, Cloud.rotate, List.map_map]
    rfl
  simp only [buildPacked, Cloud.turned, scans]
  cases s.angles with
  | error fault => rfl
  | ok angles => simp [bind, Except.bind, pure, Except.pure, Except.map, projectAll]

end Packs

namespace SearchSpace

variable {s : SearchSpace} {l : Limits} {b : ScanBank} {cloud : Cloud} {translation : Point}
  {place : Nat}

def scan (s : SearchSpace) (l : Limits) (cloud : Cloud) (translation : Point) (place : Nat) : CellScan :=
  l.project (cloud.rotate (s.angle place)) translation

def bank (s : SearchSpace) (l : Limits) (cloud : Cloud) (translation : Point) : ScanBank :=
  ⟨((List.range s.rotations).map (s.scan l cloud translation)).toArray⟩

def turnedScans (s : SearchSpace) (cloud : Cloud) : List Cloud :=
  (List.range s.rotations).map fun place => cloud.rotate (s.angle place)

theorem turned_eq (sound : s.Sound) (cloud : Cloud) : cloud.turned s = .ok (s.turnedScans cloud) := by
  simp [Cloud.turned, turnedScans, angles_eq sound, bind, Except.bind, pure, Except.pure]

theorem projectAll_turnedScans (s : SearchSpace) (l : Limits) (cloud : Cloud) (translation : Point) :
    ScanBank.projectAll l (s.turnedScans cloud) translation = s.bank l cloud translation := by
  simp [ScanBank.projectAll, turnedScans, bank, scan]

theorem buildPacked_ok (V : Type) [Packed V] [Lanewise V] (sound : s.Sound) (l : Limits) (cloud : Cloud)
    (translation : Point) :
    ScanBank.buildPacked V cloud s l translation = .ok (s.bank l cloud translation) := by
  rw [ScanBank.buildPacked_eq, turned_eq sound, Except.map, projectAll_turnedScans]

theorem build_eq (sound : s.Sound) (l : Limits) (cloud : Cloud) (translation : Point) :
    ScanBank.build cloud s l translation = .ok (s.bank l cloud translation) :=
  buildPacked_ok Lanes sound l cloud translation

theorem size_bank : (s.bank l cloud translation).size = s.rotations := by
  simp [bank, ScanBank.size]

theorem getElem?_bank (inside : place < s.rotations) :
    (s.bank l cloud translation).scans[place]? = some (s.scan l cloud translation place) := by
  simp [bank, inside]

def fitted (s : SearchSpace) (b : ScanBank) (l : Limits) : SearchSpace :=
  { s with windows :=
      (s.windows.zip b.scans.toList).map fun (w, scan) => w.clip (Window.kept l scan) }

theorem fit_eq (sized : b.size = s.rotations) (l : Limits) :
    s.fit b l = .ok (s.fitted b l) := by
  have windows : ((s.windows.zip b.scans.toList).mapM fun (w, scan) => w.fit l scan) =
      .ok (s.fitted b l).windows := by
    refine mapM_eq_ok ?_
    intro ⟨w, scan⟩ _
    exact Window.fit_eq l w scan
  rw [fit, if_pos sized, windows]
  rfl

theorem getElem?_fitted {window : Window} :
    (s.fitted b l).windows[place]? = some window ↔
      ∃ w scan, s.windows[place]? = some w ∧ b.scans[place]? = some scan ∧
        w.clip (Window.kept l scan) = window := by
  simp only [fitted, List.getElem?_map, Option.map_eq_some_iff, Prod.exists,
    List.getElem?_zip_eq_some, Array.getElem?_toList, and_assoc]

theorem length_fitted (listed : s.windows.length = s.rotations) (sized : b.size = s.rotations)
    (l : Limits) : (s.fitted b l).windows.length = s.rotations := by
  have scans : b.scans.toList.length = s.rotations := sized
  simp [fitted, listed, scans]

theorem fitted_sound (sound : s.Sound) (sized : b.size = s.rotations) (l : Limits) :
    (s.fitted b l).Sound := by
  refine ⟨sound.turns_le, length_fitted sound.length_windows sized l, ?_⟩
  intro window member
  obtain ⟨place, found⟩ := List.mem_iff_getElem?.mp member
  obtain ⟨w, scan, before, _, rfl⟩ := getElem?_fitted.mp found
  exact (sound.around w (List.mem_of_getElem? before)).clip _

end SearchSpace

end ScanAlign
