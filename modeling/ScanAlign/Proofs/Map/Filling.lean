import ScanAlign.Proofs.Match.RawScore

namespace ScanAlign

variable {l : Limits} {index : Nat}

namespace Limits

variable {α : Type} {f : Cell → α}

def table (l : Limits) (f : Cell → α) : Array α := (l.cells.map f).toArray

@[simp] theorem size_table : (l.table f).size = l.cellCount := by simp [table]

theorem getElem_table (inside : index < (l.table f).size) :
    (l.table f)[index] = f (l.cellAt index) := by
  simp [table, cells]

theorem mem_table_iff {a : α} : a ∈ l.table f ↔ ∃ c, l.contains c = true ∧ f c = a := by
  simp [table, mem_cells_iff]

theorem getD_table {c : Cell} (found : l.index? c = some index) (other : α) :
    (l.table f).getD index other = f c := by
  obtain ⟨below, same⟩ := cellAt_of_index? found
  have inside : index < (l.table f).size := by rwa [size_table]
  rw [Array.getD_eq_getD_getElem?, Array.getElem?_eq_getElem inside, Option.getD_some,
    getElem_table inside, same]

theorem read_table (f : Cell → α) (c : Cell) (other : α) :
    (match l.index? c with
      | some index => (l.table f).getD index other
      | none => other) = if l.contains c then f c else other := by
  cases inside : l.contains c with
  | true =>
    have found := index?_eq_some_iff.mpr ⟨inside, rfl⟩
    rw [found, if_pos rfl]
    exact getD_table found other
  | false =>
    have missing : l.index? c = none := by simp [index?, inside]
    rw [missing, if_neg Bool.false_ne_true]

end Limits

namespace ProbabilityMap

variable {m : ProbabilityMap} {f : Cell → Single} {table : Array Single} {c : Cell} {fault : Fault}

theorem ofTable_sound (size : table.size = l.cellCount)
    (sound : ∀ p ∈ table, p.isProbability = true) :
    ofTable l table = .ok ⟨l, table, size, sound⟩ := by
  have clean : table.findIdx? (fun p => !p.isProbability) = none := by
    simpa [Array.findIdx?_eq_none_iff] using sound
  unfold ofTable
  rw [dif_pos size]
  split
  · rename_i found
    rw [clean] at found
    cases found
  · rfl

theorem ofTable_failed (size : table.size = l.cellCount)
    (found : table.findIdx? (fun p => !p.isProbability) = some index) :
    ofTable l table = .error (.cell (l.cellAt index) .probabilityRange) := by
  unfold ofTable
  rw [dif_pos size]
  split
  · rename_i other first
    rw [found] at first
    cases first
    rfl
  · rename_i clean
    rw [found] at clean
    cases clean

theorem ofTable_resized (size : table.size ≠ l.cellCount) :
    ofTable l table = .error (.tableSize l.cellCount table.size) := dif_neg size

theorem defect?_eq_some_iff {p : Single} {reason : CellReason} :
    defect? p = some reason ↔ ¬ p.isProbability = true ∧ .probabilityRange = reason := by
  unfold defect?
  cases p.isProbability <;> simp

theorem defect?_ne_none_iff {p : Single} : defect? p ≠ none ↔ ¬ p.isProbability = true :=
  not_congr defect?_eq_none_iff

def FirstImproper (l : Limits) (f : Cell → Single) (c : Cell) : Prop :=
  l.FirstBad (fun d => ¬ (f d).isProbability = true) c

theorem ofTable_blames (first : FirstImproper l f c) :
    ofTable l (l.table f) = .error (.cell c .probabilityRange) := by
  obtain ⟨i, below, rfl, earlier⟩ := first.exists_index
  refine ofTable_failed Limits.size_table (Array.findIdx?_eq_some_iff_getElem.mpr ?_)
  refine ⟨by rwa [Limits.size_table], ?_, ?_⟩
  · rw [Limits.getElem_table, Bool.not_eq_true']
    exact eq_false_of_ne_true first.isBad
  · intro j less
    rw [Limits.getElem_table]
    simpa using earlier j less

theorem proper_iff : l.firstDefect? (fun c => defect? (f c)) = none ↔
    ∀ c, l.contains c = true → (f c).isProbability = true := by
  simp only [Limits.firstDefect?_eq_none_iff, Limits.mem_cells_iff, defect?_eq_none_iff]

theorem table_sound (proper : ∀ c, l.contains c = true → (f c).isProbability = true) :
    ∀ p ∈ l.table f, p.isProbability = true := by
  intro p member
  obtain ⟨c, inside, rfl⟩ := Limits.mem_table_iff.mp member
  exact proper c inside

theorem ofFunction_full (full : room l = .error fault) : ofFunction l f = .error (.fault fault) := by
  simp only [ofFunction, full, Except.mapError, bind, Except.bind]

-- The walk that stops at the first bad cell ends as the check of the whole table does.
theorem ofFunction_eq_ofTable (promised : room l = .ok ()) (f : Cell → Single) :
    ofFunction l f = (ofTable l (l.table f)).mapError .rejected := by
  unfold ofFunction
  rw [promised]
  dsimp only [Except.mapError, bind, Except.bind]
  split
  · rename_i c reason found
    obtain ⟨first, isBad⟩ := Limits.firstDefect?_eq_some_iff.mp found
    simp only [defect?_ne_none_iff] at first
    obtain ⟨_, rfl⟩ := defect?_eq_some_iff.mp isBad
    rw [ofTable_blames first]
  · rename_i clean
    rw [ofTable_sound Limits.size_table (table_sound (proper_iff.mp clean))]
    rfl

theorem read_eq (limits : m.limits = l) (cells : m.cells = l.table f) (c : Cell) :
    m.read c = if l.contains c then f c else lowest := by
  rw [read, limits, cells]
  exact Limits.read_table f c lowest

-- How filling a map from a function ends, room aside.
inductive Filled (l : Limits) (f : Cell → Single) : Except Failure ProbabilityMap → Prop
  | built {m : ProbabilityMap} (proper : ∀ c, l.contains c = true → (f c).isProbability = true)
      (limits : m.limits = l) (reads : ∀ c, m.read c = if l.contains c then f c else lowest) :
      Filled l f (.ok m)
  | blamed {c : Cell} (first : FirstImproper l f c) :
      Filled l f (.error (.rejected (.cell c .probabilityRange)))

theorem ofTable_filled (l : Limits) (f : Cell → Single) :
    Filled l f ((ofTable l (l.table f)).mapError .rejected) := by
  cases found : l.firstDefect? (fun c => defect? (f c)) with
  | some entry =>
    obtain ⟨c, reason⟩ := entry
    have first := (Limits.firstDefect?_eq_some_iff.mp found).1
    simp only [defect?_ne_none_iff] at first
    rw [ofTable_blames first]
    exact .blamed first
  | none =>
    have proper := proper_iff.mp found
    rw [ofTable_sound Limits.size_table (table_sound proper)]
    exact .built proper rfl (read_eq rfl rfl)

end ProbabilityMap

-- Why a reading cannot be held. A distance without a value is blamed before the weight.
inductive Reading.Flaw (r : Reading) : CellReason → Prop
  | distance (undefined : r.distance.isNaN = true) : Flaw r .distanceUndefined
  | weight (defined : r.distance.isNaN = false)
      (off : r.weight.isFinite = false ∨ r.weight < .zero) : Flaw r .weightRange

namespace DistanceMap

variable {m : DistanceMap} {t : Single} {f : Cell → Reading} {c : Cell} {fault : Fault} {r : Reading}
  {reason : CellReason}

theorem isNonnegative_eq_false_iff {w : Single} :
    w.isNonnegative = false ↔ w.isFinite = false ∨ w < .zero := by
  have start : Single.zero.isNaN = false ∧ Single.zero.position = 0 := by decide
  simp only [Single.isNonnegative, Bool.and_eq_false_iff, decide_eq_false_iff_not, Single.le_iff,
    Single.lt_iff, start.1, start.2, true_and]
  cases finite : w.isFinite with
  | false => simp
  | true => simp [(Single.isFinite_iff.mp finite).1]

theorem defect?_eq_some_iff : defect? r = some reason ↔ r.Flaw reason := by
  unfold defect?
  constructor
  · intro found
    split at found
    · rename_i undefined
      cases found
      exact .distance undefined
    · rename_i defined
      split at found
      · rename_i off
        cases found
        rw [Bool.not_eq_true'] at off
        exact .weight (eq_false_of_ne_true defined) (isNonnegative_eq_false_iff.mp off)
      · cases found
  · intro flaw
    cases flaw with
    | distance undefined => rw [if_pos undefined]
    | weight defined off =>
      rw [defined, isNonnegative_eq_false_iff.mpr off]
      rfl

theorem ofFunction_full (positive : t.isTruncation = true) (full : room l = .error fault) :
    ofFunction l t f = .error (.fault fault) := by
  unfold ofFunction
  rw [dif_pos positive, full]
  rfl

theorem ofFunction_blames (positive : t.isTruncation = true) (promised : room l = .ok ())
    (found : l.firstDefect? (fun c => defect? (f c)) = some (c, reason)) :
    ofFunction l t f = .error (.rejected (.cell c reason)) := by
  unfold ofFunction
  rw [dif_pos positive, promised]
  dsimp only [Except.mapError, bind, Except.bind]
  split
  · rename_i other
    rw [found] at other
    cases other
    rfl
  · rename_i clean
    rw [found] at clean
    cases clean

theorem ofFunction_sound (positive : t.isTruncation = true) (promised : room l = .ok ())
    (sound : ∀ c ∈ l.cells, defect? (f c) = none) :
    ∃ m, ofFunction l t f = .ok m ∧ m.limits = l ∧ m.truncation = t ∧
      m.cells = l.table fun c => cutOff t (f c) := by
  have clean : l.firstDefect? (fun c => defect? (f c)) = none := Limits.firstDefect?_eq_none_iff.mpr sound
  unfold ofFunction
  rw [dif_pos positive, promised]
  dsimp only [Except.mapError, bind, Except.bind]
  split
  · rename_i found
    rw [clean] at found
    cases found
  · exact ⟨_, rfl, rfl, rfl, rfl⟩

theorem read_eq (limits : m.limits = l) (truncation : m.truncation = t) {g : Cell → Reading}
    (cells : m.cells = l.table g) (c : Cell) :
    m.read c = if l.contains c then g c else ⟨t, .zero⟩ := by
  rw [read, limits, truncation, cells]
  exact Limits.read_table g c _

theorem defect?_eq_none_iff : defect? r = none ↔ ∀ reason, ¬ r.Flaw reason := by
  simp only [← defect?_eq_some_iff, Option.eq_none_iff_forall_ne_some, ne_eq]

def FirstFlawed (l : Limits) (f : Cell → Reading) (c : Cell) : Prop :=
  l.FirstBad (fun d => ∃ reason, (f d).Flaw reason) c

inductive Filled (l : Limits) (t : Single) (f : Cell → Reading) : Except Failure DistanceMap → Prop
  | built {m : DistanceMap} (flawless : ∀ c, l.contains c = true → ∀ reason, ¬ (f c).Flaw reason)
      (limits : m.limits = l)
      (reads : ∀ c, m.read c =
        if l.contains c then ⟨(f c).distance.clamp (-t) t, (f c).weight⟩ else ⟨t, .zero⟩)
      (bounded : ∀ c, (-t ≤ (m.read c).distance ∧ (m.read c).distance ≤ t) ∧
        (m.read c).weight.isFinite = true ∧ .zero ≤ (m.read c).weight) :
      Filled l t f (.ok m)
  | blamed {c : Cell} {reason : CellReason} (first : FirstFlawed l f c) (flaw : (f c).Flaw reason) :
      Filled l t f (.error (.rejected (.cell c reason)))

theorem read_bounded (truncation : m.truncation = t) (c : Cell) :
    (-t ≤ (m.read c).distance ∧ (m.read c).distance ≤ t) ∧
      (m.read c).weight.isFinite = true ∧ Single.zero ≤ (m.read c).weight := by
  have within := m.read_isWithin c
  simp only [Reading.isWithin, Bool.and_eq_true, decide_eq_true_eq, Single.isNonnegative_iff] at within
  rwa [truncation] at within

theorem ofFunction_filled (positive : t.isTruncation = true) (promised : room l = .ok ())
    (f : Cell → Reading) : Filled l t f (ofFunction l t f) := by
  cases found : l.firstDefect? (fun c => defect? (f c)) with
  | some entry =>
    obtain ⟨c, reason⟩ := entry
    rw [ofFunction_blames positive promised found]
    obtain ⟨first, flaw⟩ := Limits.firstDefect?_eq_some_iff.mp found
    simp only [ne_eq, defect?_eq_none_iff, not_forall, not_not] at first
    exact .blamed first (defect?_eq_some_iff.mp flaw)
  | none =>
    have sound := Limits.firstDefect?_eq_none_iff.mp found
    obtain ⟨m, made, limits, truncation, cells⟩ := ofFunction_sound positive promised sound
    rw [made]
    refine .built ?_ limits (read_eq limits truncation cells) (read_bounded truncation)
    intro c inside
    exact defect?_eq_none_iff.mp (sound c (Limits.mem_cells_iff.mpr inside))

end DistanceMap

namespace Limits

theorem filling_exact (l : Limits) :
    (∀ f, ProbabilityMap.Filled l f ((ProbabilityMap.ofTable l (l.table f)).mapError .rejected)) ∧
      (∀ table, table.size ≠ l.cellCount →
        ProbabilityMap.ofTable l table = .error (.tableSize l.cellCount table.size)) ∧
      (ProbabilityMap.room l = .ok () → ∀ f, ProbabilityMap.ofFunction l f =
        (ProbabilityMap.ofTable l (l.table f)).mapError .rejected) ∧
      (DistanceMap.room l = .ok () → ∀ t f, t.isTruncation = true →
        DistanceMap.Filled l t f (DistanceMap.ofFunction l t f)) ∧
      (∀ fault, ProbabilityMap.room l = .error fault →
        ∀ f, ProbabilityMap.ofFunction l f = .error (.fault fault)) ∧
      ∀ fault, DistanceMap.room l = .error fault →
        ∀ t f, t.isTruncation = true → DistanceMap.ofFunction l t f = .error (.fault fault) := by
  refine ⟨ProbabilityMap.ofTable_filled l, fun _ => ProbabilityMap.ofTable_resized, ?_, ?_, ?_, ?_⟩
  · exact ProbabilityMap.ofFunction_eq_ofTable
  · exact fun promised t f positive => DistanceMap.ofFunction_filled positive promised f
  · exact fun fault full f => ProbabilityMap.ofFunction_full full
  · exact fun fault full t f positive => DistanceMap.ofFunction_full positive full

-- Two cells hold no reading: the last one of the second row and the first one of the third.
def torn (c : Cell) : Reading :=
  if c = ⟨3, 1⟩ then ⟨.nan, -.one⟩ else if c = ⟨0, 2⟩ then ⟨.zero, -.one⟩ else ⟨.zero, .one⟩

theorem torn_sound {c : Cell} (before : c.RowBefore ⟨3, 1⟩) (reason : CellReason) :
    ¬ (torn c).Flaw reason := by
  have last : c ≠ ⟨3, 1⟩ := by
    rintro rfl
    simp [Cell.RowBefore] at before
  have next : c ≠ ⟨0, 2⟩ := by
    rintro rfl
    simp [Cell.RowBefore] at before
  rw [torn, if_neg last, if_neg next]
  have sound : DistanceMap.defect? ⟨.zero, .one⟩ = none := by decide
  exact DistanceMap.defect?_eq_none_iff.mp sound reason

theorem torn_first : DistanceMap.FirstFlawed twelveCells torn ⟨3, 1⟩ where
  inside := by decide
  isBad := ⟨_, .distance (by decide)⟩
  earlier := by
    rintro c _ before ⟨reason, flaw⟩
    exact torn_sound before reason flaw

theorem filling_exact_twelveCells :
    (∃ m, ProbabilityMap.ofFunction twelveCells (fun _ => .one) = .ok m ∧
        m.read ⟨3, 1⟩ = .one ∧ m.read ⟨1, 3⟩ = ProbabilityMap.lowest) ∧
      DistanceMap.ofFunction twelveCells .one torn =
        .error (.rejected (.cell ⟨3, 1⟩ .distanceUndefined)) := by
  obtain ⟨table, _, alike, distance, _⟩ := filling_exact twelveCells
  have filled := table fun _ => .one
  rw [← alike (by decide) fun _ => .one] at filled
  have torn_filled := distance (by decide) .one torn (by decide)
  constructor
  · cases outcome : ProbabilityMap.ofFunction twelveCells (fun _ => .one) with
    | ok m =>
      rw [outcome] at filled
      cases filled with
      | built _ _ reads => exact ⟨m, rfl, reads ⟨3, 1⟩, reads ⟨1, 3⟩⟩
    | error failure =>
      rw [outcome] at filled
      cases filled with
      | blamed first => exact absurd (show Single.one.isProbability = true by decide) first.isBad
  · cases outcome : DistanceMap.ofFunction twelveCells .one torn with
    | ok m =>
      rw [outcome] at torn_filled
      cases torn_filled with
      | built flawless =>
        obtain ⟨reason, flaw⟩ := torn_first.isBad
        exact absurd flaw (flawless ⟨3, 1⟩ torn_first.inside reason)
    | error failure =>
      rw [outcome] at torn_filled
      cases torn_filled with
      | blamed first flaw =>
        obtain rfl := torn_first.unique first
        cases flaw with
        | distance => rfl
        | weight defined => exact absurd defined (by decide)

def FillsExactly (l : Limits) : Prop :=
  (∀ f, ProbabilityMap.Filled l f (ProbabilityMap.ofFunction l f) ∧
      ProbabilityMap.ofFunction l f = (ProbabilityMap.ofTable l (l.table f)).mapError .rejected) ∧
    (∀ table, table.size ≠ l.cellCount →
      ProbabilityMap.ofTable l table = .error (.tableSize l.cellCount table.size)) ∧
    ∀ t f, t.isTruncation = true → DistanceMap.Filled l t f (DistanceMap.ofFunction l t f)

def vast : Limits :=
  { twelveCells with
    columns := 2147483647
    rows := 2147483647
    columns_pos := by decide
    columns_lt := by decide
    rows_pos := by decide
    rows_lt := by decide }

theorem not_fillsExactly_vast : ¬ vast.FillsExactly := by
  rintro ⟨_, _, distance⟩
  have positive : Single.one.isTruncation = true := by decide
  have full : DistanceMap.room vast = .error .capacity := by decide +kernel
  have filled := distance .one (fun _ => ⟨.nan, .zero⟩) positive
  rw [DistanceMap.ofFunction_full positive full] at filled
  cases filled

end Limits

end ScanAlign
