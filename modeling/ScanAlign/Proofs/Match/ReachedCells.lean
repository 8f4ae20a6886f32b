import ScanAlign.Proofs.Match.Schedules
import ScanAlign.Proofs.Match.Start

namespace ScanAlign

-- The cell at the full distance, where `shift` would stop at the edge of 32 bits.
def Cell.moved (c : Cell) (dx dy : Int) : Cell := ⟨c.x + dx, c.y + dy⟩

namespace Limits

variable {l : Limits} {c : Cell} {dx dy : Int} {origin : Point} {resolution : Single}
  {columns rows : Nat}

theorem make_eq_ok_iff :
    make origin resolution columns rows = .ok l ↔
      l.origin = origin ∧ l.resolution = resolution ∧ l.columns = columns ∧ l.rows = rows := by
  constructor
  · intro made
    unfold make at made
    split at made
    · split at made
      · split at made
        · cases made
          exact ⟨rfl, rfl, rfl, rfl⟩
        · cases made
      · cases made
    · cases made
  · intro same
    obtain ⟨rfl, rfl, rfl, rfl⟩ := same
    simp [make, l.resolution_finite, l.resolution_pos, l.origin_finite, l.columns_pos, l.columns_lt,
      l.rows_pos, l.rows_lt]

theorem contains_shift_eq (l : Limits) (c : Cell) (dx dy : Int) :
    l.contains (c.shift dx dy) = l.contains (c.moved dx dy) := by
  rw [Bool.eq_iff_iff, contains_shift, contains_iff, Cell.moved]

theorem shift_eq_moved (inside : l.contains (c.shift dx dy) = true) :
    c.shift dx dy = c.moved dx dy := by
  have columns := l.columns_lt
  have rows := l.rows_lt
  obtain ⟨⟨left, right⟩, low, high⟩ := contains_shift.mp inside
  simp only [Cell.shift, Cell.moved, Single.saturate, Single.leastWhole, Single.greatestWhole,
    Cell.mk.injEq]
  omega

theorem index?_shift (l : Limits) (c : Cell) (dx dy : Int) :
    l.index? (c.shift dx dy) = l.index? (c.moved dx dy) := by
  cases inside : l.contains (c.shift dx dy) with
  | true => simp only [shift_eq_moved inside]
  | false =>
    have outside := (l.contains_shift_eq c dx dy).symm.trans inside
    simp [index?, inside, outside]

end Limits

theorem ProbabilityMap.read_shift (m : ProbabilityMap) (c : Cell) (dx dy : Int) :
    m.read (c.shift dx dy) = m.read (c.moved dx dy) := by
  simp only [read, Limits.index?_shift]

theorem DistanceMap.read_shift (m : DistanceMap) (c : Cell) (dx dy : Int) :
    m.read (c.shift dx dy) = m.read (c.moved dx dy) := by
  simp only [read, Limits.index?_shift]

-- What a map says of a list of cells, cell by cell.
inductive Readout where
  | probabilities (values : List Single)
  | distances (truncation : Single) (readings : List Reading)

namespace Readout

def mean (values : List Single) : Single :=
  if values.isEmpty then .zero else values.foldl (· + ·) .zero / .ofInt values.length

def evidence (truncation : Single) (readings : List Reading) : Evidence :=
  readings.foldl
    (fun e r => ⟨e.total + (truncation - r.distance.abs) / truncation * r.weight, e.weight + r.weight⟩)
    ⟨.zero, .zero⟩

def score : Readout → Single
  | probabilities values => mean values
  | distances truncation readings => (evidence truncation readings).mean

def checked : Readout → Except Fault Single
  | probabilities values =>
    if values.isEmpty || Single.zero < mean values then .ok (mean values)
    else .error .probabilityScore
  | distances truncation readings =>
    let e := evidence truncation readings
    if e.weight.isZero || Single.zero ≤ e.mean then .ok e.mean else .error .distanceScore

end Readout

namespace Map

variable {m : Map} {scan : CellScan} {dx dy : Int}

def readout (m : Map) (cells : List Cell) : Readout :=
  match m with
  | probability p => .probabilities (cells.map p.read)
  | distance d => .distances d.truncation (cells.map d.read)

theorem mean_readout (p : ProbabilityMap) (scan : CellScan) (dx dy : Int) :
    p.meanProbability scan dx dy = Readout.mean ((scan.map (·.shift dx dy)).map p.read) := by
  simp only [ProbabilityMap.meanProbability, Readout.mean, List.map_map, List.isEmpty_map,
    List.length_map, List.foldl_map, Function.comp_apply]

theorem evidence_readout (d : DistanceMap) (scan : CellScan) (dx dy : Int) :
    d.evidence scan dx dy =
      Readout.evidence d.truncation ((scan.map (·.shift dx dy)).map d.read) := by
  simp only [DistanceMap.evidence, Readout.evidence, List.map_map, List.foldl_map,
    Function.comp_apply]
  rfl

theorem rawScore_eq (m : Map) (scan : CellScan) (dx dy : Int) :
    m.rawScore scan dx dy = (m.readout (scan.map (·.shift dx dy))).score := by
  cases m with
  | probability p => exact mean_readout p scan dx dy
  | distance d => exact congrArg Evidence.mean (evidence_readout d scan dx dy)

theorem checkedScore_eq (m : Map) (scan : CellScan) (dx dy : Int) :
    m.checkedScore scan dx dy = (m.readout (scan.map (·.shift dx dy))).checked := by
  cases m with
  | probability p => simp [checkedScore, readout, Readout.checked, mean_readout]
  | distance d => simp only [checkedScore, readout, Readout.checked, evidence_readout]

theorem readout_shift (m : Map) (scan : CellScan) (dx dy : Int) :
    m.readout (scan.map (·.shift dx dy)) = m.readout (scan.map (·.moved dx dy)) := by
  cases m with
  | probability p =>
    simp only [readout, List.map_map, Function.comp_def, ProbabilityMap.read_shift]
  | distance d => simp only [readout, List.map_map, Function.comp_def, DistanceMap.read_shift]

end Map

theorem shifts_unbounded {origin : Point} {resolution : Single} {columns rows : Nat} {l : Limits}
    (accepted : Limits.make origin resolution columns rows = .ok l) :
    (∀ (c : Cell) (dx dy : Int),
      (l.contains (c.shift dx dy) = true ↔
        (0 ≤ c.x + dx ∧ c.x + dx < columns) ∧ 0 ≤ c.y + dy ∧ c.y + dy < rows) ∧
      (l.contains (c.shift dx dy) = true → c.shift dx dy = c.moved dx dy)) ∧
    ∀ m : Map, m.limits = l → ∀ (scan : CellScan) (dx dy : Int),
      m.rawScore scan dx dy = (m.readout (scan.map (·.moved dx dy))).score ∧
        m.checkedScore scan dx dy = (m.readout (scan.map (·.moved dx dy))).checked := by
  obtain ⟨_, _, rfl, rfl⟩ := Limits.make_eq_ok_iff.mp accepted
  refine ⟨?_, ?_⟩
  · intro c dx dy
    exact ⟨Limits.contains_shift, Limits.shift_eq_moved⟩
  · intro m _ scan dx dy
    rw [Map.rawScore_eq, Map.checkedScore_eq, Map.readout_shift]
    exact ⟨rfl, rfl⟩

-- A cell at the edge of 32 bits: it can be brought onto the map, and no shift wraps or sticks there.
theorem shifts_unbounded_edge :
    Cell.shift ⟨Single.greatestWhole, 0⟩ (1 - Single.greatestWhole) 0 = ⟨1, 0⟩ ∧
      TwoCells.limits.contains (Cell.shift ⟨Single.greatestWhole, 0⟩ 1 0) = false ∧
      TwoCells.map.rawScore [⟨Single.greatestWhole, 0⟩] 1 0 =
        (TwoCells.map.readout [⟨Single.greatestWhole + 1, 0⟩]).score := by
  have accepted : Limits.make ⟨.zero, .zero⟩ .one 2 1 = .ok TwoCells.limits :=
    Limits.make_eq_ok_iff.mpr ⟨rfl, rfl, rfl, rfl⟩
  obtain ⟨shifts, scores⟩ := shifts_unbounded accepted
  refine ⟨?_, ?_, ?_⟩
  · obtain ⟨inside, unsaturated⟩ := shifts ⟨Single.greatestWhole, 0⟩ (1 - Single.greatestWhole) 0
    exact unsaturated (inside.mpr (by decide))
  · apply Bool.eq_false_iff.mpr
    intro inside
    exact absurd ((shifts ⟨Single.greatestWhole, 0⟩ 1 0).1.mp inside) (by decide)
  · exact (scores TwoCells.map rfl [⟨Single.greatestWhole, 0⟩] 1 0).1

namespace Map

-- Maps of one kind in one frame; distance maps also with one truncation distance.
inductive Alike : Map → Map → Prop
  | probability {p q : ProbabilityMap} (limits : p.limits = q.limits) :
      Alike (.probability p) (.probability q)
  | distance {d e : DistanceMap} (limits : d.limits = e.limits)
      (truncation : d.truncation = e.truncation) : Alike (.distance d) (.distance e)

def AgreeAt : Map → Map → Cell → Prop
  | probability p, probability q, c => p.read c = q.read c
  | distance d, distance e, c => d.read c = e.read c
  | _, _, _ => False

instance (m m' : Map) (c : Cell) : Decidable (m.AgreeAt m' c) :=
  match m, m' with
  | probability p, probability q => inferInstanceAs (Decidable (p.read c = q.read c))
  | distance d, distance e => inferInstanceAs (Decidable (d.read c = e.read c))
  | probability _, distance _ | distance _, probability _ => inferInstanceAs (Decidable False)

variable {m m' : Map} {cells : List Cell} {scan : CellScan} {dx dy : Int} {c : Cell}

theorem Alike.limits_eq (alike : Alike m m') : m.limits = m'.limits := by
  cases alike with
  | probability limits => exact limits
  | distance limits _ => exact limits

theorem Alike.agreeAt_outside (alike : Alike m m') (outside : m.limits.contains c = false) :
    m.AgreeAt m' c := by
  cases alike with
  | @probability p q limits =>
    change p.limits.contains c = false at outside
    simp [AgreeAt, ProbabilityMap.read, Limits.index?, ← limits, outside]
  | @distance d e limits truncation =>
    change d.limits.contains c = false at outside
    simp [AgreeAt, DistanceMap.read, Limits.index?, ← limits, ← truncation, outside]

theorem Alike.readout_eq (alike : Alike m m') (agree : ∀ c ∈ cells, m.AgreeAt m' c) :
    m.readout cells = m'.readout cells := by
  cases alike with
  | probability limits => exact congrArg Readout.probabilities (List.map_congr_left agree)
  | @distance d e limits truncation =>
    have readings : cells.map d.read = cells.map e.read := List.map_congr_left agree
    simp only [readout, truncation, readings]

-- Only the cells that stay on the map matter, each at the full distance of the shift.
theorem Alike.checkedScore_eq_of_agree (alike : Alike m m')
    (agree : ∀ q ∈ scan, m.limits.contains (q.moved dx dy) = true → m.AgreeAt m' (q.moved dx dy)) :
    m.checkedScore scan dx dy = m'.checkedScore scan dx dy := by
  have everywhere : ∀ c ∈ scan.map (·.moved dx dy), m.AgreeAt m' c := by
    intro c member
    obtain ⟨q, onScan, rfl⟩ := List.mem_map.mp member
    cases inside : m.limits.contains (q.moved dx dy) with
    | true => exact agree q onScan inside
    | false => exact alike.agreeAt_outside inside
  rw [checkedScore_eq, checkedScore_eq, readout_shift, readout_shift, alike.readout_eq everywhere]

end Map

namespace Matcher

-- A cell on the map that some candidate of a search brings a cell of its scan to.
def Search.Reaches (search : Search) (l : Limits) (c : Cell) : Prop :=
  l.contains c = true ∧ ∃ h ∈ search.candidates, ∃ scan,
    search.bank.scans[h.rotation]? = some scan ∧ ∃ q ∈ scan, q.moved h.dx h.dy = c

variable {t : Matcher} {initial : Pose} {cloud : Cloud} {m m' : Map} {search : Search}

theorem prepare_alike (alike : m.Alike m') :
    t.prepare initial cloud m = t.prepare initial cloud m' := by
  have layout : t.search initial cloud m = t.search initial cloud m' := by
    simp only [Matcher.search, alike.limits_eq]
  have refused : refusal? initial cloud m = refusal? initial cloud m' := by
    cases alike with
    | probability _ => rfl
    | distance _ _ => rfl
  simp only [prepare, layout, refused]

theorem scored_alike (alike : m.Alike m') (agree : ∀ c, search.Reaches m.limits c → m.AgreeAt m' c)
    {w : PriorWeights} {h : Candidate} (member : h ∈ search.candidates) :
    h.scored m search.bank w = h.scored m' search.bank w := by
  cases found : search.bank.scans[h.rotation]? with
  | none => simp only [Candidate.scored, found]
  | some scan =>
    have raw : m.checkedScore scan h.dx h.dy = m'.checkedScore scan h.dx h.dy := by
      apply alike.checkedScore_eq_of_agree
      intro q onScan inside
      exact agree _ ⟨inside, h, member, scan, found, q, onScan, rfl⟩
    simp only [Candidate.scored, found, raw]

theorem score_alike (alike : m.Alike m') (agree : ∀ c, search.Reaches m.limits c → m.AgreeAt m' c)
    (inBank : ∀ h ∈ search.candidates, h.rotation < search.bank.size) :
    t.score m search.bank search.candidates = t.score m' search.bank search.candidates := by
  rw [score_eq t m inBank, score_eq t m' inBank]
  apply mapM_congr
  intro h member
  exact scored_alike alike agree member

theorem align_reached (alike : m.Alike m')
    (agree : ∀ search, t.prepare initial cloud m = .ok search →
      ∀ c, search.Reaches m.limits c → m.AgreeAt m' c) :
    t.align initial cloud m = t.align initial cloud m' ∧
      ∀ k, t.alignBest initial cloud m k = t.alignBest initial cloud m' k := by
  have laidOut : t.prepare initial cloud m = t.prepare initial cloud m' := prepare_alike alike
  cases prepared : t.prepare initial cloud m with
  | error failure =>
    simp only [align, alignBest, ← laidOut, prepared, bind, Except.bind, implies_true, and_self]
  | ok search =>
    have scores : t.score m search.bank search.candidates = t.score m' search.bank search.candidates :=
      score_alike alike (agree search prepared) (prepared_inBank prepared)
    simp only [align, alignBest, ← laidOut, prepared, bind, Except.bind, scores, implies_true,
      and_self]

-- Without windows the scan stays on the first cell, so the second one has no say.
theorem align_reached_faint :
    ¬ TwoCells.map.AgreeAt TwoCells.faint ⟨1, 0⟩ ∧
      TwoCells.fixed.align .identity TwoCells.cloud TwoCells.map =
        TwoCells.fixed.align .identity TwoCells.cloud TwoCells.faint ∧
      TwoCells.fixed.alignBest .identity TwoCells.cloud TwoCells.map 3 =
        TwoCells.fixed.alignBest .identity TwoCells.cloud TwoCells.faint 3 := by
  have scans : (TwoCells.fixed.bank .identity TwoCells.cloud TwoCells.map).scans = #[[⟨0, 0⟩]] := by
    decide +kernel
  have unturned : (TwoCells.fixed.still .identity TwoCells.cloud TwoCells.map).rotation = 0 := by
    decide +kernel
  have listed : TwoCells.fixed.hypotheses .identity TwoCells.cloud TwoCells.map =
      [TwoCells.fixed.still .identity TwoCells.cloud TwoCells.map] :=
    hypotheses_still (by decide) (by decide)
  have agree (search : Search)
      (prepared : TwoCells.fixed.prepare .identity TwoCells.cloud TwoCells.map = .ok search)
      (c : Cell) (reached : search.Reaches TwoCells.map.limits c) :
      TwoCells.map.AgreeAt TwoCells.faint c := by
    obtain ⟨_, _, rfl⟩ := prepare_eq_ok_iff.mp prepared
    obtain ⟨_, h, member, scan, found, q, onScan, rfl⟩ := reached
    simp only [listed, List.mem_singleton] at member
    subst member
    simp only [scans, unturned] at found
    cases found
    rw [List.mem_singleton.mp onScan]
    decide +kernel
  have alike : TwoCells.map.Alike TwoCells.faint := .probability rfl
  obtain ⟨best, several⟩ := align_reached alike agree
  exact ⟨by decide +kernel, best, several 3⟩

end Matcher

end ScanAlign
