import ScanAlign.Matcher
import ScanAlign.Proofs.Map.Indexing
import ScanAlign.Proofs.Number.Sums

namespace ScanAlign

theorem Single.isTruncation_iff {t : Single} :
    t.isTruncation = true ↔ t.isFinite = true ∧ Single.zero < t := by
  simp [Single.isTruncation]

theorem Single.isPlus_of_isTruncation {t : Single} (positive : t.isTruncation = true) : t.IsPlus :=
  (Single.isPlus_of_pos (Single.isTruncation_iff.mp positive).2).1

namespace DistanceMap

variable {m : DistanceMap} {r : Reading} {e : Evidence}

theorem truncation_isPlus (m : DistanceMap) :
    m.truncation.isFinite = true ∧ m.truncation.IsPlus ∧ m.truncation.isZero = false := by
  obtain ⟨finite, positive⟩ := Single.isTruncation_iff.mp m.truncation_valid
  exact ⟨finite, Single.isPlus_of_pos positive⟩

theorem unseen_isWithin (m : DistanceMap) :
    (⟨m.truncation, .zero⟩ : Reading).isWithin m.truncation = true := by
  obtain ⟨_, plus, _⟩ := m.truncation_isPlus
  have zero : Single.zero.isNonnegative = true := by decide
  simp [Reading.isWithin, zero, Single.le_iff, plus.number, plus.position_eq]

theorem read_isWithin (m : DistanceMap) (c : Cell) : (m.read c).isWithin m.truncation = true := by
  unfold read
  cases m.limits.index? c with
  | none => exact m.unseen_isWithin
  | some index =>
    by_cases inside : index < m.cells.size
    · simp only [Array.getD_eq_getD_getElem?, Array.getElem?_eq_getElem inside, Option.getD_some]
      exact m.valid _ (Array.getElem_mem inside)
    · simp only [Array.getD_eq_getD_getElem?, Array.getElem?_eq_none (Nat.le_of_not_lt inside),
        Option.getD_none]
      exact m.unseen_isWithin

theorem isWithin_spec (within : r.isWithin m.truncation = true) :
    r.distance.isFinite = true ∧ r.distance.magnitude ≤ m.truncation.magnitude ∧
      r.weight.isFinite = true ∧ Single.zero ≤ r.weight := by
  obtain ⟨finite, plus, _⟩ := m.truncation_isPlus
  simp only [Reading.isWithin, Bool.and_eq_true, decide_eq_true_eq, Single.isNonnegative_iff,
    Single.le_iff, Single.position_neg, plus.position_eq] at within
  obtain ⟨⟨⟨_, number, low⟩, _, _, high⟩, weight⟩ := within
  have near : r.distance.magnitude ≤ m.truncation.magnitude := by
    cases sign : r.distance.negative with
    | true =>
      simp only [Single.position, sign, if_true] at low
      omega
    | false =>
      simp only [Single.position, sign, Bool.false_eq_true, if_false] at high
      omega
  exact ⟨Single.isFinite_of_le finite near, near, weight.1, Single.le_iff.mpr weight.2⟩

theorem closeness_bounds (within : r.isWithin m.truncation = true) :
    (m.closeness r.distance).IsPlus ∧
      (m.closeness r.distance).magnitude ≤ Single.one.magnitude := by
  obtain ⟨finite, plus, nonzero⟩ := m.truncation_isPlus
  obtain ⟨distanceFinite, near, _, _⟩ := isWithin_spec within
  have absPlus : r.distance.abs.IsPlus := ⟨(Single.isFinite_iff.mp distanceFinite).1, rfl⟩
  obtain ⟨rest, le⟩ := plus.sub absPlus finite distanceFinite near
  have restFinite := Single.isFinite_of_le finite le
  have bounded : (m.closeness r.distance).magnitude ≤ Single.one.magnitude := by
    apply Single.magnitude_div_le restFinite finite nonzero
    rw [Single.quanta_one, Nat.mul_comm]
    exact Nat.mul_le_mul_left _ (Single.quanta_le_iff.mpr le)
  refine ⟨rest.div plus ?_, bounded⟩
  rw [Single.isNaN_eq_false_iff]
  exact Nat.le_trans bounded (by decide)

structure EvidenceIsPlus (e : Evidence) : Prop where
  total : e.total.IsPlus
  weight : e.weight.IsPlus

theorem observe_isPlus (plus : EvidenceIsPlus e) (m : DistanceMap) (c : Cell) :
    EvidenceIsPlus (m.observe e c) := by
  have within := m.read_isWithin c
  obtain ⟨_, _, weightFinite, weight⟩ := isWithin_spec within
  obtain ⟨closeness, bounded⟩ := closeness_bounds within
  have closenessFinite := Single.isFinite_of_le Single.one_isFinite bounded
  refine ⟨plus.total.add ?_, plus.weight.add weight⟩
  exact Single.zero_le_mul closenessFinite weightFinite closeness.zero_le weight

theorem foldl_observe_isPlus (plus : EvidenceIsPlus e) (m : DistanceMap) (scan : CellScan)
    (dx dy : Int) : EvidenceIsPlus (scan.foldl (fun e c => m.observe e (c.shift dx dy)) e) := by
  induction scan generalizing e with
  | nil => exact plus
  | cons c rest ih => exact ih (observe_isPlus plus m _)

theorem evidence_isPlus (m : DistanceMap) (scan : CellScan) (dx dy : Int) :
    EvidenceIsPlus (m.evidence scan dx dy) :=
  foldl_observe_isPlus ⟨Single.isPlus_zero, Single.isPlus_zero⟩ m scan dx dy

end DistanceMap

theorem Map.checkedScore_isPlus {m : Map} {scan : CellScan} {dx dy : Int} {raw : Single}
    (passed : m.checkedScore scan dx dy = .ok raw) : raw.IsPlus := by
  cases m with
  | probability p =>
    simp only [checkedScore] at passed
    split at passed
    · rename_i checked
      cases passed
      rcases Bool.or_eq_true_iff.mp checked with empty | positive
      · rw [ProbabilityMap.meanProbability, if_pos empty]
        exact Single.isPlus_zero
      · exact (Single.isPlus_of_pos (of_decide_eq_true positive)).1
    · cases passed
  | distance d =>
    obtain ⟨total, weight⟩ := d.evidence_isPlus scan dx dy
    simp only [checkedScore] at passed
    split at passed
    · rename_i checked
      cases passed
      unfold Evidence.mean at checked ⊢
      cases silent : (d.evidence scan dx dy).weight.isZero with
      | true => exact Single.isPlus_zero
      | false =>
        simp only [silent, Bool.false_or, Bool.false_eq_true, if_false, decide_eq_true_eq] at checked
        exact total.div weight (Single.zero_le_iff.mp checked).1
    · cases passed

namespace Single

variable {x : Single}

theorem isProbability_iff :
    x.isProbability = true ↔ x.IsPlus ∧ x.isZero = false ∧ x.magnitude ≤ one.magnitude := by
  have unit : one.isNaN = false ∧ one.position = one.magnitude := by decide
  simp only [isProbability, Bool.and_eq_true, decide_eq_true_eq]
  constructor
  · intro held
    obtain ⟨⟨_, positive⟩, le⟩ := held
    obtain ⟨plus, nonzero⟩ := isPlus_of_pos positive
    have high := (le_iff.mp le).2.2
    rw [plus.position_eq, unit.2] at high
    exact ⟨plus, nonzero, by exact_mod_cast high⟩
  · intro held
    obtain ⟨plus, nonzero, le⟩ := held
    refine ⟨⟨?_, ?_⟩, ?_⟩
    · exact isFinite_of_le one_isFinite le
    · rw [isPlus_zero.lt_iff plus]
      exact Nat.pos_of_ne_zero (isZero_eq_false_iff.mp nonzero)
    · refine le_iff.mpr ⟨plus.number, unit.1, ?_⟩
      rw [plus.position_eq, unit.2]
      exact_mod_cast le

end Single

namespace ProbabilityMap

variable {m : ProbabilityMap} {scan : CellScan} {dx dy : Int}

theorem lowest_isProbability : lowest.isProbability = true := by decide +kernel

theorem read_isProbability (m : ProbabilityMap) (c : Cell) : (m.read c).isProbability = true := by
  unfold read
  cases m.limits.index? c with
  | none => exact lowest_isProbability
  | some index =>
    by_cases inside : index < m.cells.size
    · simp only [Array.getD_eq_getD_getElem?, Array.getElem?_eq_getElem inside, Option.getD_some]
      exact m.valid _ (Array.getElem_mem inside)
    · simp only [Array.getD_eq_getD_getElem?, Array.getElem?_eq_none (Nat.le_of_not_lt inside),
        Option.getD_none]
      exact lowest_isProbability

def met (m : ProbabilityMap) (scan : CellScan) (dx dy : Int) : List Single :=
  scan.map fun c => m.read (c.shift dx dy)

theorem met_isProbability {p : Single} (member : p ∈ m.met scan dx dy) : p.isProbability = true := by
  obtain ⟨c, _, rfl⟩ := List.mem_map.mp member
  exact m.read_isProbability _

def metSum (m : ProbabilityMap) (scan : CellScan) (dx dy : Int) : Single :=
  (m.met scan dx dy).foldl (· + ·) .zero

@[simp] theorem length_met : (m.met scan dx dy).length = scan.length := List.length_map _

theorem meanProbability_eq (present : scan ≠ []) :
    m.meanProbability scan dx dy = m.metSum scan dx dy / .ofInt scan.length := by
  have some : scan.isEmpty = false := List.isEmpty_eq_false_iff.mpr present
  rw [meanProbability, some, metSum, met, List.foldl_map]
  rfl

theorem metSum_capped (m : ProbabilityMap) (scan : CellScan) (dx dy : Int) :
    Single.Capped 149 scan.length (m.metSum scan dx dy) := by
  have nonneg : ∀ p ∈ m.met scan dx dy, Single.zero ≤ p := by
    intro p member
    exact (Single.isProbability_iff.mp (met_isProbability member)).1.zero_le
  have small : ∀ p ∈ m.met scan dx dy, p.quanta ≤ 2 ^ 149 := by
    intro p member
    rw [← Single.quanta_one]
    exact Single.quanta_le_iff.mpr (Single.isProbability_iff.mp (met_isProbability member)).2.2
  have capped := (Single.capped_zero 149).foldl_add (by decide) nonneg small
  rwa [Nat.zero_add, length_met] at capped

theorem le_quanta_metSum (m : ProbabilityMap) (few : scan.length ≤ 2 ^ 24) (dx dy : Int) :
    scan.length ≤ (m.metSum scan dx dy).quanta := by
  have positive : ∀ p ∈ m.met scan dx dy, p.IsPlus ∧ p.isZero = false := by
    intro p member
    obtain ⟨plus, nonzero, _⟩ := Single.isProbability_iff.mp (met_isProbability member)
    exact ⟨plus, nonzero⟩
  have counted := Single.le_quanta_foldl_add Single.isPlus_zero (Nat.zero_le _) positive
    (by rwa [Nat.zero_add, length_met])
  rwa [Nat.zero_add, length_met] at counted

theorem meanProbability_le (m : ProbabilityMap) (present : scan ≠ []) (dx dy : Int) :
    (m.meanProbability scan dx dy).IsPlus ∧
      (m.meanProbability scan dx dy).magnitude ≤ Single.one.magnitude := by
  have capped := m.metSum_capped scan dx dy
  have nonzero := Single.isZero_ofInt (List.length_pos_iff.mpr present)
  rw [meanProbability_eq present]
  apply capped.plus.div_le_one (Single.isPlus_ofInt _) (capped.isFinite (by decide)) nonzero
  exact Single.quanta_le_iff.mp (capped.quanta_le.trans (Single.le_quanta_ofInt _))

-- The sum has a quantum for each point at least, and so the mean is not rounded to zero.
theorem meanProbability_pos (m : ProbabilityMap) (present : scan ≠ [])
    (few : scan.length ≤ 2 ^ 24) (dx dy : Int) :
    (m.meanProbability scan dx dy).isZero = false := by
  let quantum : Single := ⟨false, 1, by decide⟩
  have one : quantum.quanta = 1 := by decide
  have least : quantum.magnitude ≤ (m.meanProbability scan dx dy).magnitude := by
    rw [meanProbability_eq present]
    apply Single.le_magnitude_div ((m.metSum_capped scan dx dy).isFinite (by decide))
      (Single.isFinite_ofInt few) (Single.isZero_ofInt (List.length_pos_iff.mpr present))
      (by decide)
    rw [one, Nat.one_mul, Single.quanta_ofInt few]
    exact Nat.mul_le_mul_right _ (m.le_quanta_metSum few dx dy)
  exact Single.isZero_eq_false_iff.mpr (Nat.ne_of_gt least)

theorem checkedScore_mean {raw : Single}
    (passed : (Map.probability m).checkedScore scan dx dy = .ok raw) (present : scan ≠ []) :
    raw.isProbability = true := by
  have some : scan.isEmpty = false := List.isEmpty_eq_false_iff.mpr present
  obtain ⟨plus, le⟩ := m.meanProbability_le present dx dy
  simp only [Map.checkedScore, some, Bool.false_or, decide_eq_true_eq] at passed
  split at passed
  · rename_i positive
    cases passed
    exact Single.isProbability_iff.mpr ⟨plus, (Single.isPlus_of_pos positive).2, le⟩
  · cases passed

theorem checkedScore_few (present : scan ≠ []) (few : scan.length ≤ 2 ^ 24) :
    (Map.probability m).checkedScore scan dx dy = .ok (m.meanProbability scan dx dy) := by
  obtain ⟨plus, _⟩ := m.meanProbability_le present dx dy
  have nonzero := m.meanProbability_pos present few dx dy
  have positive : Single.zero < m.meanProbability scan dx dy := by
    rw [Single.isPlus_zero.lt_iff plus]
    exact Nat.pos_of_ne_zero (Single.isZero_eq_false_iff.mp nonzero)
  simp [Map.checkedScore, positive]

theorem checkedScore_probable (m : ProbabilityMap) (present : scan ≠ []) (dx dy : Int) :
    ((Map.probability m).rawScore scan dx dy).InUnit ∧
      (∀ score, (Map.probability m).checkedScore scan dx dy = .ok score →
        score = (Map.probability m).rawScore scan dx dy ∧ score.isProbability = true) ∧
      (scan.length ≤ 2 ^ 24 →
        Single.zero < (Map.probability m).rawScore scan dx dy ∧
          (Map.probability m).checkedScore scan dx dy =
            .ok ((Map.probability m).rawScore scan dx dy)) := by
  obtain ⟨plus, le⟩ := m.meanProbability_le present dx dy
  refine ⟨plus.inUnit le, ?_, ?_⟩
  · intro score passed
    exact ⟨Map.checkedScore_eq_ok passed, checkedScore_mean passed present⟩
  · intro few
    have nonzero := Single.isZero_eq_false_iff.mp (m.meanProbability_pos present few dx dy)
    exact ⟨(Single.isPlus_zero.lt_iff plus).mpr (Nat.pos_of_ne_zero nonzero),
      checkedScore_few present few⟩

def dimmest : ProbabilityMap where
  limits := .twelveCells
  cells := .replicate 12 (.ofQuanta false 1 1 0 0)
  size_eq := by decide
  valid := by decide +kernel

-- The sum of three quanta is divided by three, and one quantum is left.
theorem checkedScore_probable_dimmest :
    [Cell.mk 0 0, ⟨1, 1⟩, ⟨2, 2⟩].length ≤ 2 ^ 24 ∧
      (Map.probability dimmest).checkedScore [⟨0, 0⟩, ⟨1, 1⟩, ⟨2, 2⟩] 1 0 =
        .ok (.ofQuanta false 1 1 0 0) ∧
      Single.zero < .ofQuanta false 1 1 0 0 := by
  have few : [Cell.mk 0 0, ⟨1, 1⟩, ⟨2, 2⟩].length ≤ 2 ^ 24 := by decide
  obtain ⟨_, _, counted⟩ := checkedScore_probable dimmest
    (List.cons_ne_nil (Cell.mk 0 0) [⟨1, 1⟩, ⟨2, 2⟩]) 1 0
  obtain ⟨positive, passed⟩ := counted few
  have least : (Map.probability dimmest).rawScore [⟨0, 0⟩, ⟨1, 1⟩, ⟨2, 2⟩] 1 0 =
      .ofQuanta false 1 1 0 0 := by decide +kernel
  rw [least] at positive passed
  exact ⟨few, passed, positive⟩

end ProbabilityMap

end ScanAlign
