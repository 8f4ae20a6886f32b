import ScanAlign.Proofs.Map.Indexing
import ScanAlign.Proofs.Number.Sums
import ScanAlign.Run.Plan

namespace ScanAlign

namespace MapPlan

variable {l : Limits} {hit truncation : Single} {points : List Point} {p : Point}
  {table : Array Single} {index : Nat}

def Met (l : Limits) (points : List Point) (index : Nat) : Prop :=
  ∃ p ∈ points, l.index? (l.cellOf p) = some index

instance : DecidablePred (Met l points) := fun index => by
  unfold Met
  infer_instance

theorem Met.inside (met : Met l points index) : index < l.cellCount := by
  obtain ⟨p, _, found⟩ := met
  exact (Limits.cellAt_of_index? found).1

theorem met_cons :
    Met l (p :: points) index ↔ l.index? (l.cellOf p) = some index ∨ Met l points index := by
  simp [Met]

@[simp] theorem size_mark : (mark l hit table p).size = table.size := by
  unfold mark
  cases l.index? (l.cellOf p) <;> simp

theorem mark_meets (found : l.index? (l.cellOf p) = some index) (room : index < table.size) :
    (mark l hit table p)[index]? = some hit := by
  unfold mark
  rw [found]
  exact Array.getElem?_setIfInBounds_self_of_lt room

theorem mark_misses (missed : l.index? (l.cellOf p) ≠ some index) :
    (mark l hit table p)[index]? = table[index]? := by
  unfold mark
  cases found : l.index? (l.cellOf p) with
  | none => rfl
  | some other =>
    have apart : other ≠ index := by
      intro same
      exact missed (same ▸ found)
    exact Array.getElem?_setIfInBounds_ne apart

@[simp] theorem size_foldl_mark : (points.foldl (mark l hit) table).size = table.size := by
  induction points generalizing table with
  | nil => rfl
  | cons p rest ih => rw [List.foldl_cons, ih, size_mark]

theorem foldl_mark_unmet (unmet : ¬ Met l points index) :
    (points.foldl (mark l hit) table)[index]? = table[index]? := by
  induction points generalizing table with
  | nil => rfl
  | cons p rest ih =>
    rw [met_cons, not_or] at unmet
    rw [List.foldl_cons, ih unmet.2, mark_misses unmet.1]

-- A later point may meet the cell again, and leaves the same value there.
theorem foldl_mark_met (met : Met l points index) (room : index < table.size) :
    (points.foldl (mark l hit) table)[index]? = some hit := by
  induction points generalizing table with
  | nil => simp [Met] at met
  | cons p rest ih =>
    rw [List.foldl_cons]
    by_cases later : Met l rest index
    · exact ih later (by rwa [size_mark])
    · have found := (met_cons.mp met).resolve_right later
      rw [foldl_mark_unmet later, mark_meets found room]

def marks (l : Limits) (hit : Single) (points : List Point) : Array Single :=
  points.foldl (mark l hit) (.replicate l.cellCount ProbabilityMap.lowest)

theorem marked_eq (room : l.cellCount * 4 ≤ mostBytes) :
    marked l hit points = .ok (marks l hit points) := by
  rw [marked, reserve_eq_ok_iff.mpr room]
  rfl

@[simp] theorem size_marks : (marks l hit points).size = l.cellCount := by
  rw [marks, size_foldl_mark, Array.size_replicate]

theorem getElem?_marks (inside : index < l.cellCount) :
    (marks l hit points)[index]? =
      some (if Met l points index then hit else ProbabilityMap.lowest) := by
  unfold marks
  by_cases met : Met l points index
  · rw [if_pos met, foldl_mark_met met (by simpa using inside)]
  · rw [if_neg met, foldl_mark_unmet met, Array.getElem?_replicate, if_pos inside]

def Numbers (table : Array Single) : Prop := ∀ d ∈ table, d.isNaN = false

theorem lower_numbers (numbers : Numbers table) (c : Cell) (gap : Point) :
    Numbers (lower l c gap table) := by
  unfold lower
  split
  · exact numbers
  · dsimp only
    split
    · exact numbers
    · split
      · rename_i less
        intro d member
        rcases Array.mem_or_eq_of_mem_setIfInBounds member with old | rfl
        · exact numbers d old
        · exact (Single.lt_iff.mp less).1
      · exact numbers

theorem stamp_numbers (numbers : Numbers table) (reach : Int) (p : Point) :
    Numbers (stamp l reach table p) := by
  unfold stamp
  dsimp only
  refine List.foldlRecOn _ _ numbers ?_
  intro table numbers column _
  refine List.foldlRecOn _ _ numbers ?_
  intro table numbers row _
  exact lower_numbers numbers _ _

theorem distances_numbers (number : truncation.isNaN = false) (reach : Int) (points : List Point) :
    Numbers (distances l truncation reach points) := by
  unfold distances
  refine List.foldlRecOn _ _ ?_ ?_
  · intro d member
    rw [(Array.mem_replicate.mp member).2, number]
  · intro table numbers p _
    exact stamp_numbers numbers reach p

theorem defect?_reading (number : truncation.isNaN = false) (numbers : Numbers table) (c : Cell) :
    DistanceMap.defect? (reading l truncation table c) = none := by
  have weight : Single.one.isNonnegative = true := by decide
  have distance : (reading l truncation table c).distance.isNaN = false := by
    unfold reading
    cases l.index? c with
    | none => exact number
    | some index =>
      dsimp only
      rw [Array.getD_eq_getD_getElem?]
      cases found : table[index]? with
      | none => exact number
      | some d => exact numbers d (Array.mem_of_getElem? found)
  have observed : (reading l truncation table c).weight = .one := by
    unfold reading
    split <;> rfl
  simp only [DistanceMap.defect?, distance, observed, weight, Bool.not_true, Bool.false_eq_true, if_false]

end MapPlan

end ScanAlign
