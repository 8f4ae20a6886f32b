import Mathlib.Algebra.Ring.Int.Defs
import Mathlib.Algebra.Ring.Nat
import Mathlib.Logic.Equiv.Defs
import ScanAlign.Proofs.Map.Filling
import ScanAlign.Proofs.Search.Windows

namespace ScanAlign

variable {n : Int} {count : Nat}

-- A count of 64 bits; a greater one stops the run.
def checkedCount (count : Nat) : Except Fault Nat :=
  if count ≤ greatestCount then .ok count else .error .overflow

-- A whole number moved into a count of 64 bits: negative ones come out at the upper end.
def toCount (n : Int) : Nat := (n % 2 ^ 64).toNat

-- A count cut to a whole number of 32 bits with a sign.
def toWhole (count : Nat) : Int := (count : Int).bmod (2 ^ 32)

theorem checkedCount_of_lt (short : count < 2 ^ 62) : checkedCount count = .ok count := by
  refine if_pos ?_
  unfold greatestCount
  omega

theorem toCount_of_isWhole (whole : IsWhole n) (nonneg : 0 ≤ n) : toCount n = n.toNat := by
  obtain ⟨_, above⟩ := whole
  unfold Single.greatestWhole at above
  rw [toCount, Int.emod_eq_of_lt nonneg (by omega)]

theorem toWhole_of_lt (short : count < 2 ^ 31) : toWhole count = count :=
  Int.bmod_eq_of_le (by omega) (by omega)

def Cell.InWords (c : Cell) : Prop := IsWhole c.x ∧ IsWhole c.y

instance (c : Cell) : Decidable c.InWords := inferInstanceAs (Decidable (IsWhole c.x ∧ IsWhole c.y))

namespace Limits

variable {l : Limits} {c : Cell} {index x : Nat}

theorem cellCount_lt (l : Limits) : l.cellCount < 2 ^ 62 := by
  have columns := l.columns_lt
  have rows := l.rows_lt
  calc l.cellCount ≤ (2 ^ 31 - 1) * (2 ^ 31 - 1) := Nat.mul_le_mul (by omega) (by omega)
    _ < 2 ^ 62 := by decide

def numbering (l : Limits) : { c : Cell // l.contains c = true } ≃ Fin l.cellCount where
  toFun c := ⟨c.1.y.toNat * l.columns + c.1.x.toNat,
    (cellAt_of_index? (index?_eq_some_iff.mpr ⟨c.2, rfl⟩)).1⟩
  invFun number := ⟨l.cellAt number, (index?_eq_some_iff.mp (index?_cellAt number.2)).1⟩
  left_inv c := Subtype.ext (cellAt_of_index? (index?_eq_some_iff.mpr ⟨c.2, rfl⟩)).2
  right_inv number := Fin.ext (index?_eq_some_iff.mp (index?_cellAt number.2)).2

theorem index?_eq_numbering (inside : l.contains c = true) :
    l.index? c = some (l.numbering ⟨c, inside⟩ : Nat) :=
  index?_eq_some_iff.mpr ⟨inside, rfl⟩

theorem index?_eq_none (outside : l.contains c = false) : l.index? c = none := by
  simp [index?, outside]

def row (l : Limits) (y : Nat) : List Cell := (List.range l.columns).map fun (x : Nat) => ⟨x, y⟩

theorem cellAt_in_row (y : Nat) (column : x < l.columns) :
    l.cellAt (y * l.columns + x) = ⟨x, y⟩ := by
  have remainder : (y * l.columns + x) % l.columns = x := by
    rw [Nat.mul_comm, Nat.mul_add_mod, Nat.mod_eq_of_lt column]
  have quotient : (y * l.columns + x) / l.columns = y := by
    rw [Nat.mul_comm, Nat.mul_add_div l.columns_pos, Nat.div_eq_of_lt column, Nat.add_zero]
  rw [cellAt, remainder, quotient]

-- The induction adds one row behind the earlier ones.
theorem cells_of_rows (l : Limits) (rows : Nat) :
    (List.range (rows * l.columns)).map l.cellAt = (List.range rows).flatMap l.row := by
  induction rows with
  | zero => simp
  | succ rows ih =>
    have last : (List.range l.columns).map (fun x => l.cellAt (rows * l.columns + x)) = l.row rows :=
      List.map_congr_left fun x member => cellAt_in_row rows (List.mem_range.mp member)
    rw [Nat.succ_mul, List.range_add, List.map_append, ih, List.map_map, List.range_succ,
      List.flatMap_append, List.flatMap_singleton, ← last]
    rfl

theorem cells_eq_rows (l : Limits) : l.cells = (List.range l.rows).flatMap l.row := by
  rw [cells, cellCount, Nat.mul_comm, cells_of_rows]

def cellCountInWords (l : Limits) : Except Fault Nat := checkedCount (l.columns * l.rows)

-- The signs are looked at first, so that no negative coordinate is moved.
def containsInWords (l : Limits) (c : Cell) : Bool :=
  0 ≤ c.x && 0 ≤ c.y && toCount c.x < l.columns && toCount c.y < l.rows

def indexInWords? (l : Limits) (c : Cell) : Except Fault (Option Nat) :=
  if l.containsInWords c then do
    let start ← checkedCount (toCount c.y * l.columns)
    let index ← checkedCount (start + toCount c.x)
    return some index
  else return none

def cellInWords (l : Limits) (index : Nat) : Cell :=
  ⟨toWhole (index % l.columns), toWhole (index / l.columns)⟩

-- No step on words stops the run or loses a bit.
structure FitsWords (l : Limits) : Prop where
  cellCount : l.cellCountInWords = .ok l.cellCount
  contains : ∀ c, c.InWords → l.containsInWords c = l.contains c
  index? : ∀ c, c.InWords → l.indexInWords? c = .ok (l.index? c)
  cellAt : ∀ index < l.cellCount, l.cellInWords index = l.cellAt index

theorem containsInWords_eq (l : Limits) (words : c.InWords) : l.containsInWords c = l.contains c := by
  by_cases nonneg : 0 ≤ c.x ∧ 0 ≤ c.y
  · have column : toCount c.x < l.columns ↔ c.x < l.columns := by
      rw [toCount_of_isWhole words.1 nonneg.1]
      omega
    have row : toCount c.y < l.rows ↔ c.y < l.rows := by
      rw [toCount_of_isWhole words.2 nonneg.2]
      omega
    simp only [containsInWords, contains, column, row]
  · have negative : (decide (0 ≤ c.x) && decide (0 ≤ c.y)) = false := by simpa using nonneg
    simp only [containsInWords, contains, negative, Bool.false_and]

theorem indexInWords?_eq (l : Limits) (words : c.InWords) :
    l.indexInWords? c = .ok (l.index? c) := by
  rw [indexInWords?, containsInWords_eq l words]
  cases inside : l.contains c with
  | false =>
    rw [index?_eq_none inside]
    rfl
  | true =>
    obtain ⟨⟨left, _⟩, low, _⟩ := contains_iff.mp inside
    have numbered := index?_eq_some_iff.mpr ⟨inside, rfl⟩
    have short := Nat.lt_trans (cellAt_of_index? numbered).1 l.cellCount_lt
    have start := checkedCount_of_lt (Nat.lt_of_le_of_lt (Nat.le_add_right _ _) short)
    rw [toCount_of_isWhole words.1 left, toCount_of_isWhole words.2 low, numbered, if_pos rfl, start,
      ok_bind, checkedCount_of_lt short, ok_bind]
    rfl

theorem cellInWords_eq (below : index < l.cellCount) : l.cellInWords index = l.cellAt index := by
  have column : index % l.columns < 2 ^ 31 :=
    Nat.lt_trans (Nat.mod_lt _ l.columns_pos) l.columns_lt
  have row : index / l.columns < 2 ^ 31 := by
    refine Nat.lt_trans ?_ l.rows_lt
    rw [Nat.div_lt_iff_lt_mul l.columns_pos, Nat.mul_comm]
    exact below
  rw [cellInWords, toWhole_of_lt column, toWhole_of_lt row, cellAt]

theorem fitsWords (l : Limits) : l.FitsWords where
  cellCount := checkedCount_of_lt l.cellCount_lt
  contains _ words := containsInWords_eq l words
  index? _ words := indexInWords?_eq l words
  cellAt _ below := cellInWords_eq below

theorem numbering_exact (l : Limits) :
    (∀ c (inside : l.contains c = true), l.index? c = some (l.numbering ⟨c, inside⟩ : Nat)) ∧
      (∀ number : Fin l.cellCount, (l.numbering.symm number : Cell) = l.cellAt number) ∧
      (∀ c, l.contains c = false → l.index? c = none) ∧
      (List.range l.cellCount).map l.cellAt = (List.range l.rows).flatMap l.row ∧
      l.FitsWords :=
  ⟨fun _ inside => index?_eq_numbering inside, fun _ => rfl, fun _ outside => index?_eq_none outside,
    l.cells_eq_rows, l.fitsWords⟩

-- The last cell of the largest map, and one to the left of its first.
theorem numbering_exact_vast :
    vast.indexInWords? ⟨2147483646, 2147483646⟩ = .ok (some 4611686014132420608) ∧
      vast.cellInWords 4611686014132420608 = ⟨2147483646, 2147483646⟩ ∧
      vast.indexInWords? ⟨-1, 0⟩ = .ok none := by
  obtain ⟨numbered, back, outside, _, words⟩ := numbering_exact vast
  have last : (vast.numbering ⟨⟨2147483646, 2147483646⟩, by decide⟩ : Nat) = 4611686014132420608 := by
    decide +kernel
  refine ⟨?_, ?_, ?_⟩
  · rw [words.index? _ (by decide), numbered _ (by decide), last]
  · rw [words.cellAt _ (by decide), ← back ⟨4611686014132420608, by decide⟩]
    rfl
  · rw [words.index? _ (by decide), outside _ (by decide)]

end Limits

end ScanAlign
