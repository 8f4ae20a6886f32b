import ScanAlign.Map

namespace ScanAlign

theorem Point.isFinite_iff {p : Point} :
    p.isFinite = true ↔ p.x.isFinite = true ∧ p.y.isFinite = true := by
  rw [isFinite, Bool.and_eq_true]

-- Row order: rows come one after the other, and `x` runs fastest.
def Cell.RowBefore (c d : Cell) : Prop := c.y < d.y ∨ c.y = d.y ∧ c.x < d.x

namespace Limits

variable {l : Limits} {c : Cell} {index : Nat}

theorem contains_iff :
    l.contains c = true ↔ (0 ≤ c.x ∧ c.x < l.columns) ∧ 0 ≤ c.y ∧ c.y < l.rows := by
  simp only [contains, Bool.and_eq_true, decide_eq_true_eq]
  omega

theorem index?_eq_some_iff :
    l.index? c = some index ↔
      l.contains c = true ∧ c.y.toNat * l.columns + c.x.toNat = index := by
  unfold index?
  cases l.contains c <;> simp

theorem cellAt_of_index? (found : l.index? c = some index) :
    index < l.cellCount ∧ l.cellAt index = c := by
  obtain ⟨inside, rfl⟩ := index?_eq_some_iff.mp found
  obtain ⟨⟨left, right⟩, low, high⟩ := contains_iff.mp inside
  have column : c.x.toNat < l.columns := by omega
  have row : c.y.toNat + 1 ≤ l.rows := by omega
  have numbered : c.y.toNat * l.columns + c.x.toNat < l.cellCount :=
    calc c.y.toNat * l.columns + c.x.toNat < c.y.toNat * l.columns + l.columns := by omega
      _ = (c.y.toNat + 1) * l.columns := (Nat.succ_mul _ _).symm
      _ ≤ l.rows * l.columns := Nat.mul_le_mul_right _ row
      _ = l.cellCount := Nat.mul_comm _ _
  have remainder : (c.y.toNat * l.columns + c.x.toNat) % l.columns = c.x.toNat := by
    rw [Nat.add_comm, Nat.add_mul_mod_self_right, Nat.mod_eq_of_lt column]
  have quotient : (c.y.toNat * l.columns + c.x.toNat) / l.columns = c.y.toNat := by
    rw [Nat.add_comm, Nat.add_mul_div_right _ _ l.columns_pos, Nat.div_eq_of_lt column, Nat.zero_add]
  refine ⟨numbered, ?_⟩
  cases c
  simp only [cellAt, remainder, quotient, Cell.mk.injEq]
  exact ⟨Int.toNat_of_nonneg left, Int.toNat_of_nonneg low⟩

theorem index?_cellAt (inside : index < l.cellCount) : l.index? (l.cellAt index) = some index := by
  have row : index / l.columns < l.rows := by
    rw [Nat.div_lt_iff_lt_mul l.columns_pos, Nat.mul_comm]
    exact inside
  have column := Nat.mod_lt index l.columns_pos
  refine index?_eq_some_iff.mpr ⟨?_, ?_⟩
  · exact contains_iff.mpr ⟨⟨Int.natCast_nonneg _, Int.ofNat_lt.mpr column⟩, Int.natCast_nonneg _,
      Int.ofNat_lt.mpr row⟩
  · simp only [cellAt, Int.toNat_natCast, Nat.mul_comm, Nat.div_add_mod]

theorem mem_cells_iff : c ∈ l.cells ↔ l.contains c = true := by
  rw [cells, List.mem_map]
  constructor
  · rintro ⟨index, below, rfl⟩
    exact (index?_eq_some_iff.mp (index?_cellAt (List.mem_range.mp below))).1
  · intro inside
    obtain ⟨below, same⟩ := cellAt_of_index? (index?_eq_some_iff.mpr ⟨inside, rfl⟩)
    exact ⟨_, List.mem_range.mpr below, same⟩

theorem lt_iff_rowBefore {d : Cell} {i j : Nat} (first : l.index? c = some i)
    (second : l.index? d = some j) : i < j ↔ c.RowBefore d := by
  obtain ⟨insideC, rfl⟩ := index?_eq_some_iff.mp first
  obtain ⟨insideD, rfl⟩ := index?_eq_some_iff.mp second
  obtain ⟨⟨leftC, rightC⟩, lowC, _⟩ := contains_iff.mp insideC
  obtain ⟨⟨leftD, rightD⟩, lowD, _⟩ := contains_iff.mp insideD
  -- A whole row lies between the numbers of cells in different rows.
  have apart {a b : Nat} (less : a < b) : a * l.columns + l.columns ≤ b * l.columns := by
    rw [← Nat.succ_mul]
    exact Nat.mul_le_mul_right _ less
  unfold Cell.RowBefore
  rcases Nat.lt_trichotomy c.y.toNat d.y.toNat with above | same | below
  · have gap := apart above
    exact iff_of_true (by omega) (by omega)
  · rw [same]
    omega
  · have gap := apart below
    exact iff_of_false (by omega) (by omega)

structure FirstBad (l : Limits) (bad : Cell → Prop) (c : Cell) : Prop where
  inside : l.contains c = true
  isBad : bad c
  earlier : ∀ d, l.contains d = true → d.RowBefore c → ¬ bad d

variable {bad : Cell → Prop}

theorem firstBad_of_index (below : index < l.cellCount) (isBad : bad (l.cellAt index))
    (earlier : ∀ i < index, ¬ bad (l.cellAt i)) : l.FirstBad bad (l.cellAt index) := by
  have found := index?_cellAt below
  refine ⟨(index?_eq_some_iff.mp found).1, isBad, ?_⟩
  intro d inside before
  have numbered := index?_eq_some_iff.mpr ⟨inside, rfl⟩
  have less := (lt_iff_rowBefore numbered found).mpr before
  rw [← (cellAt_of_index? numbered).2]
  exact earlier _ less

theorem FirstBad.exists_index (first : l.FirstBad bad c) :
    ∃ i, i < l.cellCount ∧ l.cellAt i = c ∧ ∀ j < i, ¬ bad (l.cellAt j) := by
  have found := index?_eq_some_iff.mpr ⟨first.inside, rfl⟩
  obtain ⟨below, same⟩ := cellAt_of_index? found
  refine ⟨_, below, same, ?_⟩
  intro j less
  have numbered := index?_cellAt (Nat.lt_trans less below)
  exact first.earlier _ (index?_eq_some_iff.mp numbered).1 ((lt_iff_rowBefore numbered found).mp less)

theorem FirstBad.unique {d : Cell} (one : l.FirstBad bad c) (two : l.FirstBad bad d) : c = d := by
  have oneLast : ¬ d.RowBefore c := fun before => one.earlier d two.inside before two.isBad
  have twoLast : ¬ c.RowBefore d := fun before => two.earlier c one.inside before one.isBad
  cases c
  cases d
  simp only [Cell.RowBefore, Cell.mk.injEq] at *
  omega

variable {α : Type} {defect? : Cell → Option α} {defect : α}

theorem firstDefectFrom_eq_some {count : Nat}
    (found : l.firstDefectFrom defect? count index = some (c, defect)) :
    ∃ i, i < index + count ∧ l.cellAt i = c ∧ defect? c = some defect ∧
      ∀ j, index ≤ j → j < i → defect? (l.cellAt j) = none := by
  induction count generalizing index with
  | zero => cases found
  | succ count ih =>
    rw [firstDefectFrom] at found
    cases here : defect? (l.cellAt index) with
    | some other =>
      rw [here] at found
      cases found
      exact ⟨index, by omega, rfl, here, fun j le less => by omega⟩
    | none =>
      rw [here] at found
      obtain ⟨i, below, same, isBad, earlier⟩ := ih found
      refine ⟨i, by omega, same, isBad, ?_⟩
      intro j start before
      rcases Nat.eq_or_lt_of_le start with rfl | later
      · exact here
      · exact earlier j later before

theorem firstDefect?_eq_some_iff :
    l.firstDefect? defect? = some (c, defect) ↔
      l.FirstBad (fun d => defect? d ≠ none) c ∧ defect? c = some defect := by
  have forth {c : Cell} {defect : α} (found : l.firstDefect? defect? = some (c, defect)) :
      l.FirstBad (fun d => defect? d ≠ none) c ∧ defect? c = some defect := by
    obtain ⟨i, below, rfl, isBad, earlier⟩ := firstDefectFrom_eq_some found
    rw [Nat.zero_add] at below
    refine ⟨firstBad_of_index below (by simp [isBad]) ?_, isBad⟩
    intro j less bad
    exact bad (earlier j (Nat.zero_le _) less)
  constructor
  · exact forth
  · rintro ⟨first, isBad⟩
    cases found : l.firstDefect? defect? with
    | none => exact absurd (firstDefect?_eq_none_iff.mp found c (mem_cells_iff.mpr first.inside)) first.isBad
    | some entry =>
      obtain ⟨d, other⟩ := entry
      obtain ⟨first', isBad'⟩ := forth found
      obtain rfl := first.unique first'
      rw [isBad] at isBad'
      rw [Option.some.inj isBad']

def twelveCells : Limits where
  origin := ⟨.one, .zero⟩
  resolution := half
  columns := 4
  rows := 3
  resolution_finite := by decide +kernel
  resolution_pos := by decide +kernel
  origin_finite := by decide +kernel
  columns_pos := by decide
  columns_lt := by decide
  rows_pos := by decide
  rows_lt := by decide

end Limits

end ScanAlign
