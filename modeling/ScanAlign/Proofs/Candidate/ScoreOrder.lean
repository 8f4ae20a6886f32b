import ScanAlign.Proofs.Candidate.BestFirst
import ScanAlign.Proofs.Number.Arithmetic

namespace ScanAlign

inductive Extended where
  | low
  | finite (n : Int)
  | high
deriving DecidableEq

namespace Extended

def Below : Extended → Extended → Prop
  | low, low => False
  | low, finite _ => True
  | low, high => True
  | finite _, low => False
  | finite m, finite n => m < n
  | finite _, high => True
  | high, _ => False

theorem not_high_below (q : Extended) : ¬ high.Below q := by
  cases q <;> exact id

end Extended

namespace Single

variable {x y : Single} {p q : Extended}

theorem eq_of_word (same : x.word = y.word) : x = y := by
  have xShort := x.magnitude_lt
  have yShort := y.magnitude_lt
  unfold word at same
  cases xSign : x.negative <;> cases ySign : y.negative <;>
    simp only [xSign, ySign, if_true, Bool.false_eq_true, if_false] at same
  · exact eq_of_parts (xSign.trans ySign.symm) (by omega)
  · omega
  · omega
  · exact eq_of_parts (xSign.trans ySign.symm) (by omega)

-- The number that a word stands for, if it stands for one; finite numbers are counted in quanta.
def number? (x : Single) : Option Extended :=
  if x.isNaN then none
  else if x.isInfinite then some (if x.negative then .low else .high)
  else some (.finite x.value)

-- Where a word stands among the others, as its number says.
inductive Stands (x : Single) : Extended → Prop where
  | low (least : x.position = -infinityWord) : Stands x .low
  | finite (finite : x.isFinite = true) : Stands x (.finite x.value)
  | high (greatest : x.position = infinityWord) : Stands x .high

theorem stands_of_number? (found : x.number? = some p) : x.isNaN = false ∧ x.Stands p := by
  unfold number? at found
  cases number : x.isNaN with
  | true => simp [number] at found
  | false =>
    refine ⟨rfl, ?_⟩
    cases bounded : x.isInfinite with
    | false =>
      obtain rfl : .finite x.value = p := by simpa [number, bounded] using found
      exact .finite (isFinite_iff.mpr ⟨number, bounded⟩)
    | true =>
      have size : x.magnitude = infinityWord := by simpa [isInfinite] using bounded
      cases sign : x.negative with
      | true =>
        obtain rfl : .low = p := by simpa [number, bounded, sign] using found
        exact .low (by simp [position, sign, size])
      | false =>
        obtain rfl : .high = p := by simpa [number, bounded, sign] using found
        exact .high (by simp [position, sign, size])

theorem natAbs_position_lt (finite : x.isFinite = true) : x.position.natAbs < infinityWord := by
  rw [natAbs_position]
  exact isFinite_iff_lt.mp finite

theorem lt_iff_number? (xIs : x.number? = some p) (yIs : y.number? = some q) : x < y ↔ p.Below q := by
  obtain ⟨xNumber, xStands⟩ := stands_of_number? xIs
  obtain ⟨yNumber, yStands⟩ := stands_of_number? yIs
  have positions : x < y ↔ x.position < y.position := by
    rw [lt_iff, xNumber, yNumber]
    simp
  have some : 0 < infinityWord := by decide
  rw [positions]
  cases xStands with
  | low xLeast =>
    cases yStands with
    | low yLeast => exact iff_of_false (by omega) id
    | finite yFinite =>
      have between := natAbs_position_lt yFinite
      exact iff_of_true (by omega) trivial
    | high yGreatest => exact iff_of_true (by omega) trivial
  | finite xFinite =>
    have between := natAbs_position_lt xFinite
    cases yStands with
    | low yLeast => exact iff_of_false (by omega) id
    | finite yFinite => exact positions.symm.trans (lt_iff_value xFinite yFinite)
    | high yGreatest => exact iff_of_true (by omega) trivial
  | high xGreatest =>
    refine iff_of_false ?_ (Extended.not_high_below q)
    cases yStands with
    | low yLeast => omega
    | finite yFinite =>
      have between := natAbs_position_lt yFinite
      omega
    | high yGreatest => omega

theorem rank_lt_of_lt (less : x < y) : x.rank < y.rank := by
  obtain ⟨_, _, positions⟩ := lt_iff.mp less
  unfold position at positions
  unfold rank
  cases xSign : x.negative <;> cases ySign : y.negative <;>
    simp only [xSign, ySign, if_true, Bool.false_eq_true, if_false] at positions ⊢ <;> omega

-- The sign turns the total order around, and no word stays where it is.
theorem rank_neg (x : Single) : (-x).rank = -x.rank - 1 := by
  change (if !x.negative then -(x.magnitude : Int) - 1 else x.magnitude) = _
  cases sign : x.negative <;> simp [rank, sign]

theorem rank_le_infinityWord (apart : x.isNaN = false ∨ x.negative = true) : x.rank ≤ infinityWord := by
  unfold rank
  rcases apart with number | minus
  · have short := isNaN_eq_false_iff.mp number
    split <;> omega
  · rw [if_pos minus]
    omega

theorem rank_lt_of_plusNaN (none : y.isNaN = true) (plus : y.negative = false)
    (apart : x.isNaN = false ∨ x.negative = true) : x.rank < y.rank := by
  have beyond : infinityWord < y.magnitude := by simpa [isNaN] using none
  have top : y.rank = y.magnitude := by simp [rank, plus]
  have below := rank_le_infinityWord apart
  omega

theorem rank_lt_of_minusNaN (none : x.isNaN = true) (minus : x.negative = true)
    (apart : y.isNaN = false ∨ y.negative = false) : x.rank < y.rank := by
  have plus : (-x).negative = false := congrArg not minus
  have turned : (-y).isNaN = false ∨ (-y).negative = true := apart.imp_right (congrArg not)
  have mirrored : (-y).rank < (-x).rank := rank_lt_of_plusNaN none plus turned
  rw [rank_neg, rank_neg] at mirrored
  omega

end Single

namespace Ranked

variable {p q r : Single × Nat} {entries sorted other : List Ranked} {keys : List (Single × Nat)}

def InOrder (p q : Single × Nat) : Prop :=
  q.1.rank < p.1.rank ∨ (p.1 = q.1 ∧ p.2 ≤ q.2)

instance (p q : Single × Nat) : Decidable (InOrder p q) := by
  unfold InOrder
  infer_instance

theorem inOrder_iff : InOrder p q ↔ q.1.rank < p.1.rank ∨ (p.1.rank = q.1.rank ∧ p.2 ≤ q.2) := by
  have bits : p.1 = q.1 ↔ p.1.rank = q.1.rank := ⟨congrArg Single.rank, Single.eq_of_rank⟩
  rw [InOrder, bits]

theorem InOrder.antisymm (forth : InOrder p q) (back : InOrder q p) : p = q := by
  rw [inOrder_iff] at forth back
  have score : p.1 = q.1 := Single.eq_of_rank (by omega)
  have place : p.2 = q.2 := by omega
  exact Prod.ext score place

theorem InOrder.trans (first : InOrder p q) (second : InOrder q r) : InOrder p r := by
  rw [inOrder_iff] at *
  omega

theorem inOrder_total (p q : Single × Nat) : InOrder p q ∨ InOrder q p := by
  rw [inOrder_iff, inOrder_iff]
  omega

theorem not_before_iff {a b : Ranked} : ¬ b.Before a ↔ InOrder a.key b.key := by
  rw [inOrder_iff]
  simp only [Before, key]
  omega

def sortedKeys (keys : List (Single × Nat)) : List (Single × Nat) :=
  keys.mergeSort fun p q => decide (InOrder p q)

theorem sortedKeys_perm (keys : List (Single × Nat)) : (sortedKeys keys).Perm keys :=
  List.mergeSort_perm _ _

theorem sortedKeys_rising (keys : List (Single × Nat)) : (sortedKeys keys).Pairwise InOrder := by
  have sorted : (sortedKeys keys).Pairwise fun p q => decide (InOrder p q) = true := by
    apply List.pairwise_mergeSort
    · intro p q r first second
      simp only [decide_eq_true_eq] at *
      exact first.trans second
    · intro p q
      simpa using inOrder_total p q
  exact sorted.imp of_decide_eq_true

theorem eq_sortedKeys {inOrder : List (Single × Nat)} (moved : inOrder.Perm keys)
    (rising : inOrder.Pairwise InOrder) : inOrder = sortedKeys keys := by
  refine List.Perm.eq_of_pairwise ?_ rising (sortedKeys_rising keys)
    (moved.trans (sortedKeys_perm keys).symm)
  intro p q _ _ forth back
  exact forth.antisymm back

theorem map_key_eq_sortedKeys (moved : sorted.Perm entries)
    (rising : sorted.Pairwise fun a b => ¬ b.Before a) :
    sorted.map key = sortedKeys (entries.map key) := by
  apply eq_sortedKeys (moved.map key)
  exact List.pairwise_map.mpr (rising.imp not_before_iff.mp)

end Ranked

namespace Shortlist

open Ranked

variable {s : Shortlist} {pushed dropped entries : List Ranked}

theorem Keeps.keys_kept (keeps : s.Keeps pushed dropped) :
    (bestFirst s.kept.toList).map key = (sortedKeys (pushed.map key)).take s.capacity := by
  rw [← keeps.take_shown, List.map_take, map_key_eq_sortedKeys keeps.shown_perm keeps.shown_rising]

theorem pushAll_keys (capacity : Nat) (entries : List Ranked) :
    ((empty capacity).pushAll entries).sorted =
        (bestFirst ((empty capacity).pushAll entries).kept.toList).map (·.candidate) ∧
      (bestFirst ((empty capacity).pushAll entries).kept.toList).map key =
        (sortedKeys (entries.map key)).take (min capacity entries.length) ∧
      ((empty capacity).pushAll entries).kept.toList.Subperm entries ∧
      ((entries.map key).Nodup → ∀ other, other.Perm entries →
        ((empty capacity).pushAll other).sorted = ((empty capacity).pushAll entries).sorted) := by
  obtain ⟨dropped, keeps⟩ := pushAll_keeps (empty_keeps capacity) entries
  rw [List.nil_append] at keeps
  refine ⟨sorted_eq _, ?_, ?_, ?_⟩
  · have length : (sortedKeys (entries.map key)).length = entries.length := by
      simp [sortedKeys]
    rw [keeps.keys_kept, capacity_pushAll, ← length, ← List.take_eq_take_min]
    rfl
  · exact (List.sublist_append_left _ dropped).subperm.trans keeps.whole.subperm
  · intro distinct other moved
    have distinctToo : (other.map key).Nodup := (moved.map key).nodup_iff.mpr distinct
    have same : bestFirst other = bestFirst entries :=
      eq_bestFirst distinct ((bestFirst_perm other).trans moved) (bestFirst_rising other)
    rw [sorted_pushAll capacity distinctToo, sorted_pushAll capacity distinct, same]

def mixedEntries : List Ranked :=
  let entry (place : Nat) (score : Single) : Ranked := ⟨place, ⟨0, 0, 0, .zero, .zero, .zero, score⟩⟩
  [entry 1 (-.zero), entry 1 .one, entry 1 .zero, entry 3 .nan, entry 0 .one]

theorem pushAll_keys_mixed :
    (bestFirst ((empty 3).pushAll mixedEntries).kept.toList).map key =
        [(.nan, 3), (.one, 0), (.one, 1)] ∧
      ((empty 3).pushAll mixedEntries.reverse).sorted = ((empty 3).pushAll mixedEntries).sorted := by
  have sorted : [(.nan, 3), (.one, 0), (.one, 1), (.zero, 1), (-.zero, 1)] =
      sortedKeys (mixedEntries.map key) := eq_sortedKeys (by decide +kernel) (by decide +kernel)
  obtain ⟨_, keys, _, moved⟩ := pushAll_keys 3 mixedEntries
  refine ⟨?_, ?_⟩
  · rw [keys, ← sorted]
    rfl
  · exact moved (by decide +kernel) _ (List.reverse_perm _)

end Shortlist

namespace Ranked

variable {a b : Ranked}

-- The comparison is strict and total on scores, bit for bit, and places; it looks at nothing else.
structure StrictlyOrders (rule : Ranked → Ranked → Ordering) : Prop where
  eq_iff : ∀ a b, rule a b = .eq ↔
    a.candidate.score.word = b.candidate.score.word ∧ a.place = b.place
  swap : ∀ a b, rule b a = (rule a b).swap
  trans : ∀ a b c, rule a b = .lt → rule b c = .lt → rule a c = .lt
  trans_isLE : ∀ a b c, (rule a b).isLE = true → (rule b c).isLE = true → (rule a c).isLE = true

structure RanksScores (rule : Ranked → Ranked → Ordering) : Prop where
  greater : ∀ a b p q, a.candidate.score.number? = some p → b.candidate.score.number? = some q →
    q.Below p → rule a b = .lt
  zeros : ∀ a b, a.candidate.score = .zero → b.candidate.score = -.zero → rule a b = .lt
  plusNaN : ∀ a b, a.candidate.score.isNaN = true → a.candidate.score.negative = false →
    b.candidate.score.isNaN = false ∨ b.candidate.score.negative = true → rule a b = .lt
  minusNaN : ∀ a b, b.candidate.score.isNaN = true → b.candidate.score.negative = true →
    a.candidate.score.isNaN = false ∨ a.candidate.score.negative = false → rule a b = .lt
  ties : ∀ a b, a.candidate.score.word = b.candidate.score.word →
    rule a b = compare a.place b.place

theorem order_swap (a b : Ranked) : b.order a = (a.order b).swap := by
  rw [order, order, Ordering.swap_then, Int.compare_swap, Nat.compare_swap]

theorem order_eq_eq : a.order b = .eq ↔ a.key = b.key := by
  rw [order, Ordering.then_eq_eq, Int.compare_eq_eq, Nat.compare_eq_eq, key, key, Prod.mk.injEq]
  constructor
  · rintro ⟨rank, place⟩
    exact ⟨Single.eq_of_rank rank.symm, place⟩
  · rintro ⟨score, place⟩
    exact ⟨congrArg Single.rank score.symm, place⟩

theorem order_of_rank_lt (less : b.candidate.score.rank < a.candidate.score.rank) : a.order b = .lt :=
  order_eq_lt.mpr (.inl less)

theorem order_strictlyOrders : StrictlyOrders order where
  eq_iff a b := by
    rw [order_eq_eq, key, key, Prod.mk.injEq]
    exact and_congr_left' ⟨congrArg Single.word, Single.eq_of_word⟩
  swap := order_swap
  trans a b c first second := by
    rw [order_eq_lt] at *
    exact first.trans second
  trans_isLE a b c first second := by
    rw [order_isLE] at *
    unfold Before at *
    omega

theorem order_ranksScores : RanksScores order where
  greater a b p q aIs bIs less :=
    order_of_rank_lt (Single.rank_lt_of_lt ((Single.lt_iff_number? bIs aIs).mpr less))
  zeros a b plus minus := by
    refine order_of_rank_lt ?_
    rw [plus, minus]
    decide
  plusNaN a b none plus apart := order_of_rank_lt (Single.rank_lt_of_plusNaN none plus apart)
  minusNaN a b none minus apart := order_of_rank_lt (Single.rank_lt_of_minusNaN none minus apart)
  ties a b same := by
    rw [order, Single.eq_of_word same, Int.compare_eq_eq.mpr rfl, Ordering.eq_then]

theorem order_total_bestFirst : StrictlyOrders order ∧ RanksScores order :=
  ⟨order_strictlyOrders, order_ranksScores⟩

def scored (place : Nat) (score : Single) : Ranked :=
  ⟨place, ⟨0, 0, 0, .zero, .zero, .zero, score⟩⟩

-- The better the score, the later the place, so that places decide nothing.
def falling : List Ranked :=
  [scored 6 .nan, scored 5 (.infinity false), scored 4 .one, scored 3 .zero, scored 2 (-.zero),
    scored 1 (.infinity true), scored 0 .invalid]

theorem order_total_bestFirst_falling :
    falling.Pairwise (fun a b => a.order b = .lt) ∧
      (scored 3 .zero).order (scored 4 .zero) = .lt ∧
      (scored 3 .invalid).order (scored 3 .invalid) = .eq := by
  obtain ⟨orders, ranks⟩ := order_total_bestFirst
  have transitive : Trans (fun a b : Ranked => a.order b = .lt) (fun a b : Ranked => a.order b = .lt)
      (fun a b : Ranked => a.order b = .lt) := ⟨fun first second => orders.trans _ _ _ first second⟩
  have positive : (0 : Int) < Single.one.value := by decide +kernel
  refine ⟨List.isChain_iff_pairwise.mp ?_, ?_, ?_⟩
  · simp only [falling, List.isChain_cons_cons, List.IsChain.singleton, and_true]
    refine ⟨?_, ?_, ?_, ?_, ?_, ?_⟩
    · exact ranks.plusNaN _ _ (by decide) (by decide) (by decide)
    · exact ranks.greater _ _ .high (.finite Single.one.value) rfl rfl trivial
    · exact ranks.greater _ _ (.finite Single.one.value) (.finite 0) rfl rfl positive
    · exact ranks.zeros _ _ rfl rfl
    · exact ranks.greater _ _ (.finite 0) .low rfl rfl trivial
    · exact ranks.minusNaN _ _ (by decide) (by decide) (by decide)
  · exact ranks.ties (scored 3 .zero) (scored 4 .zero) rfl
  · exact (orders.eq_iff _ _).mpr ⟨rfl, rfl⟩

end Ranked

end ScanAlign
