import Mathlib.Data.List.Nodup
import Mathlib.Data.List.Pairwise
import Mathlib.Data.List.Perm.Basic
import ScanAlign.Search

namespace ScanAlign

theorem Single.eq_of_rank {x y : Single} (same : x.rank = y.rank) : x = y := by
  obtain ⟨xNegative, xMagnitude, _⟩ := x
  obtain ⟨yNegative, yMagnitude, _⟩ := y
  cases xNegative <;> cases yNegative <;>
    simp only [rank, if_true, Bool.false_eq_true, if_false] at same
  · obtain rfl : xMagnitude = yMagnitude := by omega
    rfl
  · omega
  · omega
  · obtain rfl : xMagnitude = yMagnitude := by omega
    rfl

namespace Ranked

variable {a b c : Ranked} {left right entries : List Ranked}

def Before (a b : Ranked) : Prop :=
  b.candidate.score.rank < a.candidate.score.rank ∨
    (a.candidate.score.rank = b.candidate.score.rank ∧ a.place < b.place)

instance (a b : Ranked) : Decidable (a.Before b) := by
  unfold Before
  infer_instance

theorem order_eq_lt : a.order b = .lt ↔ a.Before b := by
  rw [order, Ordering.then_eq_lt, Int.compare_eq_lt, Int.compare_eq_eq, Nat.compare_eq_lt, Before]
  constructor
  · intro before
    rcases before with greater | ⟨same, earlier⟩
    · exact .inl greater
    · exact .inr ⟨same.symm, earlier⟩
  · intro before
    rcases before with greater | ⟨same, earlier⟩
    · exact .inl greater
    · exact .inr ⟨same.symm, earlier⟩

theorem order_eq_gt : a.order b = .gt ↔ b.Before a := by
  rw [order, Ordering.then_eq_gt, Int.compare_eq_gt, Int.compare_eq_eq, Nat.compare_eq_gt, Before]

theorem order_isLE : (a.order b).isLE = true ↔ ¬ b.Before a := by
  rw [← order_eq_gt]
  cases a.order b <;> simp

theorem prefer_eq (a b : Ranked) : a.prefer b = if b.Before a then b else a := by
  simp only [prefer, order_eq_gt]

theorem Before.irrefl (a : Ranked) : ¬ a.Before a := by
  simp [Before]

theorem Before.asymm (first : a.Before b) : ¬ b.Before a := by
  unfold Before at *
  omega

theorem Before.trans (first : a.Before b) (second : b.Before c) : a.Before c := by
  unfold Before at *
  omega

theorem Before.trans_not (first : a.Before b) (second : ¬ c.Before b) : a.Before c := by
  unfold Before at *
  omega

theorem before_or_before (apart : a.place ≠ b.place) : a.Before b ∨ b.Before a := by
  unfold Before
  omega

def Placed (entries : List Ranked) : Prop := entries.Pairwise fun a b => a.place ≠ b.place

theorem Placed.perm (placed : Placed entries) (moved : entries.Perm right) : Placed right :=
  (moved.pairwise_iff fun apart => apart.symm).mp placed

def Best (entries : List Ranked) (best : Ranked) : Prop :=
  best ∈ entries ∧ ∀ c ∈ entries, c ≠ best → best.Before c

theorem Best.unique (one : Best entries a) (two : Best entries b) : a = b := by
  by_cases same : a = b
  · exact same
  · have forth := one.2 b two.1 fun equal => same equal.symm
    exact absurd (two.2 a one.1 same) forth.asymm

theorem Best.perm (best : Best entries a) (moved : entries.Perm right) : Best right a :=
  ⟨moved.mem_iff.mp best.1, fun c member => best.2 c (moved.mem_iff.mpr member)⟩

theorem best_single (entry : Ranked) : Best [entry] entry := by
  refine ⟨List.mem_singleton_self _, ?_⟩
  intro c member other
  exact absurd (List.mem_singleton.mp member) other

theorem Best.prefer (one : Best left a) (two : Best right b) (placed : Placed (left ++ right)) :
    Best (left ++ right) (a.prefer b) := by
  have apart : a.place ≠ b.place := (List.pairwise_append.mp placed).2.2 a one.1 b two.1
  rw [prefer_eq]
  split
  · rename_i ahead
    refine ⟨List.mem_append_right _ two.1, ?_⟩
    intro c member other
    rcases List.mem_append.mp member with there | here
    · by_cases same : c = a
      · rw [same]
        exact ahead
      · exact ahead.trans (one.2 c there same)
    · exact two.2 c here other
  · rename_i behind
    have ahead : a.Before b := (before_or_before apart).resolve_right behind
    refine ⟨List.mem_append_left _ one.1, ?_⟩
    intro c member other
    rcases List.mem_append.mp member with here | there
    · exact one.2 c here other
    · by_cases same : c = b
      · rw [same]
        exact ahead
      · exact ahead.trans (two.2 c there same)

theorem foldl_prefer_best (known : Best entries a) (placed : Placed (entries ++ right)) :
    Best (entries ++ right) (right.foldl Ranked.prefer a) := by
  induction right generalizing entries a with
  | nil => simpa using known
  | cons next rest ih =>
    rw [List.append_cons] at placed ⊢
    have placedNext : Placed (entries ++ [next]) := (List.pairwise_append.mp placed).1
    exact ih (known.prefer (best_single next) placedNext) placed

theorem best?_eq_some_iff (placed : Placed entries) : best? entries = some a ↔ Best entries a := by
  cases entries with
  | nil => simp [best?, Best]
  | cons first rest =>
    have found : Best (first :: rest) (rest.foldl Ranked.prefer first) :=
      foldl_prefer_best (best_single first) placed
    simp only [best?, Option.some.injEq]
    constructor
    · intro same
      exact same ▸ found
    · intro best
      exact found.unique best

theorem best?_isSome (present : entries ≠ []) : ∃ best, best? entries = some best := by
  cases entries with
  | nil => exact absurd rfl present
  | cons first rest => exact ⟨_, rfl⟩

theorem map_place_ofList (candidates : List Candidate) :
    (ofList candidates).map (·.place) = List.range candidates.length := by
  rw [List.range_eq_range', ← List.zipIdx_map_snd, ofList, List.map_map]
  rfl

theorem map_candidate_ofList (candidates : List Candidate) :
    (ofList candidates).map (·.candidate) = candidates := by
  rw [ofList, List.map_map]
  exact List.zipIdx_map_fst 0 candidates

theorem placed_ofList (candidates : List Candidate) : Placed (ofList candidates) := by
  have rising : ((ofList candidates).map (·.place)).Pairwise (· ≠ ·) := by
    rw [map_place_ofList]
    exact List.nodup_range
  exact List.pairwise_map.mp rising

theorem mem_ofList {entry : Ranked} {candidates : List Candidate} :
    entry ∈ ofList candidates ↔ candidates[entry.place]? = some entry.candidate := by
  simp only [ofList, List.mem_map, Prod.exists, List.mk_mem_zipIdx_iff_getElem?]
  constructor
  · intro held
    obtain ⟨candidate, place, found, rfl⟩ := held
    exact found
  · intro found
    exact ⟨_, _, found, rfl⟩

theorem Best.ofList_spec {candidates : List Candidate} {i : Nat} {candidate : Candidate}
    (best : Best (ofList candidates) a) (found : candidates[i]? = some candidate) :
    candidate.score.rank < a.candidate.score.rank ∨
      (candidate.score.rank = a.candidate.score.rank ∧ a.place ≤ i) := by
  by_cases same : (⟨i, candidate⟩ : Ranked) = a
  · rw [← same]
    exact .inr ⟨rfl, Nat.le_refl _⟩
  · rcases best.2 ⟨i, candidate⟩ (mem_ofList.mpr found) same with greater | ⟨equal, earlier⟩
    · exact .inl greater
    · exact .inr ⟨equal.symm, Nat.le_of_lt earlier⟩

theorem ofList_ne_nil {candidates : List Candidate} (present : candidates ≠ []) :
    ofList candidates ≠ [] := by
  simpa [ofList] using present

theorem best?_mono {small large : List Candidate} (present : small ≠ [])
    (occurs : ∀ c ∈ small, ∃ d ∈ large, d.score = c.score) :
    ∃ best best', best? (ofList small) = some best ∧
      best? (ofList large) = some best' ∧
      best.candidate.score.rank ≤ best'.candidate.score.rank := by
  obtain ⟨best, found⟩ := best?_isSome (ofList_ne_nil present)
  have isBest := (best?_eq_some_iff (placed_ofList small)).mp found
  obtain ⟨d, member, same⟩ := occurs _ (List.mem_of_getElem? (mem_ofList.mp isBest.1))
  obtain ⟨best', found'⟩ := best?_isSome (ofList_ne_nil (List.ne_nil_of_mem member))
  have isBest' := (best?_eq_some_iff (placed_ofList large)).mp found'
  obtain ⟨i, atPlace⟩ := List.mem_iff_getElem?.mp member
  refine ⟨best, best', found, found', ?_⟩
  rw [← same]
  rcases isBest'.ofList_spec atPlace with less | ⟨equal, _⟩
  · exact Int.le_of_lt less
  · exact Int.le_of_eq equal

end Ranked

namespace Knockout

variable {tree : Knockout} {ranked : List Ranked}

theorem winner_best (placed : Ranked.Placed tree.entries) : Ranked.Best tree.entries tree.winner := by
  induction tree with
  | single entry => exact Ranked.best_single entry
  | duel left right leftBest rightBest =>
    have parts := List.pairwise_append.mp placed
    exact (leftBest parts.1).prefer (rightBest parts.2.1) placed

theorem winner_eq_best? (placed : Ranked.Placed ranked) (moved : tree.entries.Perm ranked) :
    Ranked.best? ranked = some tree.winner := by
  have placedTree : Ranked.Placed tree.entries := placed.perm moved.symm
  exact (Ranked.best?_eq_some_iff placed).mpr ((winner_best placedTree).perm moved)

theorem flatMap_entries_pairUp (trees : List Knockout) :
    (pairUp trees).flatMap entries = trees.flatMap entries := by
  fun_induction pairUp trees with
  | case1 left right rest ih =>
    simp only [List.flatMap_cons, ih, entries, List.append_assoc]
  | case2 rest alone => rfl

theorem entries_ofRounds {trees : List Knockout} (built : ofRounds trees = some tree) :
    tree.entries = trees.flatMap entries := by
  fun_induction ofRounds trees with
  | case1 => cases built
  | case2 last =>
    cases built
    simp
  | case3 left right rest ih => rw [ih built, flatMap_entries_pairUp]

theorem ofRounds_isSome {trees : List Knockout} (present : trees ≠ []) :
    ∃ tree, ofRounds trees = some tree := by
  fun_induction ofRounds trees with
  | case1 => exact absurd rfl present
  | case2 last => exact ⟨last, rfl⟩
  | case3 left right rest ih => exact ih (by simp [pairUp])

theorem entries_balanced (built : balanced ranked = some tree) : tree.entries = ranked := by
  rw [entries_ofRounds built, List.flatMap_map]
  exact List.flatMap_singleton' ranked

theorem balanced_eq_none_iff : balanced ranked = none ↔ ranked = [] := by
  constructor
  · intro absent
    by_cases empty : ranked = []
    · exact empty
    · obtain ⟨tree, built⟩ := ofRounds_isSome (show ranked.map single ≠ [] by simpa using empty)
      rw [balanced, built] at absent
      cases absent
  · intro same
    subst same
    simp [balanced, ofRounds]

end Knockout

namespace Ranked

variable {a b c : Ranked} {entries sorted : List Ranked}

def bestFirst (entries : List Ranked) : List Ranked :=
  entries.mergeSort fun a b => (a.order b).isLE

theorem bestFirst_perm (entries : List Ranked) : (bestFirst entries).Perm entries :=
  List.mergeSort_perm _ _

theorem length_bestFirst (entries : List Ranked) : (bestFirst entries).length = entries.length :=
  (bestFirst_perm entries).length_eq

theorem bestFirst_rising (entries : List Ranked) :
    (bestFirst entries).Pairwise fun a b => ¬ b.Before a := by
  have sorted : (bestFirst entries).Pairwise fun a b => (a.order b).isLE = true := by
    refine List.pairwise_mergeSort ?_ ?_ entries
    · intro a b c first second
      rw [order_isLE] at *
      unfold Before at *
      omega
    · intro a b
      rw [Bool.or_eq_true, order_isLE, order_isLE]
      unfold Before
      omega
  exact sorted.imp fun behind => order_isLE.mp behind

def key (a : Ranked) : Single × Nat := (a.candidate.score, a.place)

theorem key_eq_of_not_before (forth : ¬ b.Before a) (back : ¬ a.Before b) : a.key = b.key := by
  unfold Before at *
  have score : a.candidate.score = b.candidate.score := Single.eq_of_rank (by omega)
  have place : a.place = b.place := by omega
  rw [key, key, score, place]

theorem Placed.nodup_keys (placed : Placed entries) : (entries.map key).Nodup := by
  refine List.pairwise_map.mpr (placed.imp ?_)
  intro a b apart same
  exact apart (congrArg Prod.snd same)

-- Entries with different keys leave no choice to whoever sorts them.
theorem eq_bestFirst (distinct : (entries.map key).Nodup) (moved : sorted.Perm entries)
    (rising : sorted.Pairwise fun a b => ¬ b.Before a) : sorted = bestFirst entries := by
  refine List.Perm.eq_of_pairwise ?_ rising (bestFirst_rising entries)
    (moved.trans (bestFirst_perm entries).symm)
  intro a b first second forth back
  have firstIn : a ∈ entries := moved.mem_iff.mp first
  have secondIn : b ∈ entries := (bestFirst_perm entries).mem_iff.mp second
  exact List.inj_on_of_nodup_map distinct firstIn secondIn (key_eq_of_not_before forth back)

theorem bestFirst_strict (placed : Placed entries) : (bestFirst entries).Pairwise Before := by
  have apart : Placed (bestFirst entries) := placed.perm (bestFirst_perm entries).symm
  refine (List.pairwise_and_iff.mpr ⟨bestFirst_rising entries, apart⟩).imp ?_
  intro a b both
  exact (before_or_before both.2).resolve_right both.1

theorem bestFirst_head? (placed : Placed entries) : (bestFirst entries).head? = best? entries := by
  have strict := bestFirst_strict placed
  have moved := bestFirst_perm entries
  cases shown : bestFirst entries with
  | nil =>
    rw [shown] at moved
    rw [List.nil_perm.mp moved]
    rfl
  | cons first rest =>
    rw [shown] at strict moved
    have best : Best (first :: rest) first := by
      refine ⟨List.mem_cons_self, ?_⟩
      intro c member other
      rcases List.mem_cons.mp member with same | behind
      · exact absurd same other
      · exact (List.pairwise_cons.mp strict).1 c behind
    exact ((best?_eq_some_iff placed).mpr (best.perm moved)).symm

end Ranked

namespace Shortlist

open Ranked

variable {s : Shortlist} {pushed dropped : List Ranked} {entry : Ranked}

-- One comparison of the search for the worst entry: what stands behind it takes its place.
def lower (worst : Nat × Ranked) (next : Ranked × Nat) : Nat × Ranked :=
  if worst.2.Before next.1 then (next.2, next.1) else worst

theorem foldl_lower (rest : List (Ranked × Nat)) (start : Nat × Ranked) :
    (rest.foldl lower start = start ∨
        ((rest.foldl lower start).2, (rest.foldl lower start).1) ∈ rest) ∧
      ¬ (rest.foldl lower start).2.Before start.2 ∧
      ∀ x ∈ rest, ¬ (rest.foldl lower start).2.Before x.1 := by
  induction rest generalizing start with
  | nil => exact ⟨.inl rfl, Before.irrefl _, by simp⟩
  | cons next rest ih =>
    obtain ⟨found, startKept, restKept⟩ := ih (lower start next)
    rw [List.foldl_cons]
    by_cases behind : start.2.Before next.1
    · have taken : lower start next = (next.2, next.1) := if_pos behind
      rw [taken] at found startKept restKept ⊢
      refine ⟨.inr ?_, ?_, ?_⟩
      · rcases found with same | later
        · rw [same]
          exact List.mem_cons_self
        · exact List.mem_cons_of_mem _ later
      · intro ahead
        exact startKept (ahead.trans behind)
      · intro x member
        rcases List.mem_cons.mp member with rfl | later
        · exact startKept
        · exact restKept x later
    · have kept : lower start next = start := if_neg behind
      rw [kept] at found startKept restKept ⊢
      refine ⟨found.imp_right (List.mem_cons_of_mem _), startKept, ?_⟩
      intro x member
      rcases List.mem_cons.mp member with rfl | later
      · intro ahead
        exact startKept (ahead.trans_not behind)
      · exact restKept x later

theorem worst_eq {kept : Array Ranked} {first : Ranked} {start : Nat} {rest : List (Ranked × Nat)}
    (slots : kept.toList.zipIdx = (first, start) :: rest) :
    worst kept = some (rest.foldl lower (start, first)) := by
  simp only [worst, slots, Option.some.injEq]
  congr 1
  funext worst next
  simp only [lower, order_eq_gt]

theorem worst_none {kept : Array Ranked} (slots : kept.toList.zipIdx = []) : worst kept = none := by
  simp only [worst, slots]

theorem worst_eq_none_iff {kept : Array Ranked} : worst kept = none ↔ kept.toList = [] := by
  cases slots : kept.toList.zipIdx with
  | nil =>
    rw [worst_none slots]
    simpa using slots
  | cons first rest =>
    rw [worst_eq slots]
    have taken : kept.toList ≠ [] := by
      intro empty
      rw [empty] at slots
      cases slots
    simpa using taken

theorem worst_spec {kept : Array Ranked} {slot : Nat} {last : Ranked}
    (found : worst kept = some (slot, last)) :
    kept.toList[slot]? = some last ∧ ∀ x ∈ kept.toList, ¬ last.Before x := by
  cases slots : kept.toList.zipIdx with
  | nil =>
    rw [worst_none slots] at found
    cases found
  | cons head rest =>
    obtain ⟨first, start⟩ := head
    rw [worst_eq slots, Option.some.injEq] at found
    obtain ⟨place, startKept, restKept⟩ := foldl_lower rest (start, first)
    rw [found] at place startKept restKept
    have member : (last, slot) ∈ kept.toList.zipIdx := by
      rw [slots]
      rcases place with same | later
      · cases same
        exact List.mem_cons_self
      · exact List.mem_cons_of_mem _ later
    refine ⟨List.mk_mem_zipIdx_iff_getElem?.mp member, ?_⟩
    intro x present
    obtain ⟨place, there⟩ := List.mem_iff_getElem?.mp present
    have entered : (x, place) ∈ (first, start) :: rest := by
      rw [← slots]
      exact List.mk_mem_zipIdx_iff_getElem?.mpr there
    rcases List.mem_cons.mp entered with same | later
    · cases same
      exact startKept
    · exact restKept _ later

-- What one push does: it appends while there is room, and later trades the worst for a better one.
inductive Pushed (s : Shortlist) (entry : Ranked) : Shortlist → Prop where
  | room (free : s.kept.toList.length < s.capacity) :
      Pushed s entry { s with kept := s.kept.push entry }
  | trade (full : s.capacity ≤ s.kept.toList.length) (there : s.kept.toList[slot]? = some last)
      (back : ∀ x ∈ s.kept.toList, ¬ last.Before x) (better : entry.Before last) :
      Pushed s entry { s with kept := s.kept.setIfInBounds slot entry }
  | refuse (full : s.capacity ≤ s.kept.toList.length)
      (behind : ∀ x ∈ s.kept.toList, ¬ entry.Before x) : Pushed s entry s

theorem push_pushed (s : Shortlist) (entry : Ranked) : Pushed s entry (s.push entry) := by
  unfold push
  split
  · rename_i free
    exact .room (by simpa using free)
  · rename_i full
    have full : s.capacity ≤ s.kept.toList.length := by simpa using full
    split
    · rename_i none
      refine .refuse full ?_
      simp [worst_eq_none_iff.mp none]
    · rename_i slot last found
      obtain ⟨there, back⟩ := worst_spec found
      split
      · rename_i better
        exact .trade full there back (order_eq_lt.mp better)
      · rename_i worse
        refine .refuse full ?_
        intro x member ahead
        exact worse (order_eq_lt.mpr (ahead.trans_not (back x member)))

-- What is kept and what was given up make up what was pushed; none given up stands before one kept.
structure Keeps (s : Shortlist) (pushed dropped : List Ranked) : Prop where
  whole : (s.kept.toList ++ dropped).Perm pushed
  length_eq : s.kept.toList.length = min s.capacity pushed.length
  ahead : ∀ x ∈ s.kept.toList, ∀ d ∈ dropped, ¬ d.Before x

theorem empty_keeps (capacity : Nat) : (empty capacity).Keeps [] [] := by
  refine ⟨List.Perm.nil, ?_, ?_⟩
  · simp [empty]
  · simp [empty]

theorem pushed_keeps (keeps : s.Keeps pushed dropped) (step : Pushed s entry next) :
    ∃ dropped, next.Keeps (pushed ++ [entry]) dropped := by
  obtain ⟨whole, length_eq, ahead⟩ := keeps
  have lengths := whole.length_eq
  rw [List.length_append] at lengths
  cases step with
  | room free =>
    have nothing : dropped = [] := List.eq_nil_of_length_eq_zero (by omega)
    subst nothing
    refine ⟨[], ?_, ?_, by simp⟩
    · simpa using whole.append_right [entry]
    · simp only [Array.toList_push, List.length_append, List.length_singleton]
      omega
  | @trade slot last full there back better =>
    have moved : (last :: s.kept.toList.set slot entry).Perm (entry :: s.kept.toList) := by
      simpa [there] using s.kept.toList.getD_set_perm_cons slot entry
    have lastIn : last ∈ s.kept.toList := List.mem_of_getElem? there
    refine ⟨last :: dropped, ?_, ?_, ?_⟩
    · rw [Array.toList_setIfInBounds]
      refine List.perm_middle.trans ?_
      refine (moved.append_right dropped).trans ?_
      exact (whole.cons entry).trans (List.perm_append_singleton entry pushed).symm
    · simp only [Array.toList_setIfInBounds, List.length_set, List.length_append,
        List.length_singleton]
      omega
    · rw [Array.toList_setIfInBounds]
      intro x member d given
      rcases List.mem_or_eq_of_mem_set member with old | rfl
      · rcases List.mem_cons.mp given with rfl | before
        · exact back x old
        · exact ahead x old d before
      · rcases List.mem_cons.mp given with rfl | before
        · exact better.asymm
        · intro first
          exact ahead last lastIn d before (first.trans better)
  | refuse full behind =>
    refine ⟨entry :: dropped, ?_, ?_, ?_⟩
    · refine List.perm_middle.trans ?_
      exact (whole.cons entry).trans (List.perm_append_singleton entry pushed).symm
    · rw [List.length_append, List.length_singleton]
      omega
    · intro x member d given
      rcases List.mem_cons.mp given with rfl | old
      · exact behind x member
      · exact ahead x member d old

theorem pushAll_keeps (keeps : s.Keeps pushed dropped) (entries : List Ranked) :
    ∃ dropped, (s.pushAll entries).Keeps (pushed ++ entries) dropped := by
  induction entries generalizing s pushed dropped with
  | nil => exact ⟨dropped, by simpa [pushAll] using keeps⟩
  | cons entry rest ih =>
    obtain ⟨given, next⟩ := pushed_keeps keeps (push_pushed s entry)
    rw [List.append_cons]
    exact ih next

theorem capacity_pushed (step : Pushed s entry next) : next.capacity = s.capacity := by
  cases step <;> rfl

theorem capacity_pushAll (s : Shortlist) (entries : List Ranked) :
    (s.pushAll entries).capacity = s.capacity := by
  induction entries generalizing s with
  | nil => rfl
  | cons entry rest ih => exact (ih (s.push entry)).trans (capacity_pushed (push_pushed s entry))

theorem Keeps.shown_perm (keeps : s.Keeps pushed dropped) :
    (bestFirst s.kept.toList ++ bestFirst dropped).Perm pushed :=
  ((bestFirst_perm _).append (bestFirst_perm _)).trans keeps.whole

theorem Keeps.shown_rising (keeps : s.Keeps pushed dropped) :
    (bestFirst s.kept.toList ++ bestFirst dropped).Pairwise fun a b => ¬ b.Before a := by
  refine List.pairwise_append.mpr ⟨bestFirst_rising _, bestFirst_rising _, ?_⟩
  intro x kept d given
  exact keeps.ahead x ((bestFirst_perm _).mem_iff.mp kept) d ((bestFirst_perm _).mem_iff.mp given)

theorem Keeps.take_shown (keeps : s.Keeps pushed dropped) :
    (bestFirst s.kept.toList ++ bestFirst dropped).take s.capacity = bestFirst s.kept.toList := by
  have size := keeps.length_eq
  have lengths := keeps.whole.length_eq
  rw [List.length_append] at lengths
  by_cases full : s.capacity ≤ pushed.length
  · rw [List.take_left' (by rw [length_bestFirst]; omega)]
  · have nothing : bestFirst dropped = [] := by
      refine List.eq_nil_of_length_eq_zero ?_
      rw [length_bestFirst]
      omega
    rw [nothing, List.append_nil, List.take_of_length_le]
    rw [length_bestFirst]
    omega

theorem Keeps.bestFirst_kept (keeps : s.Keeps pushed dropped) (distinct : (pushed.map key).Nodup) :
    bestFirst s.kept.toList = (bestFirst pushed).take s.capacity := by
  rw [← keeps.take_shown, eq_bestFirst distinct keeps.shown_perm keeps.shown_rising]

theorem sorted_eq (s : Shortlist) : s.sorted = (bestFirst s.kept.toList).map (·.candidate) := rfl

theorem sorted_pushAll (capacity : Nat) (distinct : (pushed.map key).Nodup) :
    ((empty capacity).pushAll pushed).sorted =
      ((bestFirst pushed).take capacity).map (·.candidate) := by
  obtain ⟨dropped, keeps⟩ := pushAll_keeps (empty_keeps capacity) pushed
  rw [List.nil_append] at keeps
  rw [sorted_eq, keeps.bestFirst_kept distinct, capacity_pushAll]
  rfl

end Shortlist

end ScanAlign
