import ScanAlign.Matcher
import ScanAlign.Proofs.Search.Hypotheses

namespace ScanAlign

variable {m : Map} {bank : ScanBank} {w : PriorWeights} {scan : CellScan} {dx dy : Int}
  {c d : Candidate} {f : Fault}

def Map.scoreFault : Map → Fault
  | probability _ => .probabilityScore
  | distance _ => .distanceScore

theorem Map.checkedScore_error (failed : m.checkedScore scan dx dy = .error f) :
    f = m.scoreFault := by
  cases m with
  | probability p =>
    simp only [checkedScore] at failed
    split at failed
    · cases failed
    · exact (Except.error.inj failed).symm
  | distance d =>
    simp only [checkedScore] at failed
    split at failed
    · cases failed
    · exact (Except.error.inj failed).symm

namespace Candidate

-- The candidate with its score, checks left aside; a rotation without a scan counts as an empty scan.
def valued (c : Candidate) (m : Map) (bank : ScanBank) (w : PriorWeights) : Candidate :=
  { c with score := m.rawScore (bank.scans[c.rotation]?.getD []) c.dx c.dy * c.prior w }

theorem scored_eq (found : bank.scans[c.rotation]? = some scan) :
    c.scored m bank w =
      (m.checkedScore scan c.dx c.dy).map fun raw => { c with score := raw * c.prior w } := by
  simp only [scored, found]
  rfl

theorem eq_valued (passed : c.scored m bank w = .ok d) : d = c.valued m bank w := by
  cases found : bank.scans[c.rotation]? with
  | none =>
    simp only [scored, found] at passed
    cases passed
  | some scan =>
    rw [scored_eq found] at passed
    cases checked : m.checkedScore scan c.dx c.dy with
    | error e =>
      rw [checked] at passed
      cases passed
    | ok raw =>
      rw [checked] at passed
      cases passed
      rw [valued, found, Map.checkedScore_eq_ok checked]
      rfl

theorem scored_error (inBank : c.rotation < bank.size) (failed : c.scored m bank w = .error f) :
    f = m.scoreFault := by
  have found : bank.scans[c.rotation]? = some bank.scans[c.rotation] := Array.getElem?_eq_getElem inBank
  rw [scored_eq found] at failed
  cases checked : m.checkedScore bank.scans[c.rotation] c.dx c.dy with
  | error e =>
    rw [checked] at failed
    cases failed
    exact Map.checkedScore_error checked
  | ok raw =>
    rw [checked] at failed
    cases failed

end Candidate

namespace Scoring

variable {slots next : Array Candidate} {candidates scored : List Candidate} {schedule : List Nat}
  {i j : Nat}

def InBank (bank : ScanBank) (slots : Array Candidate) : Prop :=
  ∀ c ∈ slots, c.rotation < bank.size

theorem slot_none (free : slots[i]? = none) : slot m bank w slots i = .ok slots := by
  rw [slot, free]

theorem slot_some (taken : slots[i]? = some c) :
    slot m bank w slots i = (c.scored m bank w).map (slots.setIfInBounds i) := by
  simp only [slot, taken]
  cases c.scored m bank w <;> rfl

theorem slot_keeps (inBank : InBank bank slots) (ran : slot m bank w slots i = .ok next) :
    InBank bank next := by
  cases taken : slots[i]? with
  | none =>
    rw [slot_none taken] at ran
    cases ran
    exact inBank
  | some c =>
    rw [slot_some taken] at ran
    cases passed : c.scored m bank w with
    | error e =>
      rw [passed] at ran
      cases ran
    | ok d =>
      rw [passed] at ran
      cases ran
      intro x member
      rcases Array.mem_or_eq_of_mem_setIfInBounds member with old | rfl
      · exact inBank x old
      · rw [Candidate.eq_valued passed]
        exact inBank c (Array.mem_of_getElem? taken)

theorem slot_frame (apart : i ≠ j) (ran : slot m bank w slots i = .ok next) :
    next[j]? = slots[j]? := by
  cases taken : slots[i]? with
  | none =>
    rw [slot_none taken] at ran
    cases ran
    rfl
  | some c =>
    rw [slot_some taken] at ran
    cases passed : c.scored m bank w with
    | error e =>
      rw [passed] at ran
      cases ran
    | ok d =>
      rw [passed] at ran
      cases ran
      exact Array.getElem?_setIfInBounds_ne apart

theorem slot_skips (apart : i ≠ j) (free : slots[j]? = none) :
    (slot m bank w slots i >>= (slot m bank w · j)) = slot m bank w slots i := by
  cases ran : slot m bank w slots i with
  | error e => rfl
  | ok next => exact slot_none ((slot_frame apart ran).trans free)

-- Both orders write the same two scores. If both checks fail, they fail with the one fault there is.
theorem slot_swaps (inBank : InBank bank slots) (i j : Nat) :
    (slot m bank w slots i >>= (slot m bank w · j)) =
      (slot m bank w slots j >>= (slot m bank w · i)) := by
  by_cases same : i = j
  · rw [same]
  · cases first : slots[i]? with
    | none =>
      rw [slot_skips (Ne.symm same) first, slot_none first]
      rfl
    | some c =>
      cases second : slots[j]? with
      | none =>
        rw [slot_skips same second, slot_none second]
        rfl
      | some d =>
        have firstIn := inBank c (Array.mem_of_getElem? first)
        have secondIn := inBank d (Array.mem_of_getElem? second)
        have secondAfter (x : Candidate) : (slots.setIfInBounds i x)[j]? = some d :=
          (Array.getElem?_setIfInBounds_ne same).trans second
        have firstAfter (x : Candidate) : (slots.setIfInBounds j x)[i]? = some c :=
          (Array.getElem?_setIfInBounds_ne (Ne.symm same)).trans first
        rw [slot_some first, slot_some second]
        cases one : c.scored m bank w with
        | error e =>
          cases two : d.scored m bank w with
          | error e' =>
            rw [Candidate.scored_error firstIn one, Candidate.scored_error secondIn two]
            rfl
          | ok y =>
            simp only [Except.map, bind, Except.bind, slot_some (firstAfter y), one]
        | ok x =>
          cases two : d.scored m bank w with
          | error e =>
            simp only [Except.map, bind, Except.bind, slot_some (secondAfter x), two]
          | ok y =>
            simp only [Except.map, bind, Except.bind, slot_some (firstAfter y),
              slot_some (secondAfter x), one, two]
            rw [Array.setIfInBounds_comm _ _ same]

theorem twoWorkers_perm (n : Nat) : (twoWorkers n).Perm (List.range n) :=
  List.filter_append_perm _ _

theorem foldlM_slot (m : Map) (bank : ScanBank) (w : PriorWeights) (done rest : List Candidate) :
    (List.range' done.length rest.length).foldlM (slot m bank w) (done ++ rest).toArray =
      (rest.mapM (Candidate.scored · m bank w)).map fun scored => (done ++ scored).toArray := by
  induction rest generalizing done with
  | nil => rfl
  | cons c rest ih =>
    have taken : (done ++ c :: rest).toArray[done.length]? = some c := by simp
    rw [List.length_cons, List.range'_succ, List.foldlM_cons, slot_some taken, List.mapM_cons]
    cases passed : c.scored m bank w with
    | error e => rfl
    | ok d =>
      have written : (done ++ c :: rest).toArray.setIfInBounds done.length d =
          ((done ++ [d]) ++ rest).toArray := by simp
      have others := ih (done ++ [d])
      rw [List.length_append, List.length_singleton] at others
      simp only [Except.map, bind, Except.bind, written, others]
      cases rest.mapM (Candidate.scored · m bank w) with
      | error e => rfl
      | ok scored => simp [pure, Except.pure]

theorem bySchedule_range (candidates : List Candidate) :
    bySchedule m bank w (List.range candidates.length) candidates =
      inOrder m bank w candidates := by
  have run := foldlM_slot m bank w [] candidates
  rw [List.length_nil, ← List.range_eq_range', List.nil_append] at run
  rw [bySchedule, run, inOrder]
  cases candidates.mapM (Candidate.scored · m bank w) <;> rfl

theorem bySchedule_eq_inOrder (inBank : ∀ c ∈ candidates, c.rotation < bank.size)
    (once : schedule.Perm (List.range candidates.length)) :
    bySchedule m bank w schedule candidates = inOrder m bank w candidates := by
  have inSlots : InBank bank candidates.toArray := by
    intro c member
    exact inBank c (List.mem_toArray.mp member)
  have run : schedule.foldlM (slot m bank w) candidates.toArray =
      (List.range candidates.length).foldlM (slot m bank w) candidates.toArray :=
    foldlM_perm (InBank bank) (fun _ _ _ => slot_keeps)
      (fun _ i j valid => slot_swaps valid i j) inSlots once
  rw [← bySchedule_range, bySchedule, bySchedule, run]

-- The checks of the scores of these candidates, and nothing else that scoring does.
def ChecksPass (m : Map) (bank : ScanBank) (candidates : List Candidate) : Prop :=
  ∀ c ∈ candidates, ∀ scan, bank.scans[c.rotation]? = some scan →
    ∃ raw, m.checkedScore scan c.dx c.dy = .ok raw

theorem scored_eq_ok_iff (inBank : c.rotation < bank.size) :
    (∃ d, c.scored m bank w = .ok d) ↔
      ∀ scan, bank.scans[c.rotation]? = some scan → ∃ raw, m.checkedScore scan c.dx c.dy = .ok raw := by
  have found : bank.scans[c.rotation]? = some bank.scans[c.rotation] := Array.getElem?_eq_getElem inBank
  rw [Candidate.scored_eq found]
  constructor
  · intro succeeds scan same
    obtain ⟨d, passed⟩ := succeeds
    rw [found] at same
    cases same
    cases checked : m.checkedScore bank.scans[c.rotation] c.dx c.dy with
    | error e =>
      rw [checked] at passed
      cases passed
    | ok raw => exact ⟨raw, rfl⟩
  · intro passes
    obtain ⟨raw, checked⟩ := passes _ found
    exact ⟨_, by rw [checked]; rfl⟩

theorem inOrder_outcome (inBank : ∀ c ∈ candidates, c.rotation < bank.size) :
    (ChecksPass m bank candidates ∧ ∃ scored, inOrder m bank w candidates = .ok scored) ∨
      (¬ ChecksPass m bank candidates ∧ inOrder m bank w candidates = .error m.scoreFault) := by
  rcases mapM_ok_or_error candidates (Candidate.scored · m bank w) with
    ⟨passed, scored, ran⟩ | ⟨c, member, e, failed, ran⟩
  · refine .inl ⟨?_, scored, ran⟩
    intro c member
    exact (scored_eq_ok_iff (inBank c member)).mp (passed c member)
  · refine .inr ⟨?_, ?_⟩
    · intro passes
      obtain ⟨d, passed⟩ := (scored_eq_ok_iff (w := w) (inBank c member)).mpr (passes c member)
      rw [failed] at passed
      cases passed
    · rw [← Candidate.scored_error (inBank c member) failed]
      exact ran

theorem inOrder_eq_map (passed : inOrder m bank w candidates = .ok scored) :
    scored = candidates.map (Candidate.valued · m bank w) :=
  eq_map_of_mapM_eq_ok (fun _ _ _ => Candidate.eq_valued) passed

end Scoring

end ScanAlign
