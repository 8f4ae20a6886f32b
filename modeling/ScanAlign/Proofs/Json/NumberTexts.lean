import Mathlib.Algebra.Order.Field.Power
import Mathlib.Algebra.Order.Field.Rat
import Mathlib.Data.List.TakeWhile
import Mathlib.Data.Nat.Digits.Defs
import ScanAlign.Proofs.Json.Reading
import ScanAlign.Proofs.Number.ShortestDigits

namespace ScanAlign

namespace Numeral

-- The whole number with the given decimal digits, the first one in front.
def digitsNumber (digits : List Nat) : Nat := Nat.ofDigits 10 digits.reverse

-- What a numeral stands for, its sign aside: all its digits, the point moved to its place.
def size (n : Numeral) : ℚ :=
  digitsNumber (n.whole ++ n.fraction) * 10 ^ (n.power.getD 0 - n.fraction.length)

-- The number that a numeral is nearest to.
def nearest (n : Numeral) : Single := .ofQuanta n.negative n.size.num.natAbs n.size.den 149 0

-- The whole number that a numeral without a fraction and a power stands for.
def toWhole? (n : Numeral) : Option Int :=
  if n.fraction.isEmpty && n.power.isNone then
    some (if n.negative then -digitsNumber n.whole else digitsNumber n.whole)
  else none

end Numeral

namespace Json

open Token

structure AllDigits (cs : List Char) : Prop where
  present : cs ≠ []
  digits : ∀ c ∈ cs, c.isDigit = true

structure IsWhole (cs : List Char) : Prop extends AllDigits cs where
  lead : cs.head? = some '0' → cs.length = 1

def numberOf (cs : List Char) : Nat := Numeral.digitsNumber (cs.map digitValue)

inductive IsFraction : List Char → List Nat → Prop
  | missing : IsFraction [] []
  | point {cs : List Char} (all : AllDigits cs) : IsFraction ('.' :: cs) (cs.map digitValue)

inductive IsPower : List Char → Option Int → Prop
  | missing : IsPower [] none
  | bare {cs : List Char} (all : AllDigits cs) : IsPower ('e' :: cs) (some (numberOf cs))
  | plus {cs : List Char} (all : AllDigits cs) : IsPower ('e' :: '+' :: cs) (some (numberOf cs))
  | minus {cs : List Char} (all : AllDigits cs) : IsPower ('e' :: '-' :: cs) (some (-numberOf cs))

inductive IsUnsigned : List Char → Numeral → Prop
  | parts {whole fraction power : List Char} {digits : List Nat} {exponent : Option Int}
      (isWhole : IsWhole whole) (isFraction : IsFraction fraction digits)
      (isPower : IsPower power exponent) :
      IsUnsigned (whole ++ (fraction ++ power)) ⟨false, whole.map digitValue, digits, exponent⟩

inductive IsNumeral : List Char → Numeral → Prop
  | positive {cs : List Char} {n : Numeral} (unsigned : IsUnsigned cs n) : IsNumeral cs n
  | negative {cs : List Char} {n : Numeral} (unsigned : IsUnsigned cs n) :
      IsNumeral ('-' :: cs) { n with negative := true }

variable {cs ds rest : List Char} {digits : List Nat} {exponent : Option Int} {n : Numeral}

theorem AllDigits.digits_append (all : AllDigits cs) (ends : ∀ c ∈ rest.head?, c.isDigit = false) :
    Token.digits (cs ++ rest) = (cs.map digitValue, rest) := by
  have taken : rest.takeWhile Char.isDigit = [] := by
    cases rest with
    | nil => rfl
    | cons c rest => simp [ends c rfl]
  have dropped : rest.dropWhile Char.isDigit = rest := by
    cases rest with
    | nil => rfl
    | cons c rest => simp [ends c rfl]
  rw [Token.digits, List.takeWhile_append_of_pos all.digits, List.dropWhile_append_of_pos all.digits,
    taken, dropped, List.append_nil]

theorem AllDigits.exists_cons (all : AllDigits cs) :
    ∃ c tail, cs = c :: tail ∧ c.isDigit = true := by
  cases cs with
  | nil => exact absurd rfl all.present
  | cons c tail => exact ⟨c, tail, rfl, all.digits c List.mem_cons_self⟩

theorem digit_ne {c : Char} (digit : c.isDigit = true) (other : Char)
    (apart : other.isDigit = false) : c ≠ other := by
  rintro rfl
  rw [digit] at apart
  cases apart

theorem IsFraction.fraction?_append (isFraction : IsFraction cs digits)
    (ends : ∀ c ∈ rest.head?, c.isDigit = false ∧ c ≠ '.') :
    fraction? (cs ++ rest) = some (digits, rest) := by
  cases isFraction with
  | missing =>
    cases rest with
    | nil => rfl
    | cons c rest =>
      rw [List.nil_append, fraction?]
      intro tail same
      cases same
      exact (ends '.' rfl).2 rfl
  | @point cs all =>
    have found := all.digits_append fun d member => (ends d member).1
    obtain ⟨c, tail, rfl, _⟩ := all.exists_cons
    rw [List.cons_append, fraction?, found]
    rfl

theorem foldl_digits (ds : List Char) :
    (ds.map digitValue).foldl (fun n d => 10 * n + d) 0 = numberOf ds := by
  simp [numberOf, Numeral.digitsNumber, Nat.ofDigits_eq_foldr, List.foldr_reverse, Nat.add_comm]

theorem IsPower.power?_append (isPower : IsPower cs exponent) (ends : Ends rest) :
    power? (cs ++ rest) = some (exponent, rest) := by
  cases isPower with
  | missing =>
    cases rest with
    | nil => rfl
    | cons c rest =>
      obtain ⟨_, _, low, high⟩ := ends c rfl
      simp [power?, low, high]
  | @bare cs all =>
    have found := all.digits_append fun d member => (ends d member).1
    obtain ⟨c, tail, rfl, digit⟩ := all.exists_cons
    have plus := digit_ne digit '+' (by decide)
    have minus := digit_ne digit '-' (by decide)
    rw [List.cons_append] at found
    simp [power?, found, plus, minus, ← foldl_digits]
  | @plus cs all =>
    have found := all.digits_append fun d member => (ends d member).1
    obtain ⟨c, tail, rfl, _⟩ := all.exists_cons
    rw [List.cons_append] at found
    simp [power?, found, ← foldl_digits]
  | @minus cs all =>
    have found := all.digits_append fun d member => (ends d member).1
    obtain ⟨c, tail, rfl, _⟩ := all.exists_cons
    rw [List.cons_append] at found
    simp [power?, found, ← foldl_digits]

theorem IsPower.ends_append (isPower : IsPower cs exponent) (ends : Ends rest) :
    ∀ c ∈ (cs ++ rest).head?, c.isDigit = false ∧ c ≠ '.' := by
  intro c member
  cases isPower with
  | missing => exact ⟨(ends c member).1, (ends c member).2.1⟩
  | bare | plus | minus =>
    cases member
    decide

theorem IsFraction.ends_append (isFraction : IsFraction cs digits)
    (ends : ∀ c ∈ rest.head?, c.isDigit = false ∧ c ≠ '.') :
    ∀ c ∈ (cs ++ rest).head?, c.isDigit = false := by
  intro c member
  cases isFraction with
  | missing => exact (ends c member).1
  | point =>
    cases member
    decide

theorem digitValue_ne_zero {c : Char} (digit : c.isDigit = true) (nonzero : c ≠ '0') :
    digitValue c ≠ 0 := by
  intro zero
  apply nonzero
  have low : '0'.toNat ≤ c.toNat := (Char.isDigit_iff_toNat.mp digit).1
  exact Char.toNat_inj.mp (Nat.le_antisymm (Nat.le_of_sub_eq_zero zero) low)

theorem IsWhole.no_needless_zero (isWhole : IsWhole cs) :
    ((cs.map digitValue).isEmpty ||
      ((cs.map digitValue).head? == some 0 && (cs.map digitValue).length != 1)) = false := by
  obtain ⟨c, tail, rfl, digit⟩ := isWhole.exists_cons
  by_cases zero : c = '0'
  · subst zero
    have single := isWhole.lead rfl
    simp_all
  · simp [digitValue_ne_zero digit zero]

theorem IsUnsigned.front (unsigned : IsUnsigned cs n) :
    ∃ c tail, cs = c :: tail ∧ c.isDigit = true := by
  cases unsigned with
  | parts isWhole =>
    obtain ⟨c, tail, rfl, digit⟩ := isWhole.exists_cons
    exact ⟨c, _, rfl, digit⟩

theorem IsUnsigned.numeral?_append (unsigned : IsUnsigned cs n) (ends : Ends rest) :
    numeral? (cs ++ rest) = some (n, rest) ∧
      numeral? ('-' :: (cs ++ rest)) = some ({ n with negative := true }, rest) := by
  obtain ⟨c, tail, start, digit⟩ := unsigned.front
  have minus := digit_ne digit '-' (by decide)
  have unsign : ∀ tail : List Char, cs ++ rest = '-' :: tail → False := by
    intro tail same
    rw [start] at same
    exact minus (List.cons.inj same).1
  cases unsigned with
  | @parts whole fraction power digits exponent isWhole isFraction isPower =>
    have afterFraction := isPower.ends_append ends
    have read := isWhole.digits_append (isFraction.ends_append afterFraction)
    have found : Token.digits (whole ++ (fraction ++ power) ++ rest) =
        (whole.map digitValue, fraction ++ (power ++ rest)) := by
      rw [List.append_assoc, List.append_assoc, read]
    rw [numeral?.eq_2 _ unsign, numeral?.eq_1, found]
    simp only [isWhole.no_needless_zero, isFraction.fraction?_append afterFraction,
      isPower.power?_append ends, bind, Option.bind]
    exact ⟨rfl, rfl⟩

theorem next?_numeral {c : Char} (front : c = '-' ∨ c.isDigit = true) (tail : List Char) :
    next? (c :: tail) = do
      let (value, rest) ← numeral? (c :: tail)
      return (numeral value, rest) := by
  apply next?.eq_11
  all_goals
    intro rest same
    cases same
    rcases front with front | front <;> cases front

theorem isBlank_numeral {c : Char} (front : c = '-' ∨ c.isDigit = true) : isBlank c = false := by
  have apart (other : Char) (minus : '-' ≠ other) (noDigit : other.isDigit = false) : c ≠ other := by
    rcases front with rfl | digit
    · exact minus
    · exact digit_ne digit other noDigit
  simp [isBlank, apart ' ', apart '\n', apart '\t', apart '\r']

theorem IsNumeral.isWord (isNumeral : IsNumeral cs n) : IsWord cs (.numeral n) := by
  cases isNumeral with
  | positive unsigned =>
    obtain ⟨c, tail, rfl, digit⟩ := unsigned.front
    refine ⟨⟨_, _, rfl, isBlank_numeral (.inr digit)⟩, ?_⟩
    intro rest ends
    have found := (unsigned.numeral?_append ends).1
    rw [List.cons_append] at found ⊢
    rw [next?_numeral (.inr digit), found]
    rfl
  | negative unsigned =>
    refine ⟨⟨_, _, rfl, rfl⟩, ?_⟩
    intro rest ends
    rw [List.cons_append, next?_numeral (.inl rfl), (unsigned.numeral?_append ends).2]
    rfl

variable {power : List Char} {place : Int}

theorem numberOf_append (cs ds : List Char) :
    numberOf (cs ++ ds) = numberOf cs * 10 ^ ds.length + numberOf ds := by
  simp only [numberOf, Numeral.digitsNumber, List.map_append, List.reverse_append, Nat.ofDigits_append,
    List.length_reverse, List.length_map]
  ring

theorem numberOf_zeros (k : Nat) : numberOf (List.replicate k '0') = 0 := by
  have zero : digitValue '0' = 0 := rfl
  rw [numberOf, Numeral.digitsNumber, List.map_replicate, List.reverse_replicate, zero]
  exact Nat.ofDigits_replicate_zero

theorem numberOf_append_zeros (cs : List Char) (k : Nat) :
    numberOf (cs ++ List.replicate k '0') = numberOf cs * 10 ^ k := by
  rw [numberOf_append, numberOf_zeros, List.length_replicate, Nat.add_zero]

theorem numberOf_zeros_append (k : Nat) (cs : List Char) :
    numberOf (List.replicate k '0' ++ cs) = numberOf cs := by
  rw [numberOf_append, numberOf_zeros, Nat.zero_mul, Nat.zero_add]

theorem numberOf_digit {d : Nat} (small : d < 10) : numberOf [d.digitChar] = d := by
  simpa [numberOf, Numeral.digitsNumber, digitValue] using Nat.toNat_digitChar_sub_48_of_lt_ten small

theorem numberOf_toDigits (n : Nat) : numberOf (Nat.toDigits 10 n) = n := by
  induction n using Nat.strong_induction_on with
  | h n ih =>
    rw [Nat.toDigits_eq_if (by decide)]
    split
    · rename_i small
      exact numberOf_digit small
    · rw [numberOf_append, ih (n / 10) (by omega), numberOf_digit (Nat.mod_lt n (by decide))]
      exact Nat.div_add_mod' n 10

theorem allDigits_toDigits (n : Nat) : AllDigits (Nat.toDigits 10 n) :=
  ⟨Nat.toDigits_ne_nil, fun _ member => Nat.isDigit_of_mem_toDigits (by decide) (by decide) member⟩

-- Digits of which the first is no zero.
structure Leads (ds : List Char) : Prop extends AllDigits ds where
  lead : ds.head? ≠ some '0'

theorem Leads.isWhole (leads : Leads ds) : IsWhole ds :=
  ⟨leads.toAllDigits, fun zero => absurd zero leads.lead⟩

theorem digitChar_ne_zero : ∀ n < 10, n ≠ 0 → n.digitChar ≠ '0' := by decide

theorem leads_toDigits {n : Nat} (positive : 0 < n) : Leads (Nat.toDigits 10 n) := by
  refine ⟨allDigits_toDigits n, ?_⟩
  induction n using Nat.strong_induction_on with
  | h n ih =>
    rw [Nat.toDigits_eq_if (by decide)]
    split
    · rename_i small
      simpa using digitChar_ne_zero n small (Nat.ne_of_gt positive)
    · rename_i large
      have rest := ih (n / 10) (by omega) (by omega)
      rw [List.head?_append_of_ne_nil _ Nat.toDigits_ne_nil]
      exact rest

theorem isWhole_toDigits (n : Nat) : IsWhole (Nat.toDigits 10 n) := by
  rcases Nat.eq_zero_or_pos n with rfl | positive
  · exact ⟨allDigits_toDigits 0, fun _ => rfl⟩
  · exact (leads_toDigits positive).isWhole

theorem isWhole_zero : IsWhole ['0'] := isWhole_toDigits 0

theorem IsUnsigned.negative_eq (unsigned : IsUnsigned cs n) : n.negative = false := by
  cases unsigned
  rfl

theorem IsWhole.isUnsigned (isWhole : IsWhole cs) :
    IsUnsigned cs ⟨false, cs.map digitValue, [], none⟩ := by
  have unsigned := IsUnsigned.parts isWhole .missing .missing
  rwa [List.append_nil, List.append_nil] at unsigned

theorem natRepr_isNumeral (n : Nat) :
    ∃ x, IsNumeral (Nat.repr n).toList x ∧ x.toWhole? = some (n : Int) := by
  rw [Nat.toList_repr]
  refine ⟨_, .positive (isWhole_toDigits n).isUnsigned, ?_⟩
  exact congrArg (fun k : Nat => some (k : Int)) (numberOf_toDigits n)

theorem intRepr_isNumeral (z : Int) :
    ∃ x, IsNumeral (Int.repr z).toList x ∧ x.toWhole? = some z := by
  cases z with
  | ofNat n => exact natRepr_isNumeral n
  | negSucc n =>
    rw [Int.repr, String.toList_append, Nat.toList_repr]
    refine ⟨_, .negative (isWhole_toDigits (n + 1)).isUnsigned, ?_⟩
    exact congrArg (fun k : Nat => some (-(k : Int))) (numberOf_toDigits (n + 1))

theorem isDigit_zeros (k : Nat) : ∀ c ∈ List.replicate k '0', c.isDigit = true := by
  intro c member
  rw [(List.mem_replicate.mp member).2]
  rfl

theorem Leads.append (leads : Leads ds) (others : ∀ c ∈ cs, c.isDigit = true) : Leads (ds ++ cs) := by
  refine ⟨⟨?_, List.forall_mem_append.mpr ⟨leads.digits, others⟩⟩, ?_⟩
  · exact List.append_ne_nil_of_left_ne_nil leads.present cs
  · rw [List.head?_append_of_ne_nil _ leads.present]
    exact leads.lead

theorem Leads.of_append (cs : List Char) (leads : Leads (ds ++ cs)) (present : ds ≠ []) :
    Leads ds := by
  refine ⟨⟨present, (List.forall_mem_append.mp leads.digits).1⟩, ?_⟩
  rw [← List.head?_append_of_ne_nil ds present]
  exact leads.lead

def strip (ds : List Char) : List Char := (ds.reverse.dropWhile (· = '0')).reverse

theorem strip_append (ds : List Char) :
    strip ds ++ List.replicate (ds.length - (strip ds).length) '0' = ds := by
  have parts := List.takeWhile_append_dropWhile (p := (· = '0')) (l := ds.reverse)
  have zeros : ds.reverse.takeWhile (· = '0') =
      List.replicate (ds.reverse.takeWhile (· = '0')).length '0' :=
    List.eq_replicate_length.mpr fun c member => by simpa using List.mem_takeWhile_imp member
  have length := congrArg List.length parts
  rw [List.length_append, List.length_reverse] at length
  rw [strip, List.length_reverse, ← length, Nat.add_sub_cancel, ← List.reverse_replicate, ← zeros,
    ← List.reverse_append, parts, List.reverse_reverse]

theorem numberOf_strip (ds : List Char) :
    numberOf (strip ds) * 10 ^ (ds.length - (strip ds).length) = numberOf ds := by
  rw [← numberOf_append_zeros, strip_append]

theorem Leads.strip (leads : Leads ds) : Leads (strip ds) := by
  have parts := strip_append ds
  refine .of_append _ (parts.symm ▸ leads) ?_
  intro none
  rw [none, List.nil_append] at parts
  obtain ⟨c, tail, rfl, _⟩ := leads.exists_cons
  have first : c = '0' := (List.eq_replicate_iff.mp parts.symm).2 c List.mem_cons_self
  exact leads.lead (by rw [first]; rfl)

theorem size_parts (whole fraction : List Char) (exponent : Option Int) :
    Numeral.size ⟨false, whole.map digitValue, fraction.map digitValue, exponent⟩ =
      numberOf (whole ++ fraction) * 10 ^ (exponent.getD 0 - fraction.length) := by
  simp only [Numeral.size, numberOf, List.map_append, List.length_map]

-- The text is a numeral of these digits, with the point after `place` of them.
def LaysOut (text ds : List Char) (place : Int) : Prop :=
  ∃ n, IsUnsigned text n ∧ n.size = numberOf ds * 10 ^ (place - ds.length)

theorem Leads.split (leads : Leads ds) {k : Nat} (some : 0 < k) (others : k < ds.length) :
    IsWhole (ds.take k) ∧ AllDigits (ds.drop k) := by
  constructor
  · refine (Leads.of_append (ds.drop k) ?_ ?_).isWhole
    · rwa [List.take_append_drop]
    · exact List.ne_nil_of_length_pos (by rw [List.length_take]; omega)
  · refine ⟨?_, fun d member => leads.digits d (List.mem_of_mem_drop member)⟩
    exact List.ne_nil_of_length_pos (by rw [List.length_drop]; omega)

theorem Leads.laysOut_split (leads : Leads ds) {k : Nat} (some : 0 < k) (others : k < ds.length)
    (isPower : IsPower power exponent) :
    LaysOut (ds.take k ++ ('.' :: ds.drop k ++ power)) ds (k + exponent.getD 0) := by
  obtain ⟨whole, fraction⟩ := leads.split some others
  refine ⟨_, .parts whole (.point fraction) isPower, ?_⟩
  rw [size_parts, List.take_append_drop, List.length_drop, Nat.cast_sub (Nat.le_of_lt others)]
  congr 2
  ring

theorem isPower_signed (plusSign : Bool) (power : Int) :
    IsPower ('e' :: (if power < 0 then ['-'] else if plusSign then ['+'] else []) ++
      Nat.toDigits 10 power.natAbs) (some power) := by
  have all := allDigits_toDigits power.natAbs
  have written := numberOf_toDigits power.natAbs
  split
  · have minus := IsPower.minus all
    rwa [written, show -(power.natAbs : Int) = power by omega] at minus
  · have same : (power.natAbs : Int) = power := by omega
    cases plusSign with
    | true =>
      have plus := IsPower.plus all
      rwa [written, same] at plus
    | false =>
      have bare := IsPower.bare all
      rwa [written, same] at bare

theorem Leads.laysOut_small (leads : Leads ds) (low : place ≤ 0) :
    LaysOut ('0' :: '.' :: List.replicate (-place).toNat '0' ++ ds) ds place := by
  have others : AllDigits (List.replicate (-place).toNat '0' ++ ds) :=
    ⟨List.append_ne_nil_of_right_ne_nil _ leads.present,
      List.forall_mem_append.mpr ⟨isDigit_zeros _, leads.digits⟩⟩
  have unsigned := IsUnsigned.parts isWhole_zero (.point others) .missing
  rw [List.append_nil] at unsigned
  refine ⟨_, unsigned, ?_⟩
  have digits : numberOf (['0'] ++ (List.replicate (-place).toNat '0' ++ ds)) = numberOf ds := by
    rw [← List.replicate_one, numberOf_zeros_append, numberOf_zeros_append]
  rw [size_parts, digits, List.length_append, List.length_replicate]
  congr 2
  rw [Option.getD_none, Nat.cast_add, Int.toNat_of_nonneg (Int.neg_nonneg.mpr low)]
  ring

theorem Leads.laysOut_whole (leads : Leads ds) (keepPoint : Bool) {k : Nat} (all : ds.length ≤ k) :
    LaysOut (ds ++ List.replicate (k - ds.length) '0' ++ (if keepPoint then ['.', '0'] else []))
      ds k := by
  have isWhole := (leads.append (isDigit_zeros (k - ds.length))).isWhole
  cases keepPoint with
  | true =>
    refine ⟨_, .parts isWhole (.point isWhole_zero.toAllDigits) .missing, ?_⟩
    rw [size_parts, ← List.replicate_one, numberOf_append_zeros, numberOf_append_zeros,
      ← Nat.cast_sub all, zpow_natCast]
    simp
  | false =>
    refine ⟨_, .parts isWhole .missing .missing, ?_⟩
    have size := size_parts (ds ++ List.replicate (k - ds.length) '0') [] none
    rw [List.append_nil, numberOf_append_zeros, List.map_nil] at size
    rw [size, ← Nat.cast_sub all, zpow_natCast]
    simp

theorem Leads.laysOut_scientific (leads : Leads ds) (plusSign : Bool) (place : Int) :
    LaysOut ((if ds.length ≤ 1 then ds else ds.take 1 ++ '.' :: ds.drop 1) ++
      ('e' :: (if place - 1 < 0 then ['-'] else if plusSign then ['+'] else []) ++
        Nat.toDigits 10 (place - 1).natAbs)) ds place := by
  have isPower := isPower_signed plusSign (place - 1)
  split
  · rename_i short
    have single : ds.length = 1 := Nat.le_antisymm short (List.length_pos_iff.mpr leads.present)
    have unsigned := IsUnsigned.parts leads.isWhole .missing isPower
    rw [List.nil_append] at unsigned
    refine ⟨_, unsigned, ?_⟩
    have size := size_parts ds [] (some (place - 1))
    rw [List.append_nil, List.map_nil] at size
    rw [size, single]
    simp
  · have laid := leads.laysOut_split Nat.one_pos (by omega) isPower
    rw [List.append_assoc, List.cons_append]
    simpa using laid

theorem Leads.layOut (leads : Leads ds) (style : DecimalStyle) (place : Int) :
    LaysOut (style.layOut ds place) ds place := by
  unfold DecimalStyle.layOut
  dsimp only
  split
  · split
    · exact leads.laysOut_small ‹_›
    · have same : (place.toNat : Int) = place := by omega
      split
      · have laid := leads.laysOut_whole style.keepPoint ‹_›
        rwa [same] at laid
      · have laid := leads.laysOut_split (k := place.toNat) (by omega) (by omega) .missing
        rwa [same, List.append_nil, Option.getD_none, Int.add_zero] at laid
  · rw [List.append_assoc]
    exact leads.laysOut_scientific style.plusSign place

-- The digits of a number are those of a decimal that reads back as it.
theorem digits_spec (tie : Tie) {w : Nat} (nonzero : w ≠ 0) :
    ∃ count power, Shortest.ReadsBack w power count ∧ Leads (Shortest.digits tie w).1 ∧
      (numberOf (Shortest.digits tie w).1 : ℚ) * 10 ^ (Shortest.digits tie w).2 =
        count * 10 ^ power := by
  obtain ⟨count, power, readsBack, found⟩ := Shortest.digits_found tie nonzero
  have leads := (leads_toDigits (readsBack.pos nonzero)).strip
  have back := numberOf_strip (Nat.toDigits 10 count)
  have same : Shortest.digits tie w = (strip (Nat.toDigits 10 count),
      power + ((Nat.toDigits 10 count).length - (strip (Nat.toDigits 10 count)).length : Nat)) := by
    simp only [Shortest.digits, found, Option.getD_some, strip]
  rw [numberOf_toDigits] at back
  refine ⟨count, power, readsBack, ?_, ?_⟩
  · rwa [same]
  · rw [same, Int.add_comm, zpow_add₀ (by decide), zpow_natCast, ← mul_assoc]
    exact_mod_cast congrArg (fun k : Nat => (k : ℚ) * 10 ^ power) back

theorem natAbs_num_mul {q : ℚ} {count : Nat} {power : Int} (same : q = count * 10 ^ power) :
    q.num.natAbs * 10 ^ (-power).toNat = count * 10 ^ power.toNat * q.den := by
  have nonneg : 0 ≤ q := by
    rw [same]
    positivity
  have natural : (q.num.natAbs : ℚ) = q * q.den := by
    rw [Nat.cast_natAbs, abs_of_nonneg (Rat.num_nonneg.mpr nonneg), Rat.mul_den_eq_num]
  have parts : (10 : ℚ) ^ power * 10 ^ (-power).toNat = 10 ^ power.toNat := by
    rw [← zpow_natCast, ← zpow_natCast, ← zpow_add₀ (by decide)]
    congr 1
    omega
  have exact : (q.num.natAbs : ℚ) * 10 ^ (-power).toNat = count * 10 ^ power.toNat * q.den := by
    calc (q.num.natAbs : ℚ) * 10 ^ (-power).toNat
        = count * (10 ^ power * 10 ^ (-power).toNat) * q.den := by rw [natural, same]; ring
      _ = count * 10 ^ power.toNat * q.den := by rw [parts]
  exact_mod_cast exact

theorem nearestWord_size {q : ℚ} {w count : Nat} {power : Int} (nonzero : w ≠ 0)
    (readsBack : Shortest.ReadsBack w power count) (same : q = count * 10 ^ power) :
    nearestWord (q.num.natAbs * 2 ^ 149) q.den = w := by
  rw [← readsBack.nearestWord_eq nonzero]
  apply nearestWord_congr q.den_pos (Nat.pow_pos (by decide))
  rw [Nat.mul_right_comm, natAbs_num_mul same, Nat.mul_right_comm]

theorem body_isUnsigned (style : DecimalStyle) (x : Single) :
    ∃ n, IsUnsigned (if x.isZero then '0' :: (if style.keepPoint then ['.', '0'] else [])
        else style.layOut (Shortest.digits style.tie x.magnitude).1
          ((Shortest.digits style.tie x.magnitude).1.length +
            (Shortest.digits style.tie x.magnitude).2)) n ∧
      nearestWord (n.size.num.natAbs * 2 ^ 149) n.size.den = x.magnitude := by
  split
  · rename_i zero
    rw [Single.isZero_iff.mp zero]
    cases style.keepPoint with
    | true =>
      refine ⟨_, .parts isWhole_zero (.point isWhole_zero.toAllDigits) .missing, ?_⟩
      rw [size_parts, show numberOf (['0'] ++ ['0']) = 0 by rfl]
      simp
    | false =>
      refine ⟨_, isWhole_zero.isUnsigned, ?_⟩
      have size := size_parts ['0'] [] none
      rw [show numberOf (['0'] ++ []) = 0 by rfl, List.map_nil] at size
      rw [size]
      simp
  · rename_i nonzero
    have some : x.magnitude ≠ 0 := Single.isZero_eq_false_iff.mp (Bool.eq_false_iff.mpr nonzero)
    obtain ⟨count, power, readsBack, leads, value⟩ := digits_spec style.tie some
    obtain ⟨n, unsigned, size⟩ := leads.layOut style
      ((Shortest.digits style.tie x.magnitude).1.length + (Shortest.digits style.tie x.magnitude).2)
    refine ⟨n, unsigned, nearestWord_size some readsBack ?_⟩
    rw [size, add_sub_cancel_left, value]

theorem nearest_eq {x : Single} (finite : x.isFinite = true) {n : Numeral}
    (sign : n.negative = x.negative)
    (word : nearestWord (n.size.num.natAbs * 2 ^ 149) n.size.den = x.magnitude) : n.nearest = x := by
  refine Single.eq_of_parts sign ?_
  rw [Numeral.nearest, Single.magnitude_ofQuanta n.size.den_pos, Nat.pow_zero, Nat.mul_one, word]
  exact Nat.min_eq_left (Nat.le_of_lt (Single.isFinite_iff_lt.mp finite))

-- The shortest text of a finite number is a numeral that the number is the nearest one to.
theorem text_isNumeral (style : DecimalStyle) {x : Single} (finite : x.isFinite = true) :
    ∃ n, IsNumeral (x.text style).toList n ∧ n.nearest = x := by
  obtain ⟨number, bounded⟩ := Single.isFinite_iff.mp finite
  obtain ⟨n, unsigned, word⟩ := body_isUnsigned style x
  simp only [Single.text, number, bounded, Bool.false_eq_true, if_false, String.toList_ofList]
  cases sign : x.negative with
  | true => exact ⟨_, .negative unsigned, nearest_eq finite sign.symm word⟩
  | false =>
    exact ⟨n, .positive unsigned, nearest_eq finite (unsigned.negative_eq.trans sign.symm) word⟩

end Json

end ScanAlign
