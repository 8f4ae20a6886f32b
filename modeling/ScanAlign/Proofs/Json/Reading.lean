import Mathlib.Data.List.Forall2
import ScanAlign.Json

namespace ScanAlign

namespace Json

open Layout Token

-- The words of a text, with blanks anywhere between them.
inductive Words : List Char → List Token → Prop
  | nil : Words [] []
  | blank {c : Char} {cs : List Char} {tokens : List Token} (unseen : isBlank c = true)
      (others : Words cs tokens) : Words (c :: cs) tokens
  | word {c : Char} {cs rest : List Char} {token : Token} {tokens : List Token}
      (seen : isBlank c = false) (first : next? (c :: cs) = some (token, rest))
      (shorter : rest.length ≤ cs.length) (others : Words rest tokens) :
      Words (c :: cs) (token :: tokens)

theorem Words.scan_eq {cs : List Char} {tokens : List Token} (words : Words cs tokens) :
    ∀ steps, cs.length ≤ steps → scan steps cs = some tokens := by
  induction words with
  | nil =>
    intro steps _
    cases steps <;> rfl
  | blank unseen _ ih =>
    intro steps enough
    cases steps with
    | zero => cases enough
    | succ steps =>
      have same := ih (steps + 1) (Nat.le_of_succ_le enough)
      simpa only [scan, List.dropWhile_cons, unseen, if_true] using same
  | word seen first shorter _ ih =>
    intro steps enough
    cases steps with
    | zero => cases enough
    | succ steps =>
      have others := ih steps (Nat.le_trans shorter (Nat.le_of_succ_le_succ enough))
      simp [scan, seen, first, others]

theorem Words.ofText?_eq {text : String} {tokens : List Token} (words : Words text.toList tokens) :
    Token.ofText? text = some tokens := words.scan_eq _ (Nat.le_refl _)

-- Where a numeral ends: at the end of the text or before a character that it cannot go on with.
def Ends (rest : List Char) : Prop :=
  ∀ c ∈ rest.head?, c.isDigit = false ∧ c ≠ '.' ∧ c ≠ 'e' ∧ c ≠ 'E'

theorem ends_nil : Ends [] := by
  intro c member
  cases member

theorem ends_cons {c : Char} {cs : List Char}
    (other : c.isDigit = false ∧ c ≠ '.' ∧ c ≠ 'e' ∧ c ≠ 'E') : Ends (c :: cs) := by
  intro d member
  cases member
  exact other

-- A text that is one word wherever it ends.
structure IsWord (cs : List Char) (token : Token) : Prop where
  visible : ∃ c tail, cs = c :: tail ∧ isBlank c = false
  next : ∀ rest, Ends rest → next? (cs ++ rest) = some (token, rest)

theorem IsWord.words {cs rest : List Char} {token : Token} {tokens : List Token}
    (word : IsWord cs token) (ends : Ends rest) (others : Words rest tokens) :
    Words (cs ++ rest) (token :: tokens) := by
  obtain ⟨c, tail, rfl, seen⟩ := word.visible
  have first := word.next rest ends
  refine .word seen first ?_ others
  change rest.length ≤ (tail ++ rest).length
  simp

theorem words_newline (level : Nat) {rest : List Char} {tokens : List Token}
    (others : Words rest tokens) : Words ((newline level).toList ++ rest) tokens := by
  have blanks (n : Nat) : ("".pushn ' ' n).toList = List.replicate n ' ' := by
    induction n with
    | zero => rfl
    | succ n ih =>
      rw [List.replicate_succ', ← ih]
      exact String.toList_push ' '
  rw [newline, String.toList_append, blanks, List.append_assoc]
  refine .blank rfl ?_
  generalize 2 * level = n
  induction n with
  | zero => exact others
  | succ n ih => exact .blank rfl ih

-- A name without characters that would have to be escaped.
def Plain (name : String) : Prop :=
  ∀ c ∈ name.toList, c ≠ '"' ∧ c ≠ '\\' ∧ 0x20 ≤ c.toNat

-- Decided on the characters of the name, not on all characters.
instance (name : String) : Decidable (Plain name) := List.decidableBAll _ _

theorem stringCodes?_plain {cs : List Char} (plain : ∀ c ∈ cs, c ≠ '"' ∧ c ≠ '\\' ∧ 0x20 ≤ c.toNat)
    (rest : List Char) :
    stringCodes? (cs ++ '"' :: rest) = some (cs.map Char.toNat, rest) := by
  induction cs with
  | nil => rfl
  | cons c cs ih =>
    obtain ⟨⟨quote, slash, visible⟩, others⟩ := List.forall_mem_cons.mp plain
    have clean : (decide (c = '\\') || decide (c.toNat < 0x20)) = false := by
      simp [slash, Nat.not_lt.mpr visible]
    rw [List.cons_append, stringCodes?.eq_5 c _ quote (fun _ _ _ _ _ same => absurd same slash)
      (fun _ _ same => absurd same slash), clean, ih others]
    rfl

theorem text?_codes (cs : List Char) : text? (cs.map Char.toNat) = some cs := by
  induction cs with
  | nil => rfl
  | cons c cs ih =>
    have valid : c.toNat < 0xd800 ∨ 0xdfff < c.toNat := by
      rcases c.valid with low | high
      · exact .inl low
      · exact .inr high.1
    rw [List.map_cons]
    unfold text?
    rw [if_pos (by simpa using valid), ih, Char.ofNat_toNat]
    rfl

theorem next?_name {name : String} (plain : Plain name) (rest : List Char) :
    next? ('"' :: (name.toList ++ '"' :: rest)) = some (.string (some name), rest) := by
  simp only [next?, stringCodes?_plain plain, bind, Option.bind, text?_codes, Option.map_some,
    String.ofList_toList]
  rfl

-- The text has these words wherever a numeral may end after it.
def Spells (text : String) (words : List Token) : Prop :=
  ∀ rest more, Ends rest → Words rest more → Words (text.toList ++ rest) (words ++ more)

theorem IsWord.spells {text : String} {token : Token} (word : IsWord text.toList token) :
    Spells text [token] := fun _ _ ends others => word.words ends others

theorem ends_newline (level : Nat) (rest : List Char) : Ends ((newline level).toList ++ rest) := by
  rw [newline, String.toList_append]
  exact ends_cons (by decide)

theorem words_separator (level : Nat) {rest : List Char} {tokens : List Token}
    (others : Words rest tokens) : Words (("," ++ newline level).toList ++ rest) (.comma :: tokens) := by
  rw [String.toList_append, List.append_assoc]
  exact .word rfl rfl (Nat.le_refl _) (words_newline level others)

theorem ends_separator (level : Nat) (rest : List Char) :
    Ends (("," ++ newline level).toList ++ rest) := by
  rw [String.toList_append, List.append_assoc]
  exact ends_cons (by decide)

theorem spells_joined (level : Nat) {texts : List String} {lists : List (List Token)}
    (spelled : List.Forall₂ Spells texts lists) :
    Spells (("," ++ newline level).intercalate texts) ([Token.comma].intercalate lists) := by
  induction spelled with
  | nil => exact fun _ _ _ others => others
  | @cons text words texts lists first others ih =>
    cases others with
    | nil =>
      rw [String.intercalate_singleton, List.intercalate_singleton]
      exact first
    | cons second others =>
      intro rest more ends follow
      rw [String.intercalate_cons_of_ne_nil (List.cons_ne_nil _ _), List.intercalate_cons_cons,
        String.toList_append, String.toList_append]
      simp only [List.append_assoc]
      exact first _ _ (ends_separator level _) (words_separator level (ih rest more ends follow))

def IsSign (text : String) (token : Token) : Prop :=
  ∃ c, text.toList = [c] ∧ isBlank c = false ∧ ∀ cs, next? (c :: cs) = some (token, cs)

theorem openArray_isSign : IsSign "[" .openArray := ⟨'[', rfl, rfl, fun _ => rfl⟩

theorem closeArray_isSign : IsSign "]" .closeArray := ⟨']', rfl, rfl, fun _ => rfl⟩

theorem openObject_isSign : IsSign "\x7b" .openObject := ⟨'\x7b', rfl, rfl, fun _ => rfl⟩

theorem closeObject_isSign : IsSign "\x7d" .closeObject := ⟨'\x7d', rfl, rfl, fun _ => rfl⟩

theorem IsSign.words {text : String} {token : Token} (sign : IsSign text token) {rest : List Char}
    {tokens : List Token} (others : Words rest tokens) :
    Words (text.toList ++ rest) (token :: tokens) := by
  obtain ⟨c, single, seen, next⟩ := sign
  rw [single]
  exact .word seen (next rest) (Nat.le_refl _) others

theorem spells_bracket {opening closing : String} {openToken closeToken : Token} (level : Nat)
    (opens : IsSign opening openToken) (closes : IsSign closing closeToken) {texts : List String}
    {lists : List (List Token)} (spelled : List.Forall₂ Spells texts lists) :
    Spells (bracket opening closing level texts)
      (openToken :: ([Token.comma].intercalate lists ++ [closeToken])) := by
  intro rest more ends follow
  have closed := closes.words follow
  unfold bracket
  cases texts with
  | nil =>
    cases spelled
    rw [List.isEmpty_nil, if_pos rfl, String.toList_append, List.append_assoc]
    exact opens.words closed
  | cons text texts =>
    have inner := spells_joined (level + 1) spelled _ _ (ends_newline level _)
      (words_newline level closed)
    rw [List.isEmpty_cons, if_neg Bool.false_ne_true]
    simp only [String.toList_append, List.append_assoc, List.cons_append]
    have opened := opens.words (words_newline (level + 1) inner)
    simpa only [List.append_assoc, List.nil_append] using opened

-- The words make up this value, whatever comes after them.
structure Means (words : List Token) (j : Json) : Prop where
  starts : ∃ token rest, words = token :: rest ∧ token ≠ .closeArray
  reads : ∀ steps rest, words.length ≤ steps → value? steps (words ++ rest) = some (j, rest)

theorem means_word {token : Token} {j : Json} (value : token ≠ .closeArray)
    (reads : ∀ steps rest, value? (steps + 1) (token :: rest) = some (j, rest)) : Means [token] j := by
  refine ⟨⟨token, [], rfl, value⟩, ?_⟩
  intro steps rest enough
  cases steps with
  | zero => cases enough
  | succ steps => exact reads steps rest

theorem items?_joined {lists : List (List Token)} {values : List Json}
    (mean : List.Forall₂ Means lists values) (present : lists ≠ []) :
    ∀ steps rest, ([Token.comma].intercalate lists).length < steps →
      items? steps ([Token.comma].intercalate lists ++ .closeArray :: rest) = some (values, rest) := by
  induction mean with
  | nil => exact absurd rfl present
  | @cons words j lists values first others ih =>
    intro steps rest enough
    cases steps with
    | zero => cases enough
    | succ steps =>
      cases others with
      | nil =>
        rw [List.intercalate_singleton] at enough ⊢
        rw [items?, first.reads steps _ (Nat.le_of_lt_succ enough)]
        rfl
      | cons second others =>
        rw [List.intercalate_cons_cons] at enough ⊢
        simp only [List.length_append, List.length_cons, List.length_nil] at enough
        have later := ih (List.cons_ne_nil _ _) steps rest (by omega)
        simp only [List.append_assoc, List.cons_append, List.nil_append]
        rw [items?, first.reads steps _ (by omega)]
        simp only [bind, Option.bind, later]
        rfl

theorem starts_joined {lists : List (List Token)} {values : List Json}
    (mean : List.Forall₂ Means lists values) (present : lists ≠ []) :
    ∃ token rest, [Token.comma].intercalate lists = token :: rest ∧ token ≠ .closeArray := by
  cases mean with
  | nil => exact absurd rfl present
  | @cons words j lists values first others =>
    obtain ⟨token, tail, rfl, value⟩ := first.starts
    cases others with
    | nil => exact ⟨token, tail, List.intercalate_singleton, value⟩
    | cons second others =>
      rw [List.intercalate_cons_cons]
      exact ⟨token, _, rfl, value⟩

theorem means_array {lists : List (List Token)} {values : List Json}
    (mean : List.Forall₂ Means lists values) :
    Means (.openArray :: ([Token.comma].intercalate lists ++ [.closeArray])) (.array values) := by
  refine ⟨⟨_, _, rfl, by decide⟩, ?_⟩
  intro steps rest enough
  cases steps with
  | zero => cases enough
  | succ steps =>
    by_cases present : lists = []
    · subst present
      cases mean
      rfl
    · obtain ⟨token, tail, joined, value⟩ := starts_joined mean present
      simp only [List.length_cons, List.length_append, List.length_nil] at enough
      have items := items?_joined mean present steps rest (by omega)
      rw [List.cons_append, List.append_assoc, List.singleton_append, value?, items]
      · rfl
      · intro rest same
        rw [joined] at same
        cases same
        exact value rfl

def IsField (words : List Token) (field : Option String × Json) : Prop :=
  ∃ value, words = .string field.1 :: .colon :: value ∧ Means value field.2

theorem fields?_joined {lists : List (List Token)} {fields : List (Option String × Json)}
    (mean : List.Forall₂ IsField lists fields) (present : lists ≠ []) :
    ∀ steps rest, ([Token.comma].intercalate lists).length < steps →
      fields? steps ([Token.comma].intercalate lists ++ .closeObject :: rest) =
        some (fields, rest) := by
  induction mean with
  | nil => exact absurd rfl present
  | @cons words field lists fields first others ih =>
    obtain ⟨value, rfl, means⟩ := first
    intro steps rest enough
    cases steps with
    | zero => cases enough
    | succ steps =>
      cases others with
      | nil =>
        rw [List.intercalate_singleton] at enough ⊢
        simp only [List.length_cons] at enough
        rw [List.cons_append, List.cons_append, fields?, means.reads steps _ (by omega)]
        rfl
      | cons second others =>
        rw [List.intercalate_cons_cons] at enough ⊢
        simp only [List.length_append, List.length_cons, List.length_nil] at enough
        have later := ih (List.cons_ne_nil _ _) steps rest (by omega)
        simp only [List.append_assoc, List.cons_append, List.nil_append]
        rw [fields?, means.reads steps _ (by omega)]
        simp only [bind, Option.bind, later]
        rfl

theorem means_object {lists : List (List Token)} {fields : List (Option String × Json)}
    (mean : List.Forall₂ IsField lists fields) :
    Means (.openObject :: ([Token.comma].intercalate lists ++ [.closeObject])) (.object fields) := by
  refine ⟨⟨_, _, rfl, by decide⟩, ?_⟩
  intro steps rest enough
  cases steps with
  | zero => cases enough
  | succ steps =>
    by_cases present : lists = []
    · subst present
      cases mean
      rfl
    · simp only [List.length_cons, List.length_append, List.length_nil] at enough
      have found := fields?_joined mean present steps rest (by omega)
      rw [List.cons_append, List.append_assoc, List.singleton_append, value?, found]
      · rfl
      · intro rest same
        cases mean with
        | nil => exact present rfl
        | cons first others =>
          obtain ⟨value, rfl, _⟩ := first
          cases others with
          | nil =>
            rw [List.intercalate_singleton] at same
            cases same
          | cons second others =>
            rw [List.intercalate_cons_cons] at same
            cases same

-- Wherever it is laid out, the layout is the text of the value.
def Writes (l : Layout) (j : Json) : Prop :=
  ∃ words, (∀ level, Spells (l.textAt level) words) ∧ Means words j

theorem Writes.ofText?_eq {l : Layout} {j : Json} (writes : Writes l j) :
    Json.ofText? l.text = some j := by
  obtain ⟨words, spells, means⟩ := writes
  have scanned := spells 0 [] [] ends_nil .nil
  rw [List.append_nil, List.append_nil] at scanned
  have read := means.reads (words.length + 1) [] (Nat.le_succ _)
  rw [List.append_nil] at read
  simp only [Json.ofText?, Layout.text, scanned.ofText?_eq, bind, Option.bind, read]
  rfl

theorem writes_word {text : String} {token : Token} {j : Json} (word : IsWord text.toList token)
    (means : Means [token] j) : Writes (.leaf text) j := ⟨[token], fun _ => word.spells, means⟩

theorem writes_null : Writes (.leaf "null") .null := by
  have word : IsWord "null".toList .null := ⟨⟨_, _, rfl, rfl⟩, fun _ _ => rfl⟩
  exact writes_word word (means_word (by simp) fun _ _ => rfl)

theorem writes_numeral {text : String} {n : Numeral} (word : IsWord text.toList (.numeral n)) :
    Writes (.leaf text) (.number n) := writes_word word (means_word (by simp) fun _ _ => rfl)

theorem writes_array {items : List Layout} {values : List Json}
    (all : List.Forall₂ Writes items values) : Writes (.array items) (.array values) := by
  have parts : ∃ lists, (∀ level, List.Forall₂ Spells (textsAt level items) lists) ∧
      List.Forall₂ Means lists values := by
    induction all with
    | nil => exact ⟨[], fun _ => .nil, .nil⟩
    | cons first _ ih =>
      obtain ⟨words, spells, means⟩ := first
      obtain ⟨lists, spelled, mean⟩ := ih
      exact ⟨words :: lists, fun level => .cons (spells (level + 1)) (spelled level),
        .cons means mean⟩
  obtain ⟨lists, spelled, mean⟩ := parts
  refine ⟨_, fun level => ?_, means_array mean⟩
  rw [textAt]
  exact spells_bracket level openArray_isSign closeArray_isSign (spelled level)

theorem spells_field {name text : String} {words : List Token} (plain : Plain name)
    (spells : Spells text words) :
    Spells ("\"" ++ name ++ "\": " ++ text) (.string (some name) :: .colon :: words) := by
  intro rest more ends follow
  have value : Words (' ' :: (text.toList ++ rest)) (words ++ more) :=
    .blank rfl (spells rest more ends follow)
  have colon : Words (':' :: ' ' :: (text.toList ++ rest)) (.colon :: (words ++ more)) :=
    .word rfl rfl (Nat.le_refl _) value
  have named : Words ('"' :: (name.toList ++ '"' :: ':' :: ' ' :: (text.toList ++ rest)))
      (.string (some name) :: .colon :: (words ++ more)) := by
    refine .word rfl (next?_name plain _) ?_ colon
    simp only [List.length_append, List.length_cons]
    omega
  simpa [String.toList_append] using named

def WritesField (field : String × Layout) (value : Option String × Json) : Prop :=
  value.1 = some field.1 ∧ Plain field.1 ∧ Writes field.2 value.2

theorem writes_object {fields : List (String × Layout)} {values : List (Option String × Json)}
    (all : List.Forall₂ WritesField fields values) : Writes (.object fields) (.object values) := by
  have parts : ∃ lists, (∀ level, List.Forall₂ Spells (fieldsAt level fields) lists) ∧
      List.Forall₂ IsField lists values := by
    induction all with
    | nil => exact ⟨[], fun _ => .nil, .nil⟩
    | @cons field value fields values first _ ih =>
      obtain ⟨name, plain, words, spells, means⟩ := first
      obtain ⟨lists, spelled, mean⟩ := ih
      refine ⟨(.string (some field.1) :: .colon :: words) :: lists, fun level => ?_, ?_⟩
      · exact .cons (spells_field plain (spells (level + 1))) (spelled level)
      · exact .cons ⟨words, by rw [name], means⟩ mean
  obtain ⟨lists, spelled, mean⟩ := parts
  refine ⟨_, fun level => ?_, means_object mean⟩
  rw [textAt]
  exact spells_bracket level openObject_isSign closeObject_isSign (spelled level)

end Json

end ScanAlign
