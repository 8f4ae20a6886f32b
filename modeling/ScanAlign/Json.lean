import ScanAlign.Number.Decimal

namespace ScanAlign

namespace Json

inductive Layout where
  | leaf (text : String)
  | array (items : List Layout)
  | object (fields : List (String × Layout))

namespace Layout

def newline (level : Nat) : String := "\n" ++ "".pushn ' ' (2 * level)

def bracket (opening closing : String) (level : Nat) (texts : List String) : String :=
  if texts.isEmpty then opening ++ closing
  else
    opening ++ newline (level + 1) ++ (("," ++ newline (level + 1)).intercalate texts)
      ++ newline level ++ closing

mutual

def textAt (level : Nat) : Layout → String
  | leaf text => text
  | array items => bracket "[" "]" level (textsAt level items)
  | object fields => bracket "\x7b" "\x7d" level (fieldsAt level fields)

def textsAt (level : Nat) : List Layout → List String
  | [] => []
  | item :: rest => textAt (level + 1) item :: textsAt level rest

def fieldsAt (level : Nat) : List (String × Layout) → List String
  | [] => []
  | (name, value) :: rest =>
    ("\"" ++ name ++ "\": " ++ textAt (level + 1) value) :: fieldsAt level rest

end

-- The whole text. Field names need no escapes.
def text (l : Layout) : String := textAt 0 l

end Layout

inductive Token where
  | openArray
  | closeArray
  | openObject
  | closeObject
  | comma
  | colon
  | null
  | bool (value : Bool)
  | numeral (value : Numeral)
  -- `none` where escapes do not make up Unicode text.
  | string (text : Option String)
deriving DecidableEq

namespace Token

def isBlank (c : Char) : Bool := c = ' ' || c = '\n' || c = '\t' || c = '\r'

def digitValue (c : Char) : Nat := c.toNat - '0'.toNat

def digits (cs : List Char) : List Nat × List Char :=
  ((cs.takeWhile Char.isDigit).map digitValue, cs.dropWhile Char.isDigit)

def fraction? : List Char → Option (List Nat × List Char)
  | '.' :: rest =>
    match digits rest with
    | ([], _) => none
    | found => some found
  | rest => some ([], rest)

def power? : List Char → Option (Option Int × List Char)
  | c :: rest =>
    if c = 'e' || c = 'E' then
      let (negative, rest) :=
        match rest with
        | '+' :: rest => (false, rest)
        | '-' :: rest => (true, rest)
        | rest => (false, rest)
      match digits rest with
      | ([], _) => none
      | (found, rest) =>
        let size : Nat := found.foldl (fun n d => 10 * n + d) 0
        some (some (if negative then -(size : Int) else size), rest)
    else some (none, c :: rest)
  | [] => some (none, [])

-- The numeral at the front of a text. Its whole part has no needless leading zero.
def numeral? (cs : List Char) : Option (Numeral × List Char) := do
  let (negative, cs) :=
    match cs with
    | '-' :: rest => (true, rest)
    | cs => (false, cs)
  let (whole, cs) := digits cs
  if whole.isEmpty || (whole.head? == some 0 && whole.length != 1) then none
  let (fraction, cs) ← fraction? cs
  let (power, cs) ← power? cs
  return (⟨negative, whole, fraction, power⟩, cs)

def hexDigit? (c : Char) : Option Nat :=
  if '0' ≤ c ∧ c ≤ '9' then some (c.toNat - '0'.toNat)
  else if 'a' ≤ c ∧ c ≤ 'f' then some (c.toNat - 'a'.toNat + 10)
  else if 'A' ≤ c ∧ c ≤ 'F' then some (c.toNat - 'A'.toNat + 10)
  else none

def hexCode? (a b c d : Char) : Option Nat := do
  let a ← hexDigit? a
  let b ← hexDigit? b
  let c ← hexDigit? c
  let d ← hexDigit? d
  return ((a * 16 + b) * 16 + c) * 16 + d

def escape? : Char → Option Char
  | '"' => some '"'
  | '\\' => some '\\'
  | '/' => some '/'
  | 'b' => some '\x08'
  | 'f' => some '\x0c'
  | 'n' => some '\n'
  | 'r' => some '\r'
  | 't' => some '\t'
  | _ => none

-- The codes of a string up to its closing quote, and what follows it. Control characters have to be
-- escaped.
def stringCodes? : List Char → Option (List Nat × List Char)
  | [] => none
  | '"' :: rest => some ([], rest)
  | '\\' :: 'u' :: a :: b :: c :: d :: rest => do
    let code ← hexCode? a b c d
    let (codes, rest) ← stringCodes? rest
    return (code :: codes, rest)
  | '\\' :: c :: rest => do
    let escaped ← escape? c
    let (codes, rest) ← stringCodes? rest
    return (escaped.toNat :: codes, rest)
  | c :: rest =>
    if c = '\\' || c.toNat < 0x20 then none
    else do
      let (codes, rest) ← stringCodes? rest
      return (c.toNat :: codes, rest)

-- The text of a list of codes. A high surrogate needs a low one after it, and the two make up one
-- character; any other surrogate stands for nothing.
def text? : List Nat → Option (List Char)
  | [] => some []
  | high :: rest =>
    if high < 0xd800 || 0xdfff < high then (text? rest).map (Char.ofNat high :: ·)
    else if high < 0xdc00 then
      match rest with
      | low :: rest =>
        if 0xdc00 ≤ low && low ≤ 0xdfff then
          (text? rest).map (Char.ofNat (0x10000 + (high - 0xd800) * 0x400 + (low - 0xdc00)) :: ·)
        else none
      | [] => none
    else none

def next? : List Char → Option (Token × List Char)
  | '[' :: rest => some (openArray, rest)
  | ']' :: rest => some (closeArray, rest)
  | '\x7b' :: rest => some (openObject, rest)
  | '\x7d' :: rest => some (closeObject, rest)
  | ',' :: rest => some (comma, rest)
  | ':' :: rest => some (colon, rest)
  | 'n' :: 'u' :: 'l' :: 'l' :: rest => some (null, rest)
  | 't' :: 'r' :: 'u' :: 'e' :: rest => some (bool true, rest)
  | 'f' :: 'a' :: 'l' :: 's' :: 'e' :: rest => some (bool false, rest)
  | '"' :: rest => do
    let (codes, rest) ← stringCodes? rest
    return (string ((text? codes).map String.ofList), rest)
  | cs => do
    let (value, rest) ← numeral? cs
    return (numeral value, rest)

def scan : Nat → List Char → Option (List Token)
  | 0, cs => if cs.isEmpty then some [] else none
  | steps + 1, cs =>
    match cs.dropWhile isBlank with
    | [] => some []
    | c :: rest => do
      let (token, rest) ← next? (c :: rest)
      let tokens ← scan steps rest
      return token :: tokens

def ofText? (text : String) : Option (List Token) :=
  let cs := text.toList
  scan cs.length cs

end Token

end Json

inductive Json where
  | null
  | bool (value : Bool)
  | number (value : Numeral)
  | string (text : Option String)
  | array (items : List Json)
  | object (fields : List (Option String × Json))

namespace Json

mutual

def value? : Nat → List Token → Option (Json × List Token)
  | 0, _ => none
  | steps + 1, tokens =>
    match tokens with
    | .null :: rest => some (.null, rest)
    | .bool b :: rest => some (.bool b, rest)
    | .numeral n :: rest => some (.number n, rest)
    | .string s :: rest => some (.string s, rest)
    | .openArray :: .closeArray :: rest => some (.array [], rest)
    | .openArray :: rest => do
      let (items, rest) ← items? steps rest
      return (.array items, rest)
    | .openObject :: .closeObject :: rest => some (.object [], rest)
    | .openObject :: rest => do
      let (fields, rest) ← fields? steps rest
      return (.object fields, rest)
    | _ => none

def items? : Nat → List Token → Option (List Json × List Token)
  | 0, _ => none
  | steps + 1, tokens => do
    let (item, rest) ← value? steps tokens
    match rest with
    | .closeArray :: rest => return ([item], rest)
    | .comma :: rest =>
      let (items, rest) ← items? steps rest
      return (item :: items, rest)
    | _ => none

def fields? : Nat → List Token → Option (List (Option String × Json) × List Token)
  | 0, _ => none
  | steps + 1, .string key :: .colon :: rest => do
    let (value, rest) ← value? steps rest
    match rest with
    | .closeObject :: rest => return ([(key, value)], rest)
    | .comma :: rest =>
      let (fields, rest) ← fields? steps rest
      return ((key, value) :: fields, rest)
    | _ => none
  | _ + 1, _ => none

end

def ofText? (text : String) : Option Json := do
  let tokens ← Token.ofText? text
  let (value, rest) ← value? (tokens.length + 1) tokens
  if rest.isEmpty then some value else none

-- The named fields of a record. A record is an object, in which unknown fields do not count and
-- known ones stand at most once, or an array of the first fields in their order.
def record? (names : List String) : Json → Option (List (String × Json))
  | object fields => do
    let named ← fields.mapM fun (key, value) => key.map (·, value)
    let known := named.filter fun (key, _) => names.contains key
    if (known.map (·.1)).Nodup then some known else none
  | array items => if items.length ≤ names.length then some (names.zip items) else none
  | _ => none

def field? (fields : List (String × Json)) (name : String) (standard : α)
    (read : Json → Option α) : Option α :=
  match fields.lookup name with
  | none => some standard
  | some value => read value

def toSingle? : Json → Option Single
  | number n => n.toSingle?
  | _ => none

def toCount? : Json → Option Nat
  | number n => n.toCount?
  | _ => none

def toBool? : Json → Option Bool
  | bool b => some b
  | _ => none

def toText? : Json → Option String
  | string s => s
  | _ => none

def toList? (read : Json → Option α) : Json → Option (List α)
  | array items => items.mapM read
  | _ => none

def toPair? (read : Json → Option α) : Json → Option (α × α)
  | array [a, b] => do
    let a ← read a
    let b ← read b
    return (a, b)
  | _ => none

end Json

end ScanAlign
