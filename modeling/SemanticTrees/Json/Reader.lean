import SemanticTrees.Json.Value

/-!
Reading JSON. The grammar is strict: no comments, no commas at the end, no raw control characters
in strings, no zeros in front of a number, and nothing but white space after the value.
-/

namespace SemanticTrees.Json

open SemanticTrees.Decimal

def isSpace (c : Char) : Bool := c == ' ' || c == '\n' || c == '\t' || c == '\r'

def skipSpace (text : List Char) : List Char := text.dropWhile isSpace

def hexDigit? (c : Char) : Option Nat :=
  if '0' ≤ c ∧ c ≤ '9' then some (c.toNat - '0'.toNat)
  else if 'a' ≤ c ∧ c ≤ 'f' then some (c.toNat - 'a'.toNat + 10)
  else if 'A' ≤ c ∧ c ≤ 'F' then some (c.toNat - 'A'.toNat + 10)
  else none

def unit? (a b c d : Char) : Option Nat := do
  let a ← hexDigit? a
  let b ← hexDigit? b
  let c ← hexDigit? c
  let d ← hexDigit? d
  return ((a * 16 + b) * 16 + c) * 16 + d

def isHighSurrogate (unit : Nat) : Bool := 0xd800 ≤ unit && unit ≤ 0xdbff

def isLowSurrogate (unit : Nat) : Bool := 0xdc00 ≤ unit && unit ≤ 0xdfff

def ofSurrogates (high low : Nat) : Char :=
  Char.ofNat (0x10000 + (high - 0xd800) * 0x400 + (low - 0xdc00))

def shortEscape? : Char → Option Char
  | '"' => some '"'
  | '\\' => some '\\'
  | '/' => some '/'
  | 'b' => some '\x08'
  | 'f' => some '\x0c'
  | 'n' => some '\n'
  | 'r' => some '\r'
  | 't' => some '\t'
  | _ => none

/-- What one position of a string stands for: a character, or half of a surrogate pair. -/
inductive Piece
  | char (c : Char)
  | half (unit : Nat)
deriving Repr

def Piece.ofUnit (unit : Nat) : Piece :=
  if isHighSurrogate unit || isLowSurrogate unit then .half unit else .char (Char.ofNat unit)

/-- The characters of pieces, given in reverse and collected behind `after`. Two halves that
stand side by side in the right order make one character; a half that stands alone makes none. -/
def joinPieces (after : List Char) : List Piece → Option (List Char)
  | [] => some after
  | .char c :: before => joinPieces (c :: after) before
  | .half low :: .half high :: before =>
    if isLowSurrogate low && isHighSurrogate high then
      joinPieces (ofSurrogates high low :: after) before
    else none
  | .half _ :: _ => none

/-- A string as it is read: its pieces in reverse, and whether there was an escape. -/
structure StringScan where
  reversed : List Piece
  escaped : Bool

namespace StringScan

/-- The text that was scanned, unless a surrogate stood alone. -/
def text? (scan : StringScan) : Option String :=
  (joinPieces [] scan.reversed).map String.ofList

def key (scan : StringScan) : Key := ⟨scan.text?, scan.escaped⟩

def value (scan : StringScan) : Value :=
  match scan.text? with
  | some text => .string text
  | none => .broken

end StringScan

/-- Reads a string behind its opening quotation mark, the pieces before it given in reverse. -/
def readString (before : List Piece) (escaped : Bool) :
    List Char → Option (StringScan × List Char)
  | [] => none
  | '"' :: rest => some (⟨before, escaped⟩, rest)
  | '\\' :: 'u' :: a :: b :: c :: d :: rest =>
    match unit? a b c d with
    | some unit => readString (Piece.ofUnit unit :: before) true rest
    | none => none
  | '\\' :: c :: rest =>
    match shortEscape? c with
    | some c => readString (.char c :: before) true rest
    | none => none
  | c :: rest => if c.toNat < 0x20 then none else readString (.char c :: before) escaped rest

def digit? (c : Char) : Option Nat :=
  if '0' ≤ c ∧ c ≤ '9' then some (c.toNat - '0'.toNat) else none

/-- The digits in front of a text, and the rest. -/
def readDigits (text : List Char) : List Nat × List Char :=
  let isDigit := fun c => (digit? c).isSome
  ((text.takeWhile isDigit).filterMap digit?, text.dropWhile isDigit)

/-- The digits after a point. There must be one. -/
def readFraction : List Char → Option (Option (List Nat) × List Char)
  | '.' :: text =>
    match readDigits text with
    | ([], _) => none
    | (digits, rest) => some (some digits, rest)
  | text => some (none, text)

/-- The power of ten of a number. There must be a digit behind the letter and its sign. -/
def readPower : List Char → Option (Option (Bool × List Nat) × List Char)
  | c :: text =>
    if c = 'e' ∨ c = 'E' then
      let (negative, text) :=
        match text with
        | '-' :: text => (true, text)
        | '+' :: text => (false, text)
        | text => (false, text)
      match readDigits text with
      | ([], _) => none
      | (digits, rest) => some (some (negative, digits), rest)
    else some (none, c :: text)
  | [] => some (none, [])

/-- Reads a number literal. A zero is the only digit in front of the point, or not the first. -/
def readLiteral (text : List Char) : Option (Literal × List Char) := do
  let (negative, text) :=
    match text with
    | '-' :: text => (true, text)
    | text => (false, text)
  let (whole, text) ←
    match readDigits text with
    | ([], _) => none
    | (0 :: _ :: _, _) => none
    | (digits, rest) => some (digits, rest)
  let (fraction, text) ← readFraction text
  let (power, text) ← readPower text
  return ({ negative, whole, fraction, power }, text)

def ofLiteral (literal : Literal) : Value :=
  match literal.number? with
  | some (.integer n) => .integer n
  | some (.double x) => .double x
  | none => .broken

def readWord (word : String) (value : Value) (text : List Char) : Option (Value × List Char) :=
  if word.toList.isPrefixOf text then some (value, text.drop word.length) else none

mutual
/-- Reads a value behind white space. The fuel bounds the steps; two for a character are enough. -/
def readValue : Nat → List Char → Option (Value × List Char)
  | 0, _ => none
  | fuel + 1, text =>
    match skipSpace text with
    | [] => none
    | 'n' :: rest => readWord "ull" .null rest
    | 't' :: rest => readWord "rue" (.bool true) rest
    | 'f' :: rest => readWord "alse" (.bool false) rest
    | '"' :: rest =>
      (readString [] false rest).map fun (scan, rest) => (scan.value, rest)
    | '[' :: rest =>
      match skipSpace rest with
      | ']' :: rest => some (.array [], rest)
      | rest => readItems fuel [] rest
    | '\x7b' :: rest =>
      match skipSpace rest with
      | '\x7d' :: rest => some (.object [], rest)
      | rest => readMembers fuel [] rest
    | text => (readLiteral text).map fun (literal, rest) => (ofLiteral literal, rest)

/-- Reads the items of an array behind its opening bracket, where there is one at least. -/
def readItems : Nat → List Value → List Char → Option (Value × List Char)
  | 0, _, _ => none
  | fuel + 1, before, text =>
    match readValue fuel text with
    | none => none
    | some (item, rest) =>
      match skipSpace rest with
      | ',' :: rest => readItems fuel (item :: before) rest
      | ']' :: rest => some (.array (item :: before).reverse, rest)
      | _ => none

/-- Reads the members of an object behind its opening brace, where there is one at least. -/
def readMembers : Nat → List (Key × Value) → List Char → Option (Value × List Char)
  | 0, _, _ => none
  | fuel + 1, before, text =>
    match skipSpace text with
    | '"' :: rest =>
      match readString [] false rest with
      | none => none
      | some (scan, rest) =>
        match skipSpace rest with
        | ':' :: rest =>
          match readValue fuel rest with
          | none => none
          | some (value, rest) =>
            let members := (scan.key, value) :: before
            match skipSpace rest with
            | ',' :: rest => readMembers fuel members rest
            | '\x7d' :: rest => some (.object members.reverse, rest)
            | _ => none
        | _ => none
    | _ => none
end

def parse? (text : String) : Option Value :=
  match readValue (2 * text.length + 2) text.toList with
  | some (value, rest) => if (skipSpace rest).isEmpty then some value else none
  | none => none

end SemanticTrees.Json
