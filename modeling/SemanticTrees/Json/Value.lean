import SemanticTrees.Decimal.Literal

/-!
JSON values as they are written. An object keeps its members in the order of the text with
repetitions, because a reader of a format may refuse a repeated name; a string or number that is
written correctly and stands for nothing is kept as `broken`, because a reader that does not look
at it must not refuse it.
-/

namespace SemanticTrees.Json

open SemanticTrees.Decimal

/-- The name of a member as it was read. -/
structure Key where
  /-- The text of the name, unless it holds half of a surrogate pair. -/
  text : Option String
  /-- Whether the name was written with an escape. -/
  escaped : Bool
deriving DecidableEq, Repr

/-- A JSON value. -/
inductive Value
  | null
  | bool (value : Bool)
  | integer (value : Int)
  | double (value : Binary64)
  | string (text : String)
  | array (items : List Value)
  | object (members : List (Key × Value))
  /-- A number beyond the largest double, or a string with half of a surrogate pair. -/
  | broken
deriving Repr, Inhabited

def Key.ofString (name : String) : Key := ⟨some name, false⟩

namespace Value

def ofFields (fields : List (String × Value)) : Value :=
  .object (fields.map fun (name, value) => (Key.ofString name, value))

def ofText? : Option String → Value
  | some text => .string text
  | none => .null

def ofNat (n : Nat) : Value := .integer n

def ofNat? : Option Nat → Value
  | some n => .integer n
  | none => .null

def ofNats (ns : List Nat) : Value := .array (ns.map ofNat)

/-- The value of a member; of several members of one name the last counts. -/
def member? (name : String) : Value → Option Value
  | .object members =>
    (members.reverse.find? fun (key, _) => key.text == some name).map Prod.snd
  | _ => none

def items? : Value → Option (List Value)
  | .array items => some items
  | _ => none

def text? : Value → Option String
  | .string text => some text
  | _ => none

def nat? : Value → Option Nat
  | .integer (.ofNat n) => some n
  | _ => none

def bool? : Value → Option Bool
  | .bool b => some b
  | _ => none

end Value

end SemanticTrees.Json
