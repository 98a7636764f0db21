import SemanticTrees.Json.Value

/-!
Records and alternatives in JSON. A record is an object, whose unknown members are ignored and
whose known members may not be repeated, or an array of its fields in order, which may end early.
An alternative is the name of the choice, or an object with that name as its only member.
-/

namespace SemanticTrees.Json

/-- A reader of values of one type. -/
abbrev Decoder (α : Type) := Value → Option α

namespace Decoder

def string : Decoder String := Value.text?

def bool : Decoder Bool := Value.bool?

def wordLimit : Nat := 4294967296

/-- Reads a number of thirty-two bits that is written as an integer. -/
def word (v : Value) : Option Nat :=
  match v.nat? with
  | some n => if n < wordLimit then some n else none
  | none => none

def list {α : Type} (item : Decoder α) (v : Value) : Option (List α) :=
  match v with
  | .array items => items.mapM item
  | _ => none

def nullable {α : Type} (value : Decoder α) (v : Value) : Option (Option α) :=
  match v with
  | .null => some none
  | v => (value v).map some

end Decoder

/-- The fields that a text gives for a record. -/
structure Record where
  given : List (String × Value)
  /-- Whether the fields were given by position. -/
  positional : Bool

namespace Record

def distinct : List (String × Value) → Bool
  | [] => true
  | (name, _) :: rest => (rest.lookup name).isNone && distinct rest

/-- The members of an object by name; a member whose name is no text makes the object unreadable. -/
def named (members : List (Key × Value)) : Option (List (String × Value)) :=
  members.mapM fun (key, value) => key.text.map (·, value)

def read (names : List String) (v : Value) : Option Record :=
  match v with
  | .object members =>
    match named members with
    | some all =>
      let known := all.filter fun (name, _) => names.contains name
      if distinct known then some ⟨known, false⟩ else none
    | none => none
  | .array items => if items.length ≤ names.length then some ⟨names.zip items, true⟩ else none
  | _ => none

def required {α : Type} (r : Record) (name : String) (value : Decoder α) : Option α :=
  match r.given.lookup name with
  | some v => value v
  | none => none

def defaulted {α : Type} (r : Record) (name : String) (value : Decoder α) (default : α) :
    Option α :=
  match r.given.lookup name with
  | some v => value v
  | none => some default

/-- A field that may be null. By name it may also be left out; by position it must be given. -/
def optional {α : Type} (r : Record) (name : String) (value : Decoder α) : Option (Option α) :=
  match r.given.lookup name with
  | some v => value.nullable v
  | none => if r.positional then none else some none

def omissible {α : Type} (r : Record) (name : String) (value : Decoder α) : Option (Option α) :=
  r.defaulted name value.nullable none

end Record

/-- A choice by name, with the value that was given for it. -/
structure Choice where
  name : String
  payload : Option Value

namespace Choice

def read (v : Value) : Option Choice :=
  match v with
  | .string name => some ⟨name, none⟩
  | .object [(key, value)] => key.text.map (⟨·, some value⟩)
  | _ => none

/-- A choice that carries nothing: nothing or null was given for it. -/
def bare {α : Type} (c : Choice) (result : α) : Option α :=
  match c.payload with
  | none => some result
  | some .null => some result
  | some _ => none

def carrying {α : Type} (c : Choice) (value : Decoder α) : Option α :=
  match c.payload with
  | some v => value v
  | none => none

def fields {α : Type} (c : Choice) (names : List String) (make : Record → Option α) :
    Option α :=
  c.carrying fun v =>
    match Record.read names v with
    | some r => make r
    | none => none

def among {α : Type} (all : List α) (name : α → String) (v : Value) : Option α := do
  let c ← read v
  let x ← all.find? fun x => name x == c.name
  c.bare x

end Choice

end SemanticTrees.Json
