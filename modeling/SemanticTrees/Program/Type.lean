/-!
Types of a checked program. A type is known by its place in the table of types; a place beyond the
table stands for a type that the checking phase could not determine.
-/

namespace SemanticTrees

/-- The place of a type in the table of types. -/
abbrev TypeId := Nat

/-- What sort of type a type is. -/
inductive TypeKind
  | classType
  | structType
  | interfaceType
  | enumType
  | delegateType
  /-- Known at run time only: access and calls are resolved late. -/
  | dynamic
  | void
  | pointer (pointee : TypeId)
  | array (element : TypeId)
  /-- A type parameter, not known to stand for a reference type. -/
  | typeParameter
  /-- Undetermined. -/
  | error
deriving DecidableEq, Repr, Inhabited

namespace TypeKind

/-- Whether values of such a type are references, so that they can be locked. -/
def isReference : TypeKind → Bool
  | .classType | .interfaceType | .delegateType | .array _ | .dynamic => true
  | _ => false

def inner : TypeKind → Option TypeId
  | .pointer pointee => some pointee
  | .array element => some element
  | _ => none

end TypeKind

/-- A type with its name. -/
structure TypeInfo where
  name : String
  kind : TypeKind
deriving DecidableEq, Repr, Inhabited

/-- The types of a program. -/
abbrev TypeTable := Array TypeInfo

namespace TypeTable

/-- The name of a type; unknown types have a question mark. -/
def nameOf (types : TypeTable) (id : TypeId) : String :=
  match types[id]? with
  | some info => info.name
  | none => "?"

def kindOf (types : TypeTable) (id : TypeId) : Option TypeKind :=
  types[id]?.map TypeInfo.kind

def isDynamic (types : TypeTable) (id : TypeId) : Bool :=
  types.kindOf id == some .dynamic

def isReference (types : TypeTable) (id : TypeId) : Bool :=
  match types.kindOf id with
  | some kind => kind.isReference
  | none => false

def isVoid (types : TypeTable) (id : TypeId) : Bool :=
  types.kindOf id == some .void

def isError (types : TypeTable) (id : TypeId) : Bool :=
  match types.kindOf id with
  | some kind => kind == .error
  | none => true

def isArray (types : TypeTable) (id : TypeId) : Bool :=
  match types.kindOf id with
  | some (.array _) => true
  | _ => false

def find (types : TypeTable) (name : String) : Option TypeId :=
  types.findIdx? fun info => info.name == name

end TypeTable

end SemanticTrees
