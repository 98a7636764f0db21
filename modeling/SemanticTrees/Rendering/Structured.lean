import SemanticTrees.Rendering.Header
import SemanticTrees.Program.Encoding
import SemanticTrees.Json.Writer
import SemanticTrees.Limits

/-!
Renderings of trees as JSON: an object for an operation, with its slots as members. Fields that
would be empty are left out, an absent child is null, and slots below a certain depth hold an
ellipsis.
-/

namespace SemanticTrees

open SemanticTrees.Json

namespace OperationTree

variable (t : OperationTree) (taint : Array Bool)

def unlessEmpty (name : String) (fields : List (String × Value)) : List (String × Value) :=
  if fields.isEmpty then [] else [(name, .ofFields fields)]

def structuredFields (o : Operation) (isInvalid : Bool) : List (String × Value) :=
  let attributes := (t.program.attributes o.kind).map fun a => (a.label, Value.string a.value)
  let type := if o.isExpression then [("resultType", Value.string (o.typeText t.program))] else []
  let constant := o.constant.toList.map fun constant => ("constant", Value.string constant.text)
  ("kind", Value.string o.kind.name) :: unlessEmpty "attributes" attributes ++ type ++ constant ++
    [("isInvalid", .bool isInvalid), ("isImplicit", .bool o.isImplicit),
      ("span", Encoding.span o.span)]

def structuredMissing : Value :=
  .ofFields [("kind", .string "Missing"), ("isInvalid", .bool true), ("isImplicit", .bool false),
    ("span", Encoding.span Span.zero)]

/-- The value of a slot, given the objects of its children. -/
def structuredSlot (child : OperationId → Value) : Slot → Value
  | .one none => .null
  | .one (some i) => child i
  | .many children => .array (children.map child)

/-- The object of an operation, with as many more nested operations as are given. -/
def structuredAt : Nat → OperationId → Value
  | depth, i =>
    match t.get? i with
    | none => structuredMissing
    | some o =>
      let children := o.kind.slots.map fun (name, slot) =>
        (name,
          match depth with
          | 0 => .string "..."
          | depth + 1 => structuredSlot (structuredAt depth) slot)
      .ofFields (t.structuredFields o (taint.getD i false) ++ unlessEmpty "children" children)

def structured : Value := t.structuredAt taint (Limits.printDepth - 1) t.root

end OperationTree

end SemanticTrees
