import SemanticTrees.Rendering.Header
import SemanticTrees.Limits

/-!
Renderings of trees as text: a line for an operation, then a line for each of its slots with the
children of the slot below it. An absent child and an empty list of children look different.
Operations below a certain depth are left out.
-/

namespace SemanticTrees

namespace OperationTree

variable (t : OperationTree) (options : RenderOptions) (taint : Array Bool)

def appendLine (out : String) (level : Nat) (line : String) : String :=
  ((out.pushn ' ' (level * options.indent)) ++ line).push '\n'

def slotLine (name : String) : Slot → String
  | .one none => name ++ ": none"
  | .one (some _) => name ++ ":"
  | .many [] => name ++ "(0)"
  | .many children => s!"{name}({children.length}):"

/-- Appends an operation at a level, with as many nested operations as are given. -/
def appendOutline : Nat → Nat → String → OperationId → String
  | 0, level, out, _ => appendLine options out level "..."
  | depth + 1, level, out, i =>
    let out := appendLine options out level (t.header options taint i)
    match t.get? i with
    | none => out
    | some o =>
      o.kind.slots.foldl
        (fun out (name, slot) =>
          slot.children.foldl (appendOutline depth (level + 2))
            (appendLine options out (level + 1) (slotLine name slot)))
        out

def outlineAt (i : OperationId) : String := t.appendOutline options taint Limits.printDepth 0 "" i

def outline : String := t.outlineAt options taint t.root

end OperationTree

end SemanticTrees
