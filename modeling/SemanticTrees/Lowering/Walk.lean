import SemanticTrees.Lowering.Value
import SemanticTrees.Lowering.Statement

/-!
The walk over syntax. It ends at a depth that the options set: a node below it becomes a
placeholder, and everything above it is lowered as if the placeholder were the node.
-/

namespace SemanticTrees

/-- Lowers a node in a role, given how many nested nodes may still be lowered. -/
def walk (program : Program) (options : LoweringOptions) : Nat → Walk
  | 0, scope, role, id =>
    let c : Context := { program, options, scope, walk := fun _ _ _ => pure 0 }
    c.placeholder role id
  | depth + 1, scope, role, id =>
    let c : Context := { program, options, scope, walk := walk program options depth }
    match role with
    | .expression => c.lowerExpression id
    | .statement => c.lowerStatement id

end SemanticTrees
