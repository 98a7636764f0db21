/-!
Limits on the size of operation trees and of their renderings.
-/

namespace SemanticTrees.Limits

/-- The number of nested syntax nodes that lower by default; deeper ones become invalid. -/
def loweringDepth : Nat := 500

def printDepth : Nat := 1000

end SemanticTrees.Limits
