import SemanticTrees.Rendering.Header

/-!
Comparison of trees. Operations are equal when their lines are equal under the structural options
and their slots hold equal children; the first place where two trees diverge is reported with the
path of slots that leads to it.
-/

namespace SemanticTrees

/-- A place where two trees diverge. -/
structure Divergence where
  /-- The name of the first operation, and the slots that lead to the place. -/
  path : List String
  expected : String
  actual : String
deriving DecidableEq, Repr

namespace Divergence

def pathText (d : Divergence) : String := "/".intercalate d.path

/-- The report of a divergence, in three lines. -/
def message (d : Divergence) : String :=
  s!"trees differ at {d.pathText}\n  expected: {d.expected}\n  actual:   {d.actual}"

/-- The same divergence, seen from one slot above. -/
def below (step : String) (d : Divergence) : Divergence := { d with path := step :: d.path }

end Divergence

/-- Two trees that are compared, with their taints. -/
structure Comparison where
  expected : OperationTree
  actual : OperationTree
  expectedTaint : Array Bool
  actualTaint : Array Bool

namespace Comparison

def of (expected actual : OperationTree) : Comparison :=
  ⟨expected, actual, expected.structuralTaint, actual.structuralTaint⟩

variable (c : Comparison)

def expectedHeader (i : OperationId) : String :=
  c.expected.header RenderOptions.structural c.expectedTaint i

def actualHeader (i : OperationId) : String :=
  c.actual.header RenderOptions.structural c.actualTaint i

def described (header : OperationId → String) : Option OperationId → String
  | some i => header i
  | none => "none"

/-- The first divergence of children with the same places, the first of them having the given
place. -/
def listDivergence (compare : OperationId → OperationId → Option Divergence) (name : String)
    (place : Nat) : List OperationId → List OperationId → Option Divergence
  | e :: expected, a :: actual =>
    ((compare e a).map (Divergence.below s!"{name}[{place}]")).or
      (listDivergence compare name (place + 1) expected actual)
  | _, _ => none

/-- A slot that holds one child, or a list of children, as a report shows it. -/
def slotText : Slot → String
  | .one none => "One(None)"
  | .one (some i) => s!"One(Some(OpIndex({i})))"
  | .many children =>
    "Many([" ++ ", ".intercalate (children.map fun i => s!"OpIndex({i})") ++ "])"

def slotDivergence (compare : OperationId → OperationId → Option Divergence) (name : String)
    (expected actual : Slot) : Option Divergence :=
  match expected, actual with
  | .one none, .one none => none
  | .one (some e), .one (some a) => (compare e a).map (Divergence.below name)
  | .one e, .one a =>
    some ⟨[name], described c.expectedHeader e, described c.actualHeader a⟩
  | .many es, .many as =>
    if es.length = as.length then listDivergence compare name 0 es as
    else some ⟨[name], s!"{name}({es.length})", s!"{name}({as.length})"⟩
  | e, a => some ⟨[name], slotText e, slotText a⟩

/-- The first divergence of slots, in order. -/
def slotsDivergence (compare : OperationId → OperationId → Option Divergence) :
    List (String × Slot) → List (String × Slot) → Option Divergence
  | (name, e) :: expected, (_, a) :: actual =>
    (c.slotDivergence compare name e a).or (slotsDivergence compare expected actual)
  | _, _ => none

/-- The first divergence of two operations with all below them. The fuel bounds the depth. -/
def divergenceAt : Nat → OperationId → OperationId → Option Divergence
  | 0, _, _ => none
  | fuel + 1, e, a =>
    if c.expectedHeader e ≠ c.actualHeader a then
      some ⟨[], c.expectedHeader e, c.actualHeader a⟩
    else
      match c.expected.get? e, c.actual.get? a with
      | some expected, some actual =>
        c.slotsDivergence (divergenceAt fuel) expected.kind.slots actual.kind.slots
      | _, _ => none

def rootName (i : OperationId) : String :=
  match c.expected.get? i with
  | some o => o.kind.name
  | none => "<missing>"

/-- The first divergence of two operations, its path starting with the name of the first one. -/
def divergence (e a : OperationId) : Option Divergence :=
  (c.divergenceAt (c.expected.size + 1) e a).map (Divergence.below (c.rootName e))

end Comparison

end SemanticTrees
