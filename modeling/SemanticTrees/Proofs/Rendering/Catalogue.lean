import SemanticTrees.Rendering.Attributes
import Mathlib.Data.List.Forall2
import Mathlib.Data.List.Nodup

/-! The catalogue of operations. Operations with the same name have the same role, the same labels
of attributes and the same slots, so the name at the start of a line says how to read the rest. -/
namespace SemanticTrees

/-- Whether a slot holds a child or a list of children. -/
inductive SlotShape
  | one
  | many
deriving DecidableEq, Repr

def Slot.shape : Slot → SlotShape
  | .one _ => .one
  | .many _ => .many

/-- What operations of one kind have in common. -/
structure Signature where
  name : String
  role : Role
  labels : List String
  slots : List (String × SlotShape)
deriving DecidableEq, Repr

def Program.signature (p : Program) (kind : OperationKind) : Signature :=
  ⟨kind.name, kind.role, (p.attributes kind).map Attribute.label,
    kind.slots.map fun (name, slot) => (name, slot.shape)⟩

def Signature.catalogue : List Signature :=
  [⟨"Literal", .expression, [], []⟩,
    ⟨"LocalReference", .expression, ["Local"], []⟩,
    ⟨"ParameterReference", .expression, ["Parameter"], []⟩,
    ⟨"FieldReference", .expression, ["Field"], [("Instance", .one)]⟩,
    ⟨"PropertyReference", .expression, ["Property"], [("Instance", .one), ("Arguments", .many)]⟩,
    ⟨"MethodReference", .expression, ["Method", "IsVirtual"], [("Instance", .one)]⟩,
    ⟨"InstanceReference", .expression, [], []⟩,
    ⟨"Conversion", .expression, ["Conversion"], [("Operand", .one)]⟩,
    ⟨"Invocation", .expression, ["Method", "IsVirtual"],
      [("Instance", .one), ("Arguments", .many)]⟩,
    ⟨"Argument", .expression, ["ArgumentKind", "Parameter"], [("Value", .one)]⟩,
    ⟨"Binary", .expression, ["OperatorKind"], [("Left", .one), ("Right", .one)]⟩,
    ⟨"Unary", .expression, ["OperatorKind"], [("Operand", .one)]⟩,
    ⟨"SimpleAssignment", .expression, [], [("Target", .one), ("Value", .one)]⟩,
    ⟨"CompoundAssignment", .expression, ["OperatorKind"], [("Target", .one), ("Value", .one)]⟩,
    ⟨"AddressOf", .expression, [], [("Reference", .one)]⟩,
    ⟨"ArrayElementReference", .expression, [], [("Array", .one), ("Indices", .many)]⟩,
    ⟨"ObjectCreation", .expression, ["Constructor"], [("Arguments", .many)]⟩,
    ⟨"AnonymousFunction", .expression, ["Symbol"], [("Body", .one)]⟩,
    ⟨"DynamicMemberReference", .expression, ["MemberName", "ContainingType", "TypeArguments"],
      [("Instance", .one)]⟩,
    ⟨"DynamicInvocation", .expression, ["ArgumentNames", "ArgumentRefKinds"],
      [("Operation", .one), ("Arguments", .many)]⟩,
    ⟨"DynamicIndexerAccess", .expression, ["ContainingType", "ArgumentNames", "ArgumentRefKinds"],
      [("Operation", .one), ("Arguments", .many)]⟩,
    ⟨"DynamicObjectCreation", .expression, ["ContainingType", "ArgumentNames", "ArgumentRefKinds"],
      [("Arguments", .many)]⟩,
    ⟨"InvalidExpression", .expression, [], [("Children", .many)]⟩,
    ⟨"Block", .statement, [], [("Statements", .many)]⟩,
    ⟨"ExpressionStatement", .statement, [], [("Operation", .one)]⟩,
    ⟨"VariableDeclarationGroup", .statement, [], [("Declarations", .many)]⟩,
    ⟨"VariableDeclaration", .statement, [], [("Declarators", .many)]⟩,
    ⟨"VariableDeclarator", .statement, ["Symbol"], [("Initializer", .one)]⟩,
    ⟨"Conditional", .statement, [],
      [("Condition", .one), ("WhenTrue", .one), ("WhenFalse", .one)]⟩,
    ⟨"WhileLoop", .statement, [], [("Condition", .one), ("Body", .one)]⟩,
    ⟨"ForLoop", .statement, [],
      [("Before", .many), ("Condition", .one), ("AtLoopBottom", .many), ("Body", .one)]⟩,
    ⟨"Switch", .statement, [], [("Value", .one), ("Cases", .many)]⟩,
    ⟨"SwitchCase", .statement, [], [("Clauses", .many), ("Body", .many)]⟩,
    ⟨"CaseClause", .statement, [], [("Value", .one)]⟩,
    ⟨"Branch", .statement, ["BranchKind", "Label"], []⟩,
    ⟨"Labeled", .statement, ["Label"], [("Statement", .one)]⟩,
    ⟨"Return", .statement, [], [("ReturnedValue", .one)]⟩,
    ⟨"Empty", .statement, [], []⟩,
    ⟨"FixedStatement", .statement, [], [("Variables", .one), ("Body", .one)]⟩,
    ⟨"LockStatement", .statement, [], [("Expression", .one), ("Body", .one)]⟩,
    ⟨"UsingStatement", .statement, [], [("Resources", .one), ("Body", .one)]⟩,
    ⟨"FieldInitializer", .statement, ["Field"], [("Value", .one)]⟩,
    ⟨"PropertyInitializer", .statement, ["Property"], [("Value", .one)]⟩,
    ⟨"ParameterInitializer", .statement, ["Parameter"], [("Value", .one)]⟩,
    ⟨"MethodBody", .statement, [], [("BlockBody", .one)]⟩,
    ⟨"InvalidStatement", .statement, [], [("Children", .many)]⟩]

namespace Program

variable {p p' : Program} {kind kind' : OperationKind}

theorem getElem?_catalogue (p : Program) (kind : OperationKind) :
    Signature.catalogue[kind.ctorIdx]? = some (p.signature kind) := by
  cases kind <;> rfl

theorem nodup_catalogue : (Signature.catalogue.map Signature.name).Nodup := by decide +kernel

theorem signature_mem (p : Program) (kind : OperationKind) :
    p.signature kind ∈ Signature.catalogue :=
  List.mem_of_getElem? (getElem?_catalogue p kind)

/-- The name of an operation tells everything that operations of its kind have in common. -/
theorem signature_eq (p p' : Program) (same : kind.name = kind'.name) :
    p.signature kind = p'.signature kind' :=
  List.inj_on_of_nodup_map nodup_catalogue (signature_mem p kind) (signature_mem p' kind') same

end Program

/-- A word of letters. -/
def Alphabetic (text : String) : Prop := text ≠ "" ∧ ∀ c ∈ text.toList, c.isAlpha = true

-- The letters are checked one by one, never all characters there are.
instance (text : String) : Decidable (Alphabetic text) :=
  @instDecidableAnd _ _ _ (List.decidableBAll _ _)

/-- What is written in a signature are words. -/
theorem Signature.alphabetic_of_mem {s : Signature} (listed : s ∈ catalogue) {word : String}
    (known : word = s.name ∨ word ∈ s.labels ∨ word ∈ s.slots.map Prod.fst) : Alphabetic word := by
  have words : ∀ s ∈ catalogue, ∀ word ∈ s.name :: s.labels ++ s.slots.map Prod.fst,
      Alphabetic word := by decide +kernel
  exact words s listed word (by simpa [or_assoc] using known)

namespace OperationKind

variable {kind kind' : OperationKind}

theorem alphabetic_name (kind : OperationKind) : Alphabetic kind.name :=
  Signature.alphabetic_of_mem (Program.signature_mem (.empty "") kind) (.inl rfl)

theorem alphabetic_label {p : Program} {a : Attribute} (listed : a ∈ p.attributes kind) :
    Alphabetic a.label :=
  Signature.alphabetic_of_mem (p.signature_mem kind) (.inr (.inl (List.mem_map_of_mem listed)))

theorem alphabetic_slotName {name : String} {slot : Slot} (listed : (name, slot) ∈ kind.slots) :
    Alphabetic name := by
  refine Signature.alphabetic_of_mem (Program.signature_mem (.empty "") kind) (.inr (.inr ?_))
  simp only [Program.signature, List.map_map]
  exact List.mem_map.mpr ⟨(name, slot), listed, rfl⟩

section

variable (same : kind.name = kind'.name)
include same

theorem role_eq_of_name : kind.role = kind'.role :=
  congrArg Signature.role (Program.signature_eq (.empty "") (.empty "") same)

theorem labels_eq_of_name (p p' : Program) :
    (p.attributes kind).map Attribute.label = (p'.attributes kind').map Attribute.label :=
  congrArg Signature.labels (p.signature_eq p' same)

theorem slots_of_name : List.Forall₂ (fun entry entry' : String × Slot =>
    entry.1 = entry'.1 ∧ entry.2.shape = entry'.2.shape) kind.slots kind'.slots := by
  have signature := Program.signature_eq (.empty "") (.empty "") same
  have slots := congrArg Signature.slots signature
  dsimp only [Program.signature] at slots
  rw [← List.forall₂_eq_eq_eq, List.forall₂_map_left_iff, List.forall₂_map_right_iff] at slots
  exact slots.imp fun _ _ entries => Prod.mk.inj entries

end

end OperationKind

end SemanticTrees
