import SemanticTrees.Proofs.Operation.Closing
import SemanticTrees.Proofs.Operation.Likeness

/-! Renumbering children. A function that renumbers is called once for each child in the slots, in
their order, and its results take the places of the children; whatever else an operation says stays.
A member that is resolved at run time has no slot for arguments, so this holds of members without
arguments only: arguments of others are renumbered, but no walk through the slots finds them. -/
namespace SemanticTrees

section Effects

variable {m : Type → Type} [Monad m]

/-- Renumbers as `mapChildren` does, by a function whose calls have effects: the receiver first, then
the arguments. -/
def DynamicAccess.mapChildrenM (f : OperationId → m OperationId) (a : DynamicAccess) :
    m DynamicAccess := do
  let receiver ← a.receiver.mapM f
  let arguments ← a.arguments.mapM f
  return { a with receiver, arguments }

/-- Renumbers as `mapChildren` does, by a function whose calls have effects. -/
def OperationKind.mapChildrenM (f : OperationId → m OperationId) : OperationKind → m OperationKind
  | .literal => return .literal
  | .localReference symbol => return .localReference symbol
  | .parameterReference parameter => return .parameterReference parameter
  | .fieldReference field receiver => return .fieldReference field (← receiver.mapM f)
  | .propertyReference property receiver arguments =>
    return .propertyReference property (← receiver.mapM f) (← arguments.mapM f)
  | .methodReference method receiver isVirtual =>
    return .methodReference method (← receiver.mapM f) isVirtual
  | .instanceReference => return .instanceReference
  | .conversion operand kind => return .conversion (← f operand) kind
  | .invocation method receiver isVirtual arguments =>
    return .invocation method (← receiver.mapM f) isVirtual (← arguments.mapM f)
  | .argument kind parameter value => return .argument kind parameter (← f value)
  | .binary operator left right => return .binary operator (← f left) (← f right)
  | .unary operator operand => return .unary operator (← f operand)
  | .simpleAssignment target value => return .simpleAssignment (← f target) (← f value)
  | .compoundAssignment operator target value =>
    return .compoundAssignment operator (← f target) (← f value)
  | .addressOf reference => return .addressOf (← f reference)
  | .arrayElementReference array indices =>
    return .arrayElementReference (← f array) (← indices.mapM f)
  | .objectCreation constructor arguments =>
    return .objectCreation constructor (← arguments.mapM f)
  | .anonymousFunction symbol body => return .anonymousFunction symbol (← f body)
  | .dynamicMemberReference access => return .dynamicMemberReference (← access.mapChildrenM f)
  | .dynamicInvocation access => return .dynamicInvocation (← access.mapChildrenM f)
  | .dynamicIndexerAccess access => return .dynamicIndexerAccess (← access.mapChildrenM f)
  | .dynamicObjectCreation access => return .dynamicObjectCreation (← access.mapChildrenM f)
  | .invalidExpression children => return .invalidExpression (← children.mapM f)
  | .block statements => return .block (← statements.mapM f)
  | .expressionStatement operation => return .expressionStatement (← f operation)
  | .variableDeclarationGroup declarations =>
    return .variableDeclarationGroup (← declarations.mapM f)
  | .variableDeclaration declarators => return .variableDeclaration (← declarators.mapM f)
  | .variableDeclarator symbol initializer =>
    return .variableDeclarator symbol (← initializer.mapM f)
  | .conditional condition whenTrue whenFalse =>
    return .conditional (← f condition) (← f whenTrue) (← whenFalse.mapM f)
  | .whileLoop condition body => return .whileLoop (← f condition) (← f body)
  | .forLoop before condition atLoopBottom body =>
    return .forLoop (← before.mapM f) (← condition.mapM f) (← atLoopBottom.mapM f) (← f body)
  | .switch value cases => return .switch (← f value) (← cases.mapM f)
  | .switchCase clauses body => return .switchCase (← clauses.mapM f) (← body.mapM f)
  | .caseClause value => return .caseClause (← value.mapM f)
  | .branch kind label => return .branch kind label
  | .labeled label operation => return .labeled label (← operation.mapM f)
  | .returnValue value => return .returnValue (← value.mapM f)
  | .empty => return .empty
  | .fixedStatement declared body => return .fixedStatement (← f declared) (← f body)
  | .lockStatement expression body => return .lockStatement (← f expression) (← f body)
  | .usingStatement resources body => return .usingStatement (← f resources) (← f body)
  | .fieldInitializer field value => return .fieldInitializer field (← f value)
  | .propertyInitializer property value => return .propertyInitializer property (← f value)
  | .parameterInitializer parameter value => return .parameterInitializer parameter (← f value)
  | .methodBody body => return .methodBody (← f body)
  | .invalidStatement children => return .invalidStatement (← children.mapM f)

end Effects

namespace OperationKind

variable {kind : OperationKind}

/-- What adding an operation takes for granted of its kind: an object that is created at run time
has no receiver, and names and ways of passing are given for all arguments or for none. -/
structure Admitted (kind : OperationKind) : Prop where
  created : ∀ access, kind = .dynamicObjectCreation access → access.receiver = none
  consistent : ∀ access, kind.dynamicAccess? = some access → access.isConsistent = true

/-- Members that are resolved at run time have no arguments. -/
def IsBare (kind : OperationKind) : Prop :=
  ∀ access, kind = .dynamicMemberReference access → access.arguments = []

theorem isSlotted_of_isBare (admitted : kind.Admitted) (bare : kind.IsBare) :
    kind.isSlotted = true := by
  cases kind with
  | dynamicMemberReference access => simp [isSlotted, bare access rfl]
  | dynamicObjectCreation access => simp [isSlotted, admitted.created access rfl]
  | _ => rfl

section Noting

variable {m : Type → Type} [Monad m] [LawfulMonad m] {note : OperationId → m Unit}
  {f : OperationId → OperationId} {g : OperationId → m OperationId}
  (noted : ∀ i, g i = do note i; return f i)
include noted

theorem mapM_list_noted (l : List OperationId) :
    l.mapM g = do l.forM note; return l.map f := by
  induction l with
  | nil => simp
  | cons i rest ih => simp [ih, noted]

theorem mapM_option_noted (o : Option OperationId) :
    o.mapM g = do o.toList.forM note; return o.map f := by
  cases o with
  | none => simp
  | some i => simp [noted]

/-- A function that renumbers and takes note of its calls is called for one reference after the
other. -/
theorem mapChildrenM_noted (kind : OperationKind) :
    kind.mapChildrenM g = do kind.references.forM note; return kind.mapChildren f := by
  have list := mapM_list_noted noted
  have option := mapM_option_noted noted
  cases kind with
  | dynamicMemberReference access | dynamicInvocation access | dynamicIndexerAccess access
  | dynamicObjectCreation access =>
    simp [mapChildrenM, DynamicAccess.mapChildrenM, mapChildren, DynamicAccess.mapChildren,
      references, dynamicAccess?, list, option]
  | _ =>
    simp [mapChildrenM, mapChildren, references, dynamicAccess?, children, slots, Slot.children,
      Slot.given, list, option, noted]

end Noting

/-- Nothing is renumbered: an operation is like itself. -/
theorem alike_refl (slotted : kind.isSlotted = true) : kind.Alike .identity (fun _ => Eq) kind := by
  have single (o : Option OperationId) : Option.Rel Eq o o := by
    cases o with
    | none => exact .none
    | some i => exact .some rfl
  have each (l : List OperationId) : List.Forall₂ Eq l l := List.forall₂_eq_eq_eq ▸ rfl
  have access (a : DynamicAccess) : a.Alike .identity (fun _ => Eq) a :=
    ⟨rfl, (congrFun Option.map_id _).symm, (List.map_id _).symm, single _, each _, rfl, rfl⟩
  cases kind with
  | dynamicMemberReference a =>
    exact .dynamicMemberReference (access a) (List.isEmpty_iff.mp slotted)
  | dynamicObjectCreation a =>
    exact .dynamicObjectCreation (access a) (Option.isNone_iff_eq_none.mp slotted)
  | dynamicInvocation a => exact .dynamicInvocation (access a)
  | dynamicIndexerAccess a => exact .dynamicIndexerAccess (access a)
  -- a symbol that may be missing is mapped, which is the identity for each of the two cases
  | anonymousFunction symbol body => cases symbol <;> exact .anonymousFunction _ rfl
  | variableDeclarator symbol initializer =>
    cases symbol <;> exact .variableDeclarator _ (single _)
  | _ => constructor <;> first | rfl | exact single _ | exact each _

/-- Each stored reference is a child, the function takes its place, and the rest stays. -/
theorem alike_mapChildren (slotted : kind.isSlotted = true) (f : OperationId → OperationId) :
    kind.Alike .identity (fun _ i j => i ∈ kind.children ∧ j = f i) (kind.mapChildren f) := by
  have replaced : (kind.mapChildren id).Alike .identity
      (fun _ i j => i ∈ kind.children ∧ j = f i) (kind.mapChildren f) :=
    (alike_refl slotted).mapChildren fun _ i listed j _ same => ⟨listed, congrArg f same.symm⟩
  rwa [mapChildren_id] at replaced

theorem Admitted.mapChildren (admitted : kind.Admitted) (f : OperationId → OperationId) :
    (kind.mapChildren f).Admitted where
  created access same := by
    cases kind with
    | dynamicObjectCreation a =>
      obtain rfl := OperationKind.dynamicObjectCreation.inj same
      simp [DynamicAccess.mapChildren, admitted.created a rfl]
    | _ => cases same
  consistent access resolved := by
    cases kind with
    | dynamicMemberReference a | dynamicInvocation a | dynamicIndexerAccess a
    | dynamicObjectCreation a =>
      obtain rfl := Option.some.inj resolved
      simpa [DynamicAccess.isConsistent, DynamicAccess.mapChildren] using admitted.consistent a rfl
    | _ => cases resolved

/-- Renumbering the children of an operation goes through its slots. -/
structure RenumbersInSlots (kind : OperationKind) : Prop where
  /-- What an operation refers to, it has in slots. -/
  reachable : kind.references = kind.children
  /-- The function is called for one child after the other, whatever it takes note of. -/
  called : ∀ {m : Type → Type} [Monad m] [LawfulMonad m] (note : OperationId → m Unit)
    (f : OperationId → OperationId),
    kind.mapChildrenM (fun i => do note i; return f i) =
      do kind.children.forM note; return kind.mapChildren f
  renumbered : ∀ f, (kind.mapChildren f).children = kind.children.map f
  slots : ∀ f, (kind.mapChildren f).slots = kind.slots.map fun (name, slot) => (name, slot.map f)
  /-- Each stored reference is a child, the function takes its place, and the rest stays. -/
  unchanged : ∀ f,
    kind.Alike .identity (fun _ i j => i ∈ kind.children ∧ j = f i) (kind.mapChildren f)
  admitted : ∀ f, (kind.mapChildren f).Admitted

/-- The children of an operation are renumbered through its slots, if it is no member that is
resolved at run time and has arguments. -/
theorem renumbersInSlots (admitted : kind.Admitted) (bare : kind.IsBare) :
    kind.RenumbersInSlots := by
  have slotted := isSlotted_of_isBare admitted bare
  have reachable := references_eq_children slotted
  refine ⟨reachable, ?_, fun f => children_mapChildren f kind, fun f => slots_mapChildren f kind,
    alike_mapChildren slotted, admitted.mapChildren⟩
  intro m _ _ note f
  rw [← reachable]
  exact mapChildrenM_noted (fun i => rfl) kind

/-- A call that is resolved at run time, of operation 2 with the arguments 0 and 1. -/
def namedCall : OperationKind :=
  .dynamicInvocation { DynamicAccess.unknown with
    receiver := some 2, arguments := [0, 1], names := [none, some "x"] }

theorem namedCall_renumbersInSlots :
    namedCall.Admitted ∧ namedCall.IsBare ∧ namedCall.RenumbersInSlots := by
  have admitted : namedCall.Admitted := by
    constructor
    · rintro access ⟨⟩
    · rintro access ⟨⟩
      decide
  have bare : namedCall.IsBare := by rintro access ⟨⟩
  exact ⟨admitted, bare, renumbersInSlots admitted bare⟩

/-- A member that is resolved at run time, with operation 0 as an argument. -/
def strayMember : OperationKind :=
  .dynamicMemberReference { DynamicAccess.unknown with memberName := "m", arguments := [0] }

/-- The argument of the member is renumbered, but it is in no slot, and closing a store leaves it out
of the tree. -/
theorem strayMember_not_renumbersInSlots :
    strayMember.Admitted ∧ strayMember.references = [0] ∧ strayMember.children = [] ∧
      (strayMember.mapChildren (· + 7)).references = [7] ∧ ¬ strayMember.RenumbersInSlots ∧
      (((Store.empty.add (.plain .literal 0 .zero)).add (.plain strayMember 1 .zero)).finish
        (.empty "late") 1).size = 1 := by
  have admitted : strayMember.Admitted := by
    constructor
    · rintro access ⟨⟩
    · rintro access ⟨⟩
      decide
  refine ⟨admitted, rfl, rfl, rfl, fun renumbers => ?_, by cbv⟩
  have reachable : [0] = ([] : List OperationId) := renumbers.reachable
  cases reachable

end OperationKind

end SemanticTrees
