import SemanticTrees.Proofs.Operation.Sorts
import SemanticTrees.Proofs.Program.Translation

/-! Likeness of operations. Operations are alike when one is the other with its types and symbols
renumbered and its children replaced by related ones, where a relation may depend on what a slot is
meant for. -/
namespace SemanticTrees

/-- A relation of operations for each sort of slot. -/
abbrev SortedRelation := OperationSort → OperationId → OperationId → Prop

variable {τ : Translation} {r r' : SortedRelation}

/-- Accesses that are resolved at run time are alike. -/
structure DynamicAccess.Alike (τ : Translation) (r : SortedRelation) (a a' : DynamicAccess) :
    Prop where
  memberName : a'.memberName = a.memberName
  containingType : a'.containingType = a.containingType.map τ.types
  typeArguments : a'.typeArguments = a.typeArguments.map τ.types
  receiver : Option.Rel (r .expression) a.receiver a'.receiver
  arguments : List.Forall₂ (r .expression) a.arguments a'.arguments
  names : a'.names = a.names
  passings : a'.passings = a.passings

namespace OperationKind

/-- Kinds are alike. A member that is resolved at run time has no arguments and what is created at
run time has no receiver, since they have no slots for them. -/
inductive Alike (τ : Translation) (r : SortedRelation) : OperationKind → OperationKind → Prop
  | literal : Alike τ r .literal .literal
  | localReference (symbol : SymbolId) :
      Alike τ r (.localReference symbol) (.localReference (τ.symbols symbol))
  | parameterReference (symbol : SymbolId) :
      Alike τ r (.parameterReference symbol) (.parameterReference (τ.symbols symbol))
  | fieldReference {receiver receiver' : Option OperationId} (symbol : SymbolId)
      (receivers : Option.Rel (r .expression) receiver receiver') :
      Alike τ r (.fieldReference symbol receiver) (.fieldReference (τ.symbols symbol) receiver')
  | propertyReference {receiver receiver' : Option OperationId}
      {arguments arguments' : List OperationId} (symbol : SymbolId)
      (receivers : Option.Rel (r .expression) receiver receiver')
      (values : List.Forall₂ (r .argument) arguments arguments') :
      Alike τ r (.propertyReference symbol receiver arguments)
        (.propertyReference (τ.symbols symbol) receiver' arguments')
  | methodReference {receiver receiver' : Option OperationId} (symbol : SymbolId)
      (isVirtual : Bool) (receivers : Option.Rel (r .expression) receiver receiver') :
      Alike τ r (.methodReference symbol receiver isVirtual)
        (.methodReference (τ.symbols symbol) receiver' isVirtual)
  | instanceReference : Alike τ r .instanceReference .instanceReference
  | conversion {operand operand' : OperationId} (kind : ConversionKind)
      (operands : r .expression operand operand') :
      Alike τ r (.conversion operand kind) (.conversion operand' kind)
  | invocation {receiver receiver' : Option OperationId} {arguments arguments' : List OperationId}
      (symbol : SymbolId) (isVirtual : Bool)
      (receivers : Option.Rel (r .expression) receiver receiver')
      (values : List.Forall₂ (r .argument) arguments arguments') :
      Alike τ r (.invocation symbol receiver isVirtual arguments)
        (.invocation (τ.symbols symbol) receiver' isVirtual arguments')
  | argument {value value' : OperationId} (kind : ArgumentKind) (symbol : SymbolId)
      (values : r .expression value value') :
      Alike τ r (.argument kind symbol value) (.argument kind (τ.symbols symbol) value')
  | binary {left left' right right' : OperationId} (operator : BinaryOperator)
      (lefts : r .expression left left') (rights : r .expression right right') :
      Alike τ r (.binary operator left right) (.binary operator left' right')
  | unary {operand operand' : OperationId} (operator : UnaryOperator)
      (operands : r .expression operand operand') :
      Alike τ r (.unary operator operand) (.unary operator operand')
  | simpleAssignment {target target' value value' : OperationId}
      (targets : r .expression target target') (values : r .expression value value') :
      Alike τ r (.simpleAssignment target value) (.simpleAssignment target' value')
  | compoundAssignment {target target' value value' : OperationId} (operator : BinaryOperator)
      (targets : r .expression target target') (values : r .expression value value') :
      Alike τ r (.compoundAssignment operator target value)
        (.compoundAssignment operator target' value')
  | addressOf {reference reference' : OperationId}
      (references : r .expression reference reference') :
      Alike τ r (.addressOf reference) (.addressOf reference')
  | arrayElementReference {array array' : OperationId} {indices indices' : List OperationId}
      (arrays : r .expression array array')
      (values : List.Forall₂ (r .expression) indices indices') :
      Alike τ r (.arrayElementReference array indices) (.arrayElementReference array' indices')
  | objectCreation {arguments arguments' : List OperationId} (symbol : SymbolId)
      (values : List.Forall₂ (r .argument) arguments arguments') :
      Alike τ r (.objectCreation symbol arguments) (.objectCreation (τ.symbols symbol) arguments')
  | anonymousFunction {body body' : OperationId} (symbol : Option SymbolId)
      (bodies : r .functionBody body body') :
      Alike τ r (.anonymousFunction symbol body) (.anonymousFunction (symbol.map τ.symbols) body')
  | dynamicMemberReference {access access' : DynamicAccess} (accesses : access.Alike τ r access')
      (bare : access.arguments = []) :
      Alike τ r (.dynamicMemberReference access) (.dynamicMemberReference access')
  | dynamicInvocation {access access' : DynamicAccess} (accesses : access.Alike τ r access') :
      Alike τ r (.dynamicInvocation access) (.dynamicInvocation access')
  | dynamicIndexerAccess {access access' : DynamicAccess} (accesses : access.Alike τ r access') :
      Alike τ r (.dynamicIndexerAccess access) (.dynamicIndexerAccess access')
  | dynamicObjectCreation {access access' : DynamicAccess} (accesses : access.Alike τ r access')
      (bare : access.receiver = none) :
      Alike τ r (.dynamicObjectCreation access) (.dynamicObjectCreation access')
  | invalidExpression {children children' : List OperationId}
      (inside : List.Forall₂ (r .expression) children children') :
      Alike τ r (.invalidExpression children) (.invalidExpression children')
  | block {statements statements' : List OperationId}
      (inside : List.Forall₂ (r .statement) statements statements') :
      Alike τ r (.block statements) (.block statements')
  | expressionStatement {operation operation' : OperationId}
      (values : r .expression operation operation') :
      Alike τ r (.expressionStatement operation) (.expressionStatement operation')
  | variableDeclarationGroup {declarations declarations' : List OperationId}
      (declared : List.Forall₂ (r .declaration) declarations declarations') :
      Alike τ r (.variableDeclarationGroup declarations) (.variableDeclarationGroup declarations')
  | variableDeclaration {declarators declarators' : List OperationId}
      (declared : List.Forall₂ (r .declarator) declarators declarators') :
      Alike τ r (.variableDeclaration declarators) (.variableDeclaration declarators')
  | variableDeclarator {initializer initializer' : Option OperationId} (symbol : Option SymbolId)
      (values : Option.Rel (r .expression) initializer initializer') :
      Alike τ r (.variableDeclarator symbol initializer)
        (.variableDeclarator (symbol.map τ.symbols) initializer')
  | conditional {condition condition' whenTrue whenTrue' : OperationId}
      {whenFalse whenFalse' : Option OperationId}
      (conditions : r .expression condition condition') (holds : r .statement whenTrue whenTrue')
      (fails : Option.Rel (r .statement) whenFalse whenFalse') :
      Alike τ r (.conditional condition whenTrue whenFalse)
        (.conditional condition' whenTrue' whenFalse')
  | whileLoop {condition condition' body body' : OperationId}
      (conditions : r .expression condition condition') (bodies : r .statement body body') :
      Alike τ r (.whileLoop condition body) (.whileLoop condition' body')
  | forLoop {before before' : List OperationId} {condition condition' : Option OperationId}
      {atLoopBottom atLoopBottom' : List OperationId} {body body' : OperationId}
      (starts : List.Forall₂ (r .statement) before before')
      (conditions : Option.Rel (r .expression) condition condition')
      (advances : List.Forall₂ (r .statement) atLoopBottom atLoopBottom')
      (bodies : r .statement body body') :
      Alike τ r (.forLoop before condition atLoopBottom body)
        (.forLoop before' condition' atLoopBottom' body')
  | switch {value value' : OperationId} {cases cases' : List OperationId}
      (values : r .expression value value') (entries : List.Forall₂ (r .entry) cases cases') :
      Alike τ r (.switch value cases) (.switch value' cases')
  | switchCase {clauses clauses' body body' : List OperationId}
      (marks : List.Forall₂ (r .clause) clauses clauses')
      (inside : List.Forall₂ (r .statement) body body') :
      Alike τ r (.switchCase clauses body) (.switchCase clauses' body')
  | caseClause {value value' : Option OperationId}
      (values : Option.Rel (r .expression) value value') :
      Alike τ r (.caseClause value) (.caseClause value')
  | branch (kind : BranchKind) (label : Option String) :
      Alike τ r (.branch kind label) (.branch kind label)
  | labeled {operation operation' : Option OperationId} (label : String)
      (inside : Option.Rel (r .statement) operation operation') :
      Alike τ r (.labeled label operation) (.labeled label operation')
  | returnValue {value value' : Option OperationId}
      (values : Option.Rel (r .expression) value value') :
      Alike τ r (.returnValue value) (.returnValue value')
  | empty : Alike τ r .empty .empty
  | fixedStatement {declared declared' body body' : OperationId}
      (declares : r .fixedVariables declared declared') (bodies : r .statement body body') :
      Alike τ r (.fixedStatement declared body) (.fixedStatement declared' body')
  | lockStatement {expression expression' body body' : OperationId}
      (values : r .expression expression expression') (bodies : r .statement body body') :
      Alike τ r (.lockStatement expression body) (.lockStatement expression' body')
  | usingStatement {resources resources' body body' : OperationId}
      (held : r .resource resources resources') (bodies : r .statement body body') :
      Alike τ r (.usingStatement resources body) (.usingStatement resources' body')
  | fieldInitializer {value value' : OperationId} (symbol : SymbolId)
      (values : r .expression value value') :
      Alike τ r (.fieldInitializer symbol value) (.fieldInitializer (τ.symbols symbol) value')
  | propertyInitializer {value value' : OperationId} (symbol : SymbolId)
      (values : r .expression value value') :
      Alike τ r (.propertyInitializer symbol value)
        (.propertyInitializer (τ.symbols symbol) value')
  | parameterInitializer {value value' : OperationId} (symbol : SymbolId)
      (values : r .expression value value') :
      Alike τ r (.parameterInitializer symbol value)
        (.parameterInitializer (τ.symbols symbol) value')
  | methodBody {body body' : OperationId} (bodies : r .statement body body') :
      Alike τ r (.methodBody body) (.methodBody body')
  | invalidStatement {children children' : List OperationId}
      (inside : List.Forall₂ (r .part) children children') :
      Alike τ r (.invalidStatement children) (.invalidStatement children')

end OperationKind

/-- Slots hold related children. -/
inductive Slot.Alike (R : OperationId → OperationId → Prop) : Slot → Slot → Prop
  | one {child child' : Option OperationId} (related : Option.Rel R child child') :
      Alike R (.one child) (.one child')
  | many {children children' : List OperationId} (related : List.Forall₂ R children children') :
      Alike R (.many children) (.many children')

theorem Slot.Alike.children {R : OperationId → OperationId → Prop} {slot slot' : Slot}
    (alike : slot.Alike R slot') : List.Forall₂ R slot.children slot'.children := by
  cases alike with
  | one related => exact forall₂_toList related
  | many related => exact related

namespace OperationKind

variable {kind kind' : OperationKind}

/-- Children may be replaced by others that are related again. -/
theorem Alike.mapChildren {f f' : OperationId → OperationId} (alike : kind.Alike τ r kind')
    (keeps : ∀ σ, ∀ i ∈ kind.children, ∀ j ∈ kind'.children, r σ i j → r' σ (f i) (f' j)) :
    (kind.mapChildren f).Alike τ r' (kind'.mapChildren f') := by
  have some {σ : OperationSort} {a b : Option OperationId} (left : ∀ i ∈ a, i ∈ kind.children)
      (right : ∀ j ∈ b, j ∈ kind'.children) (related : Option.Rel (r σ) a b) :
      Option.Rel (r' σ) (a.map f) (b.map f') :=
    rel_map (fun i first j second => keeps σ i (left i first) j (right j second)) related
  have each {σ : OperationSort} {a b : List OperationId} (left : ∀ i ∈ a, i ∈ kind.children)
      (right : ∀ j ∈ b, j ∈ kind'.children) (related : List.Forall₂ (r σ) a b) :
      List.Forall₂ (r' σ) (a.map f) (b.map f') :=
    forall₂_map (fun i first j second => keeps σ i (left i first) j (right j second)) related
  simp only [children] at keeps some each
  cases alike with
  | dynamicMemberReference accesses bare =>
    have bare' := accesses.arguments
    rw [bare, List.forall₂_nil_left_iff] at bare'
    refine .dynamicMemberReference
      { accesses with
        receiver := some (by simp [slots, Slot.children]) (by simp [slots, Slot.children])
          accesses.receiver
        arguments := ?_ } ?_
    all_goals simp [DynamicAccess.mapChildren, bare, bare']
  | @dynamicObjectCreation access access' accesses bare =>
    have bare' : access'.receiver = none := by
      have related := accesses.receiver
      rw [bare] at related
      generalize access'.receiver = receiver at related
      cases related
      rfl
    refine .dynamicObjectCreation
      { accesses with
        arguments := each (by simp [slots, Slot.children]) (by simp [slots, Slot.children])
          accesses.arguments
        receiver := ?_ } ?_
    all_goals simp [DynamicAccess.mapChildren, bare, bare']
  | dynamicInvocation accesses =>
    exact .dynamicInvocation
      { accesses with
        receiver := some (by simp +contextual [slots, Slot.children])
          (by simp +contextual [slots, Slot.children]) accesses.receiver
        arguments := each (by simp +contextual [slots, Slot.children])
          (by simp +contextual [slots, Slot.children]) accesses.arguments }
  | dynamicIndexerAccess accesses =>
    exact .dynamicIndexerAccess
      { accesses with
        receiver := some (by simp +contextual [slots, Slot.children])
          (by simp +contextual [slots, Slot.children]) accesses.receiver
        arguments := each (by simp +contextual [slots, Slot.children])
          (by simp +contextual [slots, Slot.children]) accesses.arguments }
  | _ =>
    simp only [slots, Slot.children, Slot.given, List.flatMap_cons, List.flatMap_nil]
      at keeps some each
    constructor <;>
      first
      | exact keeps _ _ (by simp) _ (by simp) ‹_›
      | exact some (by simp +contextual) (by simp +contextual) ‹_›
      | exact each (by simp +contextual) (by simp +contextual) ‹_›

theorem Alike.imp (alike : kind.Alike τ r kind') (weaker : ∀ σ i j, r σ i j → r' σ i j) :
    kind.Alike τ r' kind' := by
  have mapped : (kind.mapChildren id).Alike τ r' (kind'.mapChildren id) :=
    alike.mapChildren fun σ i _ j _ => weaker σ i j
  rwa [mapChildren_id, mapChildren_id] at mapped

/-- Slots correspond in order, with their names. -/
theorem Alike.slots (alike : kind.Alike τ r kind') :
    List.Forall₂ (fun entry entry' => entry.1.1 = entry'.1 ∧ entry.1.2.Alike (r entry.2) entry'.2)
      (kind.slots.zip kind.slotSorts) kind'.slots := by
  cases alike with
  | dynamicMemberReference accesses => exact .cons ⟨rfl, .one accesses.receiver⟩ .nil
  | dynamicInvocation accesses | dynamicIndexerAccess accesses =>
    exact .cons ⟨rfl, .one accesses.receiver⟩ (.cons ⟨rfl, .many accesses.arguments⟩ .nil)
  | dynamicObjectCreation accesses => exact .cons ⟨rfl, .many accesses.arguments⟩ .nil
  | _ =>
    repeat' first | exact List.Forall₂.nil | refine List.Forall₂.cons ⟨rfl, ?_⟩ ?_
    all_goals first | exact .one (.some ‹_›) | exact .one ‹_› | exact .many ‹_›

theorem Alike.slotAt (alike : kind.Alike τ r kind') (n : Nat) :
    Option.Rel (fun entry entry' => entry.1 = entry'.1 ∧
        ∃ σ, kind.slotSorts[n]? = some σ ∧ entry.2.Alike (r σ) entry'.2)
      kind.slots[n]? kind'.slots[n]? := by
  have length := kind.length_slotSorts
  have lengths := alike.slots.length_eq
  rw [List.length_zip, length, Nat.min_self] at lengths
  by_cases inside : n < kind.slots.length
  · have sort : kind.slotSorts[n]? = some kind.slotSorts[n] := List.getElem?_eq_getElem _
    have entry : kind.slots[n]? = some kind.slots[n] := List.getElem?_eq_getElem _
    have both : (kind.slots.zip kind.slotSorts)[n]? = some (kind.slots[n], kind.slotSorts[n]) :=
      List.getElem?_zip_eq_some.mpr ⟨entry, sort⟩
    have related := rel_getElem? alike.slots n
    rw [both] at related
    rw [entry]
    generalize kind'.slots[n]? = entry' at related
    cases related with
    | some related => exact .some ⟨related.1, _, sort, related.2⟩
  · have missing : kind.slots[n]? = none := List.getElem?_eq_none (by omega)
    have missing' : kind'.slots[n]? = none := List.getElem?_eq_none (by omega)
    rw [missing, missing']
    exact .none

/-- Children correspond position by position, each related as its slot asks for. -/
theorem Alike.childAt (alike : kind.Alike τ r kind') (position : SlotPosition) :
    Option.Rel (fun i j => ∃ σ, kind.slotSorts[position.slot]? = some σ ∧ r σ i j)
      (kind.childAt position) (kind'.childAt position) := by
  have slot := alike.slotAt position.slot
  unfold OperationKind.childAt
  generalize kind.slots[position.slot]? = entry at slot ⊢
  generalize kind'.slots[position.slot]? = entry' at slot ⊢
  cases slot with
  | none => exact .none
  | some related =>
    obtain ⟨_, σ, sort, related⟩ := related
    have children := rel_getElem? related.children position.place
    exact rel_imp (fun i j related => ⟨σ, sort, related⟩) children

theorem Alike.role (alike : kind.Alike τ r kind') : kind'.role = kind.role := by
  cases alike <;> rfl

theorem Alike.isPlaceholder (alike : kind.Alike τ r kind') :
    kind'.isPlaceholder = kind.isPlaceholder := by
  cases alike <;> rfl

theorem Alike.name (alike : kind.Alike τ r kind') : kind'.name = kind.name := by
  cases alike <;> rfl

/-- Nothing is renumbered and related children are the same: so are alike kinds. -/
theorem eq_of_alike (alike : kind.Alike .identity (fun _ => Eq) kind') : kind' = kind := by
  have single {a b : Option OperationId} (related : Option.Rel Eq a b) : b = a := by
    cases related with
    | none => rfl
    | some same => rw [same]
  have each {a b : List OperationId} (related : List.Forall₂ Eq a b) : b = a := by
    rw [List.forall₂_eq_eq_eq] at related
    exact related.symm
  have access {a b : DynamicAccess} (alike : a.Alike .identity (fun _ => Eq) b) : b = a := by
    have receiver := single alike.receiver
    have arguments := each alike.arguments
    obtain ⟨name, containing, typed, _, _, names, passings⟩ := alike
    cases a
    cases b
    simp_all [Translation.identity, Translation.renumbering]
  cases alike with
  | dynamicMemberReference alike | dynamicInvocation alike | dynamicIndexerAccess alike
  | dynamicObjectCreation alike => rw [access alike]
  | _ =>
    congr 1 <;> first
      | exact single ‹_›
      | exact each ‹_›
      | simp_all [Translation.identity, Translation.renumbering]

end OperationKind

theorem OperationKind.role_mapChildren (f : OperationId → OperationId) (kind : OperationKind) :
    (kind.mapChildren f).role = kind.role := by
  cases kind <;> rfl

namespace Operation

theorem isExpression_mapChildren (f : OperationId → OperationId) (o : Operation) :
    (o.mapChildren f).isExpression = o.isExpression :=
  congrArg (· == .expression) (OperationKind.role_mapChildren f o.kind)

/-- Operations are alike: they are of like kinds, and stand for nodes and have spans, types, constants
and marks that correspond. A statement has neither a type nor a constant. -/
structure Alike (τ : Translation) (r : SortedRelation) (o o' : Operation) : Prop where
  kind : o.kind.Alike τ r o'.kind
  origin : τ.nodes o.origin o'.origin
  span : τ.spans o.span o'.span
  type : o'.type = o.type.map τ.types
  constant : o'.constant = o.constant
  isImplicit : o'.isImplicit = o.isImplicit
  isSelfInvalid : o'.isSelfInvalid = o.isSelfInvalid
  valueless : o.isExpression = false → o.type = none ∧ o.constant = none

namespace Alike

variable {o o' : Operation} {kind kind' : OperationKind} {id id' : SyntaxId} {span span' : Span}

theorem plain (kinds : kind.Alike τ r kind') (nodes : τ.nodes id id')
    (spans : τ.spans span span') :
    (Operation.plain kind id span).Alike τ r (Operation.plain kind' id' span') where
  kind := kinds
  origin := nodes
  span := spans
  type := rfl
  constant := rfl
  isImplicit := rfl
  isSelfInvalid := kinds.isPlaceholder
  valueless _ := ⟨rfl, rfl⟩

theorem isExpression (alike : o.Alike τ r o') : o'.isExpression = o.isExpression := by
  rw [Operation.isExpression, Operation.isExpression, role, role, alike.kind.role]

theorem withType (alike : o.Alike τ r o') (type : Option TypeId) :
    (o.withType type).Alike τ r (o'.withType (type.map τ.types)) := by
  unfold Operation.withType
  rw [alike.isExpression]
  split
  · next value =>
    have valueless : o.isExpression = false → type = none ∧ o.constant = none :=
      fun statement => absurd value (Bool.eq_false_iff.mp statement)
    exact { alike with type := rfl, valueless }
  · exact alike

theorem withConstant (alike : o.Alike τ r o') (constant : Option Constant) :
    (o.withConstant constant).Alike τ r (o'.withConstant constant) := by
  unfold Operation.withConstant
  rw [alike.isExpression]
  split
  · next value =>
    have valueless : o.isExpression = false → o.type = none ∧ constant = none :=
      fun statement => absurd value (Bool.eq_false_iff.mp statement)
    exact { alike with constant := rfl, valueless }
  · exact alike

theorem implicit (alike : o.Alike τ r o') : o.implicit.Alike τ r o'.implicit :=
  { alike with isImplicit := rfl }

theorem invalidIf (alike : o.Alike τ r o') (invalid : Bool) :
    (o.invalidIf invalid).Alike τ r (o'.invalidIf invalid) :=
  { alike with isSelfInvalid := congrArg (· || invalid) alike.isSelfInvalid }

theorem mapChildren {f f' : OperationId → OperationId} (alike : o.Alike τ r o')
    (keeps : ∀ σ, ∀ i ∈ o.children, ∀ j ∈ o'.children, r σ i j → r' σ (f i) (f' j)) :
    (o.mapChildren f).Alike τ r' (o'.mapChildren f') :=
  { alike with
    kind := alike.kind.mapChildren keeps
    valueless := by
      rw [isExpression_mapChildren]
      exact alike.valueless }

theorem imp (alike : o.Alike τ r o') (weaker : ∀ σ i j, r σ i j → r' σ i j) :
    o.Alike τ r' o' :=
  { alike with kind := alike.kind.imp weaker }

end Alike

theorem eq_of_alike {o o' : Operation} (alike : o.Alike .identity (fun _ => Eq) o') : o' = o := by
  have kind := OperationKind.eq_of_alike alike.kind
  have origin : o.origin = o'.origin := alike.origin
  have span : o.span = o'.span := alike.span
  have type : o'.type = o.type.map id := alike.type
  have constant := alike.constant
  have isImplicit := alike.isImplicit
  have isSelfInvalid := alike.isSelfInvalid
  cases o
  cases o'
  simp_all

end Operation

end SemanticTrees
