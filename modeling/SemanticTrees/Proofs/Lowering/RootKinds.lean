import SemanticTrees.Program.Validity
import SemanticTrees.Proofs.Lowering.Roots

/-! The operations at the roots of trees. What is lowered below a root is the part that it computes,
a value or a body; the operation on top of it says what is declared. Which one it is depends on the
form of the root and on the symbol that is recorded for it: a declarator initializes a field only
when its symbol is one, and is a declaration of a variable when its symbol is something else. -/
namespace SemanticTrees

namespace Program

open Lowering

variable {p : Program} {options : LoweringOptions} {id part value : SyntaxId} {role : Role}
  {depth : Nat} {make : OperationId → OperationKind}

/-- A symbol is recorded for a node, and it is a field. -/
def DeclaresField (p : Program) (id : SyntaxId) (symbol : SymbolId) : Prop :=
  p.symbolOf id = some symbol ∧ ∃ s, p.symbols[symbol]? = some s ∧ s.kind = .field

/-- A symbol is recorded for a node, and it is no field; the symbol may be missing from the
table. -/
def DeclaresOther (p : Program) (id : SyntaxId) (symbol : SymbolId) : Prop :=
  p.symbolOf id = some symbol ∧ ∀ s, p.symbols[symbol]? = some s → s.kind ≠ .field

/-- The tree of a root is a part of the root, lowered by itself, with one operation on top: the
operation of the root, written in its place, around what the part is lowered to. -/
def RootedOver (p : Program) (options : LoweringOptions) (id : SyntaxId) (depth : Nat)
    (role : Role) (part : SyntaxId) (make : OperationId → OperationKind) : Prop :=
  ∃ lowered s t place,
    (walk p options depth (p.rootScope id) role part).run Store.empty = (lowered, s) ∧
      p.build options .pending id = .ok (some t) ∧
      (s.add (Operation.plain (make lowered) id (p.nodes.spanOf id))).Compacts s.size t place ∧
      t.get? t.root = some (Operation.plain (make (place lowered)) id (p.nodes.spanOf id))

/-- What the tree of a root has at the top. Of a declarator without a symbol nothing is said. -/
structure RootOperation (p : Program) (options : LoweringOptions) (id : SyntaxId) : Prop where
  analysed : ∃ form, p.formOf id = some form ∧ form.IsRoot
  fieldDeclarator : ∀ name value symbol,
    p.formOf id = some (.variableDeclarator name (some value)) → p.DeclaresField id symbol →
    p.RootedOver options id options.maxDepth .expression value (.fieldInitializer symbol)
  otherDeclarator : ∀ name value symbol,
    p.formOf id = some (.variableDeclarator name (some value)) → p.DeclaresOther id symbol →
    p.RootedOver options id (options.maxDepth - 1) .expression value
      fun lowered => .variableDeclarator (some symbol) (some lowered)
  property : ∀ name value, p.formOf id = some (.property name (some value)) →
    p.RootedOver options id options.maxDepth .expression value fun lowered =>
      match p.symbolOf id with
      | some symbol => .propertyInitializer symbol lowered
      | none => .invalidStatement [lowered]
  parameter : ∀ name value, p.formOf id = some (.parameter name (some value)) →
    p.RootedOver options id options.maxDepth .expression value fun lowered =>
      match p.symbolOf id with
      | some symbol => .parameterInitializer symbol lowered
      | none => .invalidStatement [lowered]
  method : ∀ name parameters body, p.formOf id = some (.method name parameters (some body)) →
    p.RootedOver options id options.maxDepth .statement body .methodBody

/-- A root that is lowered by lowering a part and adding one operation has that operation at the
top of its tree. -/
theorem rootedOver_of_run
    (natural : ∀ place lowered, (Operation.plain (make lowered) id (p.nodes.spanOf id)).mapChildren
      place = Operation.plain (make (place lowered)) id (p.nodes.spanOf id))
    (run : ((p.rootContext options id).lowerRoot id).run Store.empty =
      let (lowered, s) := (walk p options depth (p.rootScope id) role part).run Store.empty
      (some s.size, s.add (Operation.plain (make lowered) id (p.nodes.spanOf id)))) :
    p.RootedOver options id depth role part make := by
  obtain ⟨⟨lowered, s⟩, walked⟩ :
      ∃ r, (walk p options depth (p.rootScope id) role part).run Store.empty = r := ⟨_, rfl⟩
  rw [walked] at run
  let top := Operation.plain (make lowered) id (p.nodes.spanOf id)
  have built : p.tree? options id = some ((s.add top).finish p s.size) := by
    unfold tree?
    rw [run]
  obtain ⟨place, compacts⟩ := (s.add top).finish_compacts p s.size
  refine ⟨lowered, s, _, place, walked, congrArg Except.ok built, compacts, ?_⟩
  have stored : (s.add top).get? s.size = some top := (s.get?_add s.size).trans (if_pos rfl)
  have bound := (Array.getElem?_eq_some_iff.mp stored).1
  rw [compacts.top, compacts.kept s.size top (.refl bound) stored, natural]

theorem initializer_run {make : SymbolId → OperationId → OperationKind} (c : Context)
    (lowered : OperationId) (s : Store) :
    (c.initializer id lowered make).run s = (s.size, s.add (c.plain
      (match c.program.symbolOf id with
      | some symbol => make symbol lowered
      | none => .invalidStatement [lowered]) id)) := by
  unfold Context.initializer
  cases c.program.symbolOf id <;> rfl

/-- An initializer is its value with one operation on top, be there a symbol or not. -/
theorem rootedOver_of_initialized {make : SymbolId → OperationId → OperationKind}
    (natural : ∀ place symbol lowered, (make symbol lowered).mapChildren place =
      make symbol (place lowered))
    (plain : ∀ symbol lowered, (make symbol lowered).isPlaceholder = false)
    (initialized : (p.rootContext options id).lowerRoot id =
      (p.rootContext options id).initialized id (some value) make) :
    p.RootedOver options id options.maxDepth .expression value fun lowered =>
      match p.symbolOf id with
      | some symbol => make symbol lowered
      | none => .invalidStatement [lowered] := by
  apply rootedOver_of_run
  · intro place lowered
    cases p.symbolOf id with
    | some symbol => simp [Operation.plain, Operation.mapChildren, natural, plain]
    | none => rfl
  · rw [initialized]
    exact congrArg (fun r : OperationId × Store => (some r.1, r.2)) (initializer_run _ _ _)

section Declarator

variable {name : String} {symbol : SymbolId}
  (known : p.formOf id = some (.variableDeclarator name (some value)))
include known

/-- As a statement, a declarator is its value with a declaration of a variable on top. -/
theorem walk_declarator_eq (depth : Nat) (scope : Scope) :
    walk p options (depth + 1) scope .statement id =
      (walk p options depth scope .expression value >>= fun lowered =>
        emit (Operation.plain (.variableDeclarator (p.symbolOf id) (some lowered)) id
          (p.nodes.spanOf id))) := by
  have form : (⟨p, options, scope, walk p options depth⟩ : Context).formOf id = _ := known
  rw [walk]
  unfold Context.lowerStatement
  rw [form]
  change Context.declarator _ false id = _
  unfold Context.declarator
  rw [form]
  rfl

/-- The declarator of a field is an initializer. -/
theorem rootedOver_of_declaresField (declares : p.DeclaresField id symbol) :
    p.RootedOver options id options.maxDepth .expression value (.fieldInitializer symbol) := by
  obtain ⟨recorded, s, found, isField⟩ := declares
  have form : (p.rootContext options id).formOf id = _ := known
  have symbolAt : (p.rootContext options id).symbolAt id = some s := by
    unfold Context.symbolAt Context.symbol?
    exact (congrArg (Option.bind · _) recorded).trans found
  have initialized : (p.rootContext options id).lowerRoot id =
      (p.rootContext options id).initialized id (some value) .fieldInitializer := by
    unfold Context.lowerRoot
    rw [form]
    dsimp only
    rw [if_pos (by rw [symbolAt]; simp [isField])]
  have rooted := rootedOver_of_initialized (fun _ _ _ => rfl) (fun _ _ => rfl) initialized
  rwa [recorded] at rooted

/-- Any other declarator with a symbol is lowered as the statement that it is. -/
theorem rootedOver_of_declaresOther (deep : 1 ≤ options.maxDepth)
    (declares : p.DeclaresOther id symbol) :
    p.RootedOver options id (options.maxDepth - 1) .expression value
      fun lowered => .variableDeclarator (some symbol) (some lowered) := by
  obtain ⟨recorded, other⟩ := declares
  have form : (p.rootContext options id).formOf id = _ := known
  have noField : ¬((p.rootContext options id).symbolAt id).any fun s => s.kind == .field := by
    unfold Context.symbolAt
    rw [show (p.rootContext options id).program.symbolOf id = _ from recorded]
    cases found : p.symbols[symbol]? with
    | none => simp [Context.symbol?, rootContext, found]
    | some s => simp [Context.symbol?, rootContext, found, other s found]
  obtain ⟨depth, same⟩ := Nat.exists_eq_add_of_le' deep
  apply rootedOver_of_run
  · exact fun _ _ => rfl
  · unfold Context.lowerRoot
    rw [form]
    dsimp only
    rw [if_neg noField]
    change (some <$> walk p options options.maxDepth (p.rootScope id) .statement id).run _ = _
    rw [same, walk_declarator_eq known, recorded]
    rfl

end Declarator

/-- Below the top, the tree of a root is the part that the root computes. At the top a property or a
parameter is an initializer, or a placeholder when no symbol is recorded; a method is a body; and a
declarator is an initializer when its symbol is a field, and a declaration of a variable when its
symbol is something else. -/
theorem rootOperation_of_mem_roots (deep : 1 ≤ options.maxDepth) (listed : id ∈ p.roots) :
    p.RootOperation options id where
  analysed := form_of_mem_roots listed
  fieldDeclarator _ _ _ known declares := rootedOver_of_declaresField known declares
  otherDeclarator _ _ _ known declares := rootedOver_of_declaresOther known deep declares
  property name value known := by
    apply rootedOver_of_initialized (fun _ _ _ => rfl) (fun _ _ => rfl)
    unfold Context.lowerRoot
    rw [show (p.rootContext options id).formOf id = _ from known]
  parameter name value known := by
    apply rootedOver_of_initialized (fun _ _ _ => rfl) (fun _ _ => rfl)
    unfold Context.lowerRoot
    rw [show (p.rootContext options id).formOf id = _ from known]
  method name parameters body known := by
    apply rootedOver_of_run (fun _ _ => rfl)
    unfold Context.lowerRoot
    rw [show (p.rootContext options id).formOf id = _ from known]
    rfl

/-- A declaration of fields whose only declarator has a local variable as its symbol. -/
def localInField : Program :=
  { empty "local" with
    nodes := #[⟨.zero, .literal "1"⟩, ⟨.zero, .variableDeclarator "x" (some 0)⟩,
      ⟨.zero, .field [1]⟩]
    symbols := #[.plain "x" .localVariable none]
    members := [2]
    facts := Std.TreeMap.empty.insert 1 { Facts.unknown with symbol := some 0 } }

theorem localInField_rootOperation :
    localInField.validate = .ok () ∧ 1 ∈ localInField.roots ∧ localInField.DeclaresOther 1 0 ∧
      localInField.RootOperation {} 1 :=
  ⟨rfl, by decide, ⟨rfl, by rintro _ ⟨⟩; decide⟩,
    rootOperation_of_mem_roots (by decide) (by decide)⟩

/-- Not every declarator of a field with a symbol is an initializer at the root of its tree. -/
theorem declarator_not_always_initializer :
    ¬∀ (p : Program) (options : LoweringOptions) (id : SyntaxId), p.validate = .ok () →
      1 ≤ options.maxDepth → id ∈ p.roots →
      (∃ name value, p.formOf id = some (.variableDeclarator name value)) →
      ∃ t o, p.build options .pending id = .ok (some t) ∧ t.get? t.root = some o ∧
        ((∃ symbol lowered, o.kind = .fieldInitializer symbol lowered) ∨
          p.symbolOf id = none ∧ ∃ lowered, o.kind = .invalidStatement [lowered]) := by
  intro claim
  obtain ⟨t, o, built, top, kind⟩ :=
    claim localInField {} 1 rfl (by decide) (by decide) ⟨"x", some 0, rfl⟩
  have drawn : ((localInField.tree? {} 1).bind fun t => t.get? t.root).map Operation.kind =
      some (.variableDeclarator (some 0) (some 0)) := by decide +kernel
  rw [build_eq_ok built, Option.bind_some, top] at drawn
  obtain ⟨_, _, field⟩ | ⟨none, _⟩ := kind
  · have other := Option.some.inj (drawn.symm.trans (congrArg some field))
    contradiction
  · have recorded : localInField.symbolOf 1 = some 0 := rfl
    rw [recorded] at none
    contradiction

end Program

end SemanticTrees
