import SemanticTrees.Proofs.Lowering.Callees

/-! Translations between programs. A translation says which nodes of one program stand for which
nodes of another one, and how types and symbols are renumbered. Forms and facts are alike when they
differ only as the translation says; a program translates another one when all that lowering looks
at is alike. -/
namespace SemanticTrees

section Related

variable {α β γ δ : Type} {R : α → β → Prop} {S : γ → δ → Prop} {f : α → γ} {g : β → δ}

theorem rel_map {a : Option α} {b : Option β}
    (keeps : ∀ x ∈ a, ∀ y ∈ b, R x y → S (f x) (g y)) (related : Option.Rel R a b) :
    Option.Rel S (a.map f) (b.map g) := by
  cases related with
  | none => exact .none
  | some related => exact .some (keeps _ rfl _ rfl related)

theorem rel_imp_of_mem {S : α → β → Prop} {a : Option α} {b : Option β}
    (weaker : ∀ x ∈ a, ∀ y ∈ b, R x y → S x y) (related : Option.Rel R a b) :
    Option.Rel S a b := by
  cases related with
  | none => exact .none
  | some related => exact .some (weaker _ rfl _ rfl related)

theorem rel_imp {S : α → β → Prop} (weaker : ∀ x y, R x y → S x y) {a : Option α} {b : Option β}
    (related : Option.Rel R a b) : Option.Rel S a b :=
  rel_imp_of_mem (fun x _ y _ => weaker x y) related

theorem forall₂_mem {a : List α} {b : List β} (related : List.Forall₂ R a b) :
    List.Forall₂ (fun x y => x ∈ a ∧ y ∈ b ∧ R x y) a b := by
  induction related with
  | nil => exact .nil
  | cons first _ ih =>
    refine .cons ⟨List.mem_cons_self, List.mem_cons_self, first⟩ (ih.imp ?_)
    rintro x y ⟨left, right, related⟩
    exact ⟨List.mem_cons_of_mem _ left, List.mem_cons_of_mem _ right, related⟩

theorem forall₂_map {a : List α} {b : List β}
    (keeps : ∀ x ∈ a, ∀ y ∈ b, R x y → S (f x) (g y)) (related : List.Forall₂ R a b) :
    List.Forall₂ S (a.map f) (b.map g) := by
  rw [List.forall₂_map_left_iff, List.forall₂_map_right_iff]
  exact (forall₂_mem related).imp fun x y ⟨left, right, related⟩ => keeps x left y right related

theorem map_eq_of_forall₂ {ε : Type} {f : α → ε} {g : β → ε} {a : List α} {b : List β}
    (same : ∀ x y, R x y → g y = f x) (related : List.Forall₂ R a b) : b.map g = a.map f := by
  induction related with
  | nil => rfl
  | cons first _ ih => rw [List.map_cons, List.map_cons, ih, same _ _ first]

theorem rel_getElem? {a : List α} {b : List β} (related : List.Forall₂ R a b) (n : Nat) :
    Option.Rel R a[n]? b[n]? := by
  induction related generalizing n with
  | nil => exact .none
  | cons first _ ih =>
    cases n with
    | zero => exact .some first
    | succ n => exact ih n

theorem forall₂_of_rel_getElem? {a : List α} {b : List β}
    (related : ∀ n : Nat, Option.Rel R a[n]? b[n]?) : List.Forall₂ R a b := by
  induction a generalizing b with
  | nil =>
    cases b with
    | nil => exact .nil
    | cons y b => cases related 0
  | cons x a ih =>
    cases b with
    | nil => cases related 0
    | cons y b =>
      cases related 0 with
      | some first => exact .cons first (ih fun n => related (n + 1))

theorem forall₂_toList {a : Option α} {b : Option β} (related : Option.Rel R a b) :
    List.Forall₂ R a.toList b.toList := by
  cases related with
  | none => exact .nil
  | some related => exact .cons related .nil

theorem exists_mem_of_forall₂ {a : List α} {b : List β} (related : List.Forall₂ R a b) {x : α}
    (listed : x ∈ a) : ∃ y ∈ b, R x y := by
  induction related with
  | nil => contradiction
  | cons first _ ih =>
    obtain rfl | later := List.mem_cons.mp listed
    · exact ⟨_, List.mem_cons_self, first⟩
    · obtain ⟨y, found, related⟩ := ih later
      exact ⟨y, List.mem_cons_of_mem _ found, related⟩

end Related

/-- How the nodes, types and symbols of one program are read as those of another one. -/
structure Translation where
  /-- Nodes of like forms with like facts. -/
  same : SyntaxId → SyntaxId → Prop
  /-- Nodes that stand for one another where a node is lowered and not taken apart. -/
  nodes : SyntaxId → SyntaxId → Prop
  /-- Nodes that stand for one another where a node is called. -/
  callees : SyntaxId → SyntaxId → Prop
  types : TypeId → TypeId
  symbols : SymbolId → SymbolId
  spans : Span → Span → Prop
  nodes_of_same : ∀ {id id'}, same id id' → nodes id id'
  nodes_of_callees : ∀ {id id'}, callees id id' → nodes id id'

namespace Translation

/-- Every node stands for itself. -/
def renumbering (types : TypeId → TypeId) (symbols : SymbolId → SymbolId)
    (spans : Span → Span → Prop) : Translation :=
  ⟨Eq, Eq, Eq, types, symbols, spans, fun same => same, fun same => same⟩

/-- Nothing is renumbered, and every node stands for itself. -/
def identity : Translation := renumbering id id Eq

end Translation

variable {τ : Translation}

/-- Jumps are alike when they lead to the same label, or to like cases. -/
inductive JumpTarget.Alike (τ : Translation) : JumpTarget → JumpTarget → Prop
  | label (name : String) : Alike τ (.label name) (.label name)
  | caseOf {value value' : SyntaxId} (alike : τ.nodes value value') :
      Alike τ (.caseOf value) (.caseOf value')
  | defaultCase : Alike τ .defaultCase .defaultCase

/-- Forms are alike when one is the other with its nodes replaced and its types renumbered. The
nodes that lowering takes apart by their own forms, which are callees and what declares variables,
are replaced only by nodes that are taken apart in the same way. -/
inductive Form.Alike (τ : Translation) : Form → Form → Prop
  | literal (text : String) : Alike τ (.literal text) (.literal text)
  | identifier (name : String) : Alike τ (.identifier name) (.identifier name)
  | this : Alike τ .this .this
  | memberAccess {receiver receiver' : SyntaxId} (name : String) (typeArguments : List TypeId)
      (receivers : τ.nodes receiver receiver') :
      Alike τ (.memberAccess receiver name typeArguments)
        (.memberAccess receiver' name (typeArguments.map τ.types))
  | invocation {callee callee' : SyntaxId} {arguments arguments' : List SyntaxId}
      (callees : τ.callees callee callee') (values : List.Forall₂ τ.nodes arguments arguments') :
      Alike τ (.invocation callee arguments) (.invocation callee' arguments')
  | elementAccess {receiver receiver' : SyntaxId} {arguments arguments' : List SyntaxId}
      (receivers : τ.nodes receiver receiver')
      (values : List.Forall₂ τ.nodes arguments arguments') :
      Alike τ (.elementAccess receiver arguments) (.elementAccess receiver' arguments')
  | argument {expression expression' : SyntaxId} (name : Option String) (passing : Passing)
      (values : τ.nodes expression expression') :
      Alike τ (.argument name passing expression) (.argument name passing expression')
  | objectCreation {arguments arguments' : List SyntaxId} (type : TypeId)
      (values : List.Forall₂ τ.nodes arguments arguments') :
      Alike τ (.objectCreation type arguments) (.objectCreation (τ.types type) arguments')
  | binary {left left' right right' : SyntaxId} (operator : BinaryOperator)
      (lefts : τ.nodes left left') (rights : τ.nodes right right') :
      Alike τ (.binary operator left right) (.binary operator left' right')
  | unary {operand operand' : SyntaxId} (operator : UnaryOperator)
      (operands : τ.nodes operand operand') :
      Alike τ (.unary operator operand) (.unary operator operand')
  | assignment {target target' value value' : SyntaxId} (operator : Option BinaryOperator)
      (targets : τ.nodes target target') (values : τ.nodes value value') :
      Alike τ (.assignment operator target value) (.assignment operator target' value')
  | addressOf {operand operand' : SyntaxId} (operands : τ.nodes operand operand') :
      Alike τ (.addressOf operand) (.addressOf operand')
  | cast {operand operand' : SyntaxId} (type : TypeId) (operands : τ.nodes operand operand') :
      Alike τ (.cast type operand) (.cast (τ.types type) operand')
  | parenthesized {inner inner' : SyntaxId} (inners : τ.nodes inner inner') :
      Alike τ (.parenthesized inner) (.parenthesized inner')
  | lambda {parameters parameters' : List SyntaxId} {body body' : SyntaxId}
      (declared : List.Forall₂ τ.nodes parameters parameters') (bodies : τ.nodes body body') :
      Alike τ (.lambda parameters body) (.lambda parameters' body')
  | missing : Alike τ .missing .missing
  | block {statements statements' : List SyntaxId}
      (inside : List.Forall₂ τ.nodes statements statements') :
      Alike τ (.block statements) (.block statements')
  | expressionStatement {expression expression' : SyntaxId}
      (values : τ.nodes expression expression') :
      Alike τ (.expressionStatement expression) (.expressionStatement expression')
  | localDeclaration {declarators declarators' : List SyntaxId} (type : Option TypeId)
      (declared : List.Forall₂ τ.same declarators declarators') :
      Alike τ (.localDeclaration type declarators)
        (.localDeclaration (type.map τ.types) declarators')
  | variableDeclarator {initializer initializer' : Option SyntaxId} (name : String)
      (values : Option.Rel τ.nodes initializer initializer') :
      Alike τ (.variableDeclarator name initializer) (.variableDeclarator name initializer')
  | ifThen {condition condition' thenBranch thenBranch' : SyntaxId}
      {elseBranch elseBranch' : Option SyntaxId} (conditions : τ.nodes condition condition')
      (holds : τ.nodes thenBranch thenBranch')
      (fails : Option.Rel τ.nodes elseBranch elseBranch') :
      Alike τ (.ifThen condition thenBranch elseBranch)
        (.ifThen condition' thenBranch' elseBranch')
  | whileLoop {condition condition' body body' : SyntaxId}
      (conditions : τ.nodes condition condition') (bodies : τ.nodes body body') :
      Alike τ (.whileLoop condition body) (.whileLoop condition' body')
  | forLoop {initializers initializers' : List SyntaxId} {condition condition' : Option SyntaxId}
      {incrementors incrementors' : List SyntaxId} {body body' : SyntaxId}
      (starts : List.Forall₂ τ.nodes initializers initializers')
      (conditions : Option.Rel τ.nodes condition condition')
      (advances : List.Forall₂ τ.nodes incrementors incrementors')
      (bodies : τ.nodes body body') :
      Alike τ (.forLoop initializers condition incrementors body)
        (.forLoop initializers' condition' incrementors' body')
  | switch {expression expression' : SyntaxId} {sections sections' : List SyntaxId}
      (values : τ.nodes expression expression')
      (entries : List.Forall₂ τ.nodes sections sections') :
      Alike τ (.switch expression sections) (.switch expression' sections')
  | switchSection {labels labels' statements statements' : List SyntaxId}
      (marks : List.Forall₂ τ.nodes labels labels')
      (inside : List.Forall₂ τ.nodes statements statements') :
      Alike τ (.switchSection labels statements) (.switchSection labels' statements')
  | caseLabel {value value' : Option SyntaxId} (values : Option.Rel τ.nodes value value') :
      Alike τ (.caseLabel value) (.caseLabel value')
  | breakJump : Alike τ .breakJump .breakJump
  | continueJump : Alike τ .continueJump .continueJump
  | goto {target target' : JumpTarget} (targets : target.Alike τ target') :
      Alike τ (.goto target) (.goto target')
  | labeled {statement statement' : SyntaxId} (label : String)
      (inside : τ.nodes statement statement') :
      Alike τ (.labeled label statement) (.labeled label statement')
  | returnJump {expression expression' : Option SyntaxId}
      (values : Option.Rel τ.nodes expression expression') :
      Alike τ (.returnJump expression) (.returnJump expression')
  | empty : Alike τ .empty .empty
  | fixed {declaration declaration' body body' : SyntaxId}
      (declared : τ.same declaration declaration') (bodies : τ.nodes body body') :
      Alike τ (.fixed declaration body) (.fixed declaration' body')
  | lock {expression expression' body body' : SyntaxId}
      (values : τ.nodes expression expression') (bodies : τ.nodes body body') :
      Alike τ (.lock expression body) (.lock expression' body')
  | usingResource {resource resource' body body' : SyntaxId}
      (resources : τ.nodes resource resource') (bodies : τ.nodes body body') :
      Alike τ (.usingResource resource body) (.usingResource resource' body')
  | method {parameters parameters' : List SyntaxId} {body body' : Option SyntaxId} (name : String)
      (declared : List.Forall₂ τ.nodes parameters parameters')
      (bodies : Option.Rel τ.nodes body body') :
      Alike τ (.method name parameters body) (.method name parameters' body')
  | parameter {default default' : Option SyntaxId} (name : String)
      (values : Option.Rel τ.nodes default default') :
      Alike τ (.parameter name default) (.parameter name default')
  | field {declarators declarators' : List SyntaxId}
      (declared : List.Forall₂ τ.nodes declarators declarators') :
      Alike τ (.field declarators) (.field declarators')
  | property {initializer initializer' : Option SyntaxId} (name : String)
      (values : Option.Rel τ.nodes initializer initializer') :
      Alike τ (.property name initializer) (.property name initializer')
  | typeDeclaration {members members' : List SyntaxId} (name : String)
      (declared : List.Forall₂ τ.nodes members members') :
      Alike τ (.typeDeclaration name members) (.typeDeclaration name members')

/-- What forms are made of stands for one another. -/
theorem Form.Alike.children {form form' : Form} (alike : form.Alike τ form') :
    List.Forall₂ τ.nodes form.children form'.children := by
  cases alike with
  | invocation callees values => exact .cons (τ.nodes_of_callees callees) values
  | localDeclaration type declared => exact declared.imp fun _ _ => τ.nodes_of_same
  | fixed declared bodies => exact .cons (τ.nodes_of_same declared) (.cons bodies .nil)
  | goto targets =>
    cases targets with
    | label name => exact .nil
    | caseOf alike => exact .cons alike .nil
    | defaultCase => exact .nil
  | lambda declared bodies => exact List.rel_append declared (.cons bodies .nil)
  | method name declared bodies => exact List.rel_append declared (forall₂_toList bodies)
  | switchSection marks inside => exact List.rel_append marks inside
  | ifThen conditions holds fails => exact .cons conditions (.cons holds (forall₂_toList fails))
  | forLoop starts conditions advances bodies =>
    exact List.rel_append (List.rel_append (List.rel_append starts (forall₂_toList conditions))
      advances) (.cons bodies .nil)
  | variableDeclarator name values | caseLabel values | returnJump values
  | parameter name values | property name values => exact forall₂_toList values
  | _ =>
    repeat' first | assumption | exact List.Forall₂.nil | refine List.Forall₂.cons ?_ ?_

/-- What nodes of like forms are made of stands for one another. -/
theorem Program.childrenOf_alike {p p' : Program} {id id' : SyntaxId}
    (form : Option.Rel (Form.Alike τ) (p.formOf id) (p'.formOf id')) :
    List.Forall₂ τ.nodes (p.nodes.childrenOf id) (p'.nodes.childrenOf id') := by
  rw [childrenOf_eq, childrenOf_eq]
  generalize p.formOf id = found at form
  generalize p'.formOf id' = found' at form
  cases form with
  | none => exact .nil
  | some alike => exact alike.children

/-- A form is neither a member of something nor a bare name. -/
def Form.IsComputed : Form → Prop
  | .memberAccess .. | .identifier _ => False
  | _ => True

/-- What is at nodes that stand for one another: like forms, nothing, or an expression and the same in
parentheses. -/
inductive Form.Stands (τ : Translation) : Option Form → Option Form → Prop
  | missing : Stands τ none none
  | alike {form form' : Form} (alike : form.Alike τ form') : Stands τ (some form) (some form')
  | wrapped {form : Form} {inner : SyntaxId} (expression : form.isExpression = true) :
      Stands τ (some form) (some (.parenthesized inner))

/-- Bindings are alike when their parameters correspond and their arguments are alike. -/
structure Binding.Alike (τ : Translation) (binding binding' : Binding) : Prop where
  parameter : binding'.parameter = τ.symbols binding.parameter
  kind : binding'.kind = binding.kind
  argument : Option.Rel τ.nodes binding.argument binding'.argument

inductive Resolution.Alike (τ : Translation) : Resolution → Resolution → Prop
  | resolved {bindings bindings' : List Binding} (member : SymbolId)
      (bound : List.Forall₂ (Binding.Alike τ) bindings bindings') :
      Alike τ (.resolved member bindings) (.resolved (τ.symbols member) bindings')
  | lateBound (candidates : List SymbolId) :
      Alike τ (.lateBound candidates) (.lateBound (candidates.map τ.symbols))
  | failed (reason : FailureReason) (candidates : List SymbolId) :
      Alike τ (.failed reason candidates) (.failed reason (candidates.map τ.symbols))

namespace Conversion

/-- A conversion with its target renumbered. -/
def rename (types : TypeId → TypeId) (conversion : Conversion) : Conversion :=
  { conversion with target := types conversion.target }

end Conversion

namespace Symbol

/-- A symbol with what it refers to renumbered. -/
def rename (types : TypeId → TypeId) (symbols : SymbolId → SymbolId) (symbol : Symbol) : Symbol :=
  { symbol with
    type := symbol.type.map types
    containingType := symbol.containingType.map types
    parameters := symbol.parameters.map symbols }

end Symbol

namespace Program

/-- The name of a type stands at a node. -/
def NamesType (p : Program) (id : SyntaxId) : Prop :=
  ∃ symbol info, p.symbolOf id = some symbol ∧ p.symbols[symbol]? = some info ∧ info.kind = .type

def dynamicType (p : Program) : Option TypeId :=
  p.types.findIdx? fun info => info.kind == .dynamic

/-- A node of one program is an expression; the node that stands for it in another one is the
expression in parentheses. -/
def Wraps (p p' : Program) (id id' : SyntaxId) : Prop :=
  (∃ form, p.formOf id = some form ∧ form.isExpression = true) ∧
    ∃ inner, p'.formOf id' = some (.parenthesized inner)

/-- A node is neither a member of something nor a bare name. -/
def IsComputed (p : Program) (id : SyntaxId) : Prop :=
  ∃ form, p.formOf id = some form ∧ form.IsComputed

/-- Whatever lowering looks at in one program is alike in another one. -/
structure Translates (τ : Translation) (p p' : Program) : Prop where
  same_or_wraps : ∀ {id id'}, τ.nodes id id' → τ.same id id' ∨ p.Wraps p' id id'
  same_or_computed : ∀ {id id'}, τ.callees id id' →
    τ.same id id' ∨ p.IsComputed id ∧ ∃ inner, p'.formOf id' = some (.parenthesized inner)
  form : ∀ {id id'}, τ.same id id' → Option.Rel (Form.Alike τ) (p.formOf id) (p'.formOf id')
  symbolOf : ∀ {id id'}, τ.same id id' → p'.symbolOf id' = (p.symbolOf id).map τ.symbols
  conversionOf : ∀ {id id'}, τ.same id id' →
    p'.conversionOf id' = (p.conversionOf id).map (Conversion.rename τ.types)
  resolutionOf : ∀ {id id'}, τ.same id id' →
    Option.Rel (Resolution.Alike τ) (p.resolutionOf id) (p'.resolutionOf id')
  typeOf : ∀ {id id'}, τ.nodes id id' → p'.typeOf id' = (p.typeOf id).map τ.types
  constantOf : ∀ {id id'}, τ.nodes id id' → p'.constantOf id' = p.constantOf id
  namesType : ∀ {id id'}, τ.nodes id id' → (p'.NamesType id' ↔ p.NamesType id)
  holdsLambda : ∀ {id id'}, τ.nodes id id' → (p'.HoldsLambda id' ↔ p.HoldsLambda id)
  isLateCallee : ∀ {id id'}, τ.callees id id' → (p'.IsLateCallee id' ↔ p.IsLateCallee id)
  spanOf : ∀ {id id'}, τ.nodes id id' → τ.spans (p.nodes.spanOf id) (p'.nodes.spanOf id')
  behind : ∀ {span span'}, τ.spans span span' →
    τ.spans (Span.point span.stop) (Span.point span'.stop)
  labelsBelow : ∀ {body body' statements}, τ.same body body' →
    p.formOf body = some (.block statements) →
    ∀ label, label ∈ p'.labelsBelow body' ↔ label ∈ p.labelsBelow body
  symbol : ∀ symbol : SymbolId,
    p'.symbols[τ.symbols symbol]? = p.symbols[symbol]?.map (Symbol.rename τ.types τ.symbols)
  symbols_inj : Function.Injective τ.symbols
  isDynamic : ∀ type, p'.types.isDynamic (τ.types type) = p.types.isDynamic type
  isReference : ∀ type, p'.types.isReference (τ.types type) = p.types.isReference type
  isArray : ∀ type, p'.types.isArray (τ.types type) = p.types.isArray type
  dynamicType : p'.dynamicType = p.dynamicType.map τ.types

end Program

end SemanticTrees
