import SemanticTrees.Proofs.Lowering.Invariants

/-! What a store answers for a node. The entry of a node leads to an operation that was written for
it, or, when the node is parenthesized, to one that was made for an expression inside. Courses keep
this whatever is shared, left behind or cut off, since an expression is always lowered to an
operation that was made for it or for the expression that it holds. -/
namespace SemanticTrees

/-- A node leaves its operation to the expression that it holds. -/
def Program.Forwards (p : Program) (id inner : SyntaxId) : Prop :=
  p.formOf id = some (.parenthesized inner) ∨
    ∃ name passing, p.formOf id = some (.argument name passing inner)

/-- An operation answers for a node: it was written for the node, or the node is parenthesized and
the operation was made for what is found by going from expression to expression inside. -/
def Operation.AnswersFor (o : Operation) (p : Program) (node : SyntaxId) : Prop :=
  o.isImplicit = false ∧ o.origin = node ∨
    (∃ inner, p.formOf node = some (.parenthesized inner)) ∧
      Relation.TransGen p.Forwards node o.origin

namespace Store

/-- An operation was made for a node or for an expression that the node holds. -/
def Represents (s : Store) (p : Program) (id : SyntaxId) (i : OperationId) : Prop :=
  ∃ o, s.get? i = some o ∧ Relation.ReflTransGen p.Forwards id o.origin

/-- Entries lead to operations that answer for their nodes. -/
def Answers (s : Store) (p : Program) : Prop :=
  ∀ node i, s.origins[node]? = some i → ∃ o, s.get? i = some o ∧ o.AnswersFor p node

variable {s : Store} {p : Program} {o : Operation} {id inner : SyntaxId} {i : OperationId}

theorem answers_empty : Store.empty.Answers p := by simp [Answers, Store.empty]

theorem Answers.add (answers : s.Answers p) (o : Operation) : (s.add o).Answers p := by
  intro node i known
  rw [origins_add] at known
  split at known
  · next own =>
    obtain rfl := Option.some.inj known
    exact ⟨o, (s.get?_add s.size).trans (if_pos rfl), .inl own⟩
  · obtain ⟨o', found, answers⟩ := answers node i known
    exact ⟨o', s.extends_add o i o' found, answers⟩

theorem Answers.associate (answers : s.Answers p) (form : p.formOf id = some (.parenthesized inner))
    (represents : s.Represents p inner i) : (s.associate id i).Answers p := by
  intro node j known
  obtain ⟨rfl, rfl, _⟩ | old := origins_associate known
  · obtain ⟨o, found, path⟩ := represents
    exact ⟨o, found, .inr ⟨⟨inner, form⟩, .head' (.inl form) path⟩⟩
  · exact answers node j old

end Store

namespace Context

open Lowering

variable {c : Context} {id receiver : SyntaxId} {symbol : SymbolId}
  {candidates : List SymbolId}

/-- A step gives an operation that was made for a node or for an expression that the node holds. -/
def Represents (c : Context) (id : SyntaxId) (m : Lowering OperationId) : Prop :=
  Yields m fun s i => s.Represents c.program id i

/-- Expressions are lowered to operations that were made for them or for what they hold. -/
def WalksRepresent (c : Context) : Prop :=
  ∀ scope id, c.Represents id (c.walk scope .expression id)

namespace Represents

theorem bind {α : Type} {m : Lowering α} {f : α → Lowering OperationId}
    (last : ∀ a, c.Represents id (f a)) : c.Represents id (m >>= f) :=
  Yields.bind last

theorem emit {o : Operation} (origin : o.origin = id) : c.Represents id (Lowering.emit o) := by
  intro s
  exact ⟨o, get?_emit s o, origin ▸ .refl⟩

theorem of_addsCall {form : Form} {m : Lowering OperationId} (adds : c.AddsCall id form m) :
    c.Represents id m := by
  intro s
  obtain ⟨o, found, origin, _⟩ := adds s
  exact ⟨o, found, origin ▸ .refl⟩

end Represents

theorem reference_represents (receiver : Option OperationId) :
    c.Represents id (c.reference id symbol receiver) := by
  unfold reference
  split
  · exact .emit origin_valued
  · exact .emit (by simp)

theorem lateBoundMember_represents (receiver : Option SyntaxId) (name : String)
    (typeArguments : List TypeId) (called : Bool) :
    c.Represents id (c.lateBoundMember id receiver name typeArguments candidates called) := by
  unfold lateBoundMember
  exact .bind fun receiver => .emit (by simp)

theorem name_represents (text : String) : c.Represents id (c.name id text) := by
  unfold name
  split
  · exact lateBoundMember_represents none text [] false
  · split
    · exact .emit (by simp)
    · exact .bind fun receiver => reference_represents receiver

theorem memberAccess_represents (name : String) (typeArguments : List TypeId) :
    c.Represents id (c.memberAccess id receiver name typeArguments) := by
  unfold memberAccess
  split
  · exact lateBoundMember_represents _ _ _ _
  · split
    · exact .bind fun receiver => reference_represents receiver
    · exact .bind fun receiver => .emit (by simp)

theorem assignment_represents (operator : Option BinaryOperator) (target value : SyntaxId) :
    c.Represents id (c.assignment id operator target value) := by
  unfold assignment
  refine .bind fun target => .bind fun value => ?_
  cases operator with
  | none => exact .emit origin_valued
  | some operator => exact .emit origin_valued

namespace WalksRepresent

variable (h : c.WalksRepresent)
include h

theorem forwarded {inner : SyntaxId} (forwards : c.program.Forwards id inner) :
    c.Represents id (c.expression inner) := by
  intro s
  obtain ⟨o, found, path⟩ := h c.scope inner s
  exact ⟨o, found, .head forwards path⟩

theorem expressionForm (grows : WalkExtends c.walk) :
    c.Represents id (c.expressionForm id (c.formOf id)) := by
  cases found : c.formOf id with
  | none => exact .emit (by simp)
  | some form =>
    cases form with
    | literal text | this => exact .emit origin_valued
    | identifier name => exact name_represents name
    | memberAccess receiver name typeArguments => exact memberAccess_represents name typeArguments
    | invocation callee arguments => exact .of_addsCall (invocation_adds grows)
    | elementAccess receiver arguments => exact .of_addsCall (elementAccess_adds grows)
    | argument name passing expression => exact h.forwarded (.inr ⟨name, passing, found⟩)
    | objectCreation type arguments => exact .of_addsCall (objectCreation_adds grows)
    | binary operator left right => exact .bind fun left => .bind fun right => .emit origin_valued
    | unary operator operand => exact .bind fun operand => .emit origin_valued
    | assignment operator target value => exact assignment_represents operator target value
    | addressOf operand => exact .bind fun reference => .emit origin_valued
    | cast type operand => exact .bind fun operand => .emit (by simp)
    | parenthesized inner => exact h.forwarded (.inl found)
    | lambda parameters body => exact .bind fun body => .emit origin_valued
    | _ => exact .emit (by simp)

/-- The conversion that a context requires is made for the expression itself. -/
theorem lowerExpression (grows : WalkExtends c.walk) : c.Represents id (c.lowerExpression id) := by
  intro s
  obtain ⟨o, found, path⟩ := h.expressionForm grows s
  obtain ⟨older, converts⟩ := lowerExpression_converts (c := c) id s
  unfold Converts at converts
  split at converts
  · rw [converts]
    exact ⟨o, older _ o found, path⟩
  · obtain ⟨o', found', _, origin, _⟩ := converts
    exact ⟨o', found', origin ▸ .refl⟩

end WalksRepresent

end Context

namespace Program

open Lowering

variable {p : Program} {options : LoweringOptions} {id node : SyntaxId} {t : OperationTree}
  {i : OperationId}

theorem walk_represents (p : Program) (options : LoweringOptions) (depth : Nat) (scope : Scope)
    (id : SyntaxId) (s : Store) :
    let lowered := (walk p options depth scope .expression id).run s
    lowered.2.Represents p id lowered.1 := by
  induction depth generalizing scope id s with
  | zero => exact ⟨_, get?_emit s _, by simp; exact .refl⟩
  | succ depth ih =>
    have h : (p.contextAt options depth scope).WalksRepresent := ih
    exact h.lowerExpression (walk_extends p options depth) s

/-- Anything may be lowered and left behind; what is associated with a node answers for it. -/
def answering (p : Program) : Terms where
  nodes _ := True
  adds _ := True
  forgoes _ := True
  associates s node i :=
    ∃ inner, p.formOf node = some (.parenthesized inner) ∧ s.Represents p inner i

theorem permits_answering (p : Program) (options : LoweringOptions) :
    p.Permits options p.answering where
  involved _ _ _ _ := trivial
  adds _ _ _ := trivial
  forgoes _ _ _ := trivial
  conversions _ _ _ := trivial
  parentheses depth scope _ inner s found :=
    ⟨inner, found, walk_represents p options depth scope inner s⟩

/-- In every tree, the operation of a node was written for the node, or the node is parenthesized
and has an operation that was made for an expression inside. -/
theorem tree?_answers (built : p.tree? options id = some t) (known : t.operationFor node = some i) :
    ∃ o, t.get? i = some o ∧ o.AnswersFor p node := by
  obtain ⟨root, s, answers, rfl⟩ :=
    (permits_answering p options).tree?_keeps (I := (Store.Answers · p))
      (fun _ o _ answers => answers.add o)
      (fun _ _ _ ⟨_, form, represents⟩ answers => answers.associate form represents) trivial
      Store.answers_empty built
  obtain ⟨place, compacts⟩ := s.finish_compacts p root
  obtain ⟨j, entry, rfl, keeps⟩ := compacts.mapped node i known
  obtain ⟨o, found, answersFor⟩ := answers node j entry
  have inside : j < s.size := (Array.getElem?_eq_some_iff.mp found).1
  exact ⟨_, compacts.kept j o (keeps inside) found, answersFor⟩

end Program

end SemanticTrees
