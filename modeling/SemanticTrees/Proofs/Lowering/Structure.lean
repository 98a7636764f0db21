import SemanticTrees.Proofs.Lowering.Conversions
import SemanticTrees.Proofs.Lowering.Roots
import SemanticTrees.Proofs.Lowering.Visits

/-! The structure of statements. A statement that is made of statements is lowered to an operation
of its own kind, whose slots hold what its parts are lowered to, in order and each in its place.
What the parts are does not matter: one that is no statement is lowered to a placeholder in its
place, and so is one at the depth limit. -/
namespace SemanticTrees

open Lowering

namespace Form

/-- The forms of statements that are made of statements. -/
def IsCompound : Form → Prop
  | .block _ | .ifThen .. | .whileLoop .. | .forLoop .. | .switch .. | .labeled .. | .fixed ..
  | .lock .. | .usingResource .. => True
  | _ => False

def IsFixed : Form → Prop
  | .fixed .. => True
  | _ => False

end Form

def OperationKind.IsFixed : OperationKind → Prop
  | .fixedStatement .. => True
  | _ => False

/-- An operation of a kind was made for a node. -/
def Store.Made (s : Store) (id : SyntaxId) (kind : OperationKind → Prop) (i : OperationId) : Prop :=
  ∃ o, s.get? i = some o ∧ o.origin = id ∧ kind o.kind

namespace Lowering

variable {α β : Type} {t : Store} {m : Lowering α} {post : α → Prop}

/-- A step only adds operations, and something holds of its result in a store that still has them
all. -/
structure Gives (t : Store) (m : Lowering α) (post : α → Prop) : Prop where
  grows : ∀ s : Store, s.Extends (m.run s).2
  result : ∀ s : Store, (m.run s).2.Extends t → post (m.run s).1

namespace Gives

theorem imp {weaker : α → Prop} (gives : Gives t m post) (implies : ∀ a, post a → weaker a) :
    Gives t m weaker :=
  ⟨gives.grows, fun s kept => implies _ (gives.result s kept)⟩

theorem pure {a : α} (holds : post a) : Gives t (pure a) post :=
  ⟨.refl, fun _ _ => holds⟩

theorem emit (o : Operation) : Gives t (Lowering.emit o) fun i => t.get? i = some o :=
  ⟨fun s => s.extends_add o, fun s kept => kept _ o (get?_emit s o)⟩

/-- What holds of the first result may be used for the second one. -/
theorem bind {f : α → Lowering β} {last : β → Prop} (first : Gives t m post)
    (second : ∀ a, Gives t (f a) fun b => post a → last b) : Gives t (m >>= f) last where
  grows s := (first.grows s).trans ((second _).grows _)
  result s kept :=
    (second _).result _ kept (first.result s (((second _).grows _).trans kept))

theorem map {f : α → β} {last : β → Prop} (gives : Gives t m post)
    (implies : ∀ a, post a → last (f a)) : Gives t (f <$> m) last :=
  ⟨gives.grows, fun s kept => implies _ (gives.result s kept)⟩

theorem mapM {f : α → Lowering β} {R : α → β → Prop} :
    {l : List α} → (∀ a ∈ l, Gives t (f a) (R a)) → Gives t (l.mapM f) (List.Forall₂ R l)
  | [], _ => pure .nil
  | a :: rest, each => by
    rw [List.mapM_cons]
    have later := mapM fun b listed => each b (List.mem_cons_of_mem a listed)
    exact (each a List.mem_cons_self).bind fun b => later.bind fun bs => pure fun others first =>
      .cons first others

end Gives

end Lowering

namespace Context

variable {c : Context} {id : SyntaxId} {kind : OperationKind → Prop}

theorem emit_made {o : Operation} (origin : o.origin = id) (holds : kind o.kind) :
    Yields (emit o) fun s i => s.Made id kind i :=
  fun s => ⟨o, get?_emit s o, origin, holds⟩

theorem emitPlain_made {own : OperationKind} (holds : kind own) :
    Yields (c.emitPlain own id) fun s i => s.Made id kind i :=
  emit_made rfl holds

/-- A statement is lowered to an operation that was made for it, and to a fixed statement only if it
is one. -/
theorem statementForm_made (form : Option Form) :
    Yields (c.statementForm id form) fun s i =>
      s.Made id (fun kind => kind.IsFixed → ∃ written ∈ form, written.IsFixed) i := by
  have salvaged {K : OperationKind → Prop} (holds : ∀ children, K (.invalidStatement children)) :
      Yields (c.salvageStatement id) fun s i => s.Made id K i :=
    .bind fun children => emitPlain_made (holds children)
  have misplaced (form : Form) {K : OperationKind → Prop}
      (holds : ∀ children, K (.invalidStatement children)) :
      Yields (c.misplaced id form) fun s i => s.Made id K i := by
    unfold misplaced
    split
    · exact .bind fun child => emitPlain_made (holds [child])
    · exact emitPlain_made (holds [])
  have branch (may : Bool) (own : BranchKind) {K : OperationKind → Prop}
      (valid : K (.branch own none)) (invalid : K (.invalidStatement [])) :
      Yields (if may then c.branch id own none false else c.invalidStatement id [])
        fun s i => s.Made id K i := by
    split
    · exact emit_made rfl valid
    · exact emitPlain_made invalid
  cases form with
  | none => exact emitPlain_made False.elim
  | some form =>
    cases form with
    | block statements => exact .bind fun _ => emitPlain_made False.elim
    | expressionStatement expression => exact .bind fun _ => emitPlain_made False.elim
    | localDeclaration type declarators =>
      exact .bind fun _ => .bind fun _ => emitPlain_made False.elim
    | variableDeclarator name initializer =>
      dsimp only [statementForm]
      unfold declarator
      split
      · next initializer _ =>
        cases initializer with
        | some initializer => exact .bind fun _ => emitPlain_made False.elim
        | none => exact emitPlain_made False.elim
      · exact salvaged fun _ => False.elim
    | ifThen condition thenBranch elseBranch =>
      exact .bind fun _ => .bind fun _ => .bind fun _ => emitPlain_made False.elim
    | whileLoop condition body => exact .bind fun _ => .bind fun _ => emitPlain_made False.elim
    | forLoop initializers condition incrementors body =>
      exact .bind fun _ => .bind fun _ => .bind fun _ => .bind fun _ => emitPlain_made False.elim
    | switch expression sections => exact .bind fun _ => .bind fun _ => emitPlain_made False.elim
    | breakJump => exact branch _ _ False.elim False.elim
    | continueJump => exact branch _ _ False.elim False.elim
    | goto target =>
      dsimp only [statementForm]
      unfold goto
      split
      · exact emit_made rfl False.elim
      · exact emit_made rfl False.elim
      · exact .bind fun _ => emitPlain_made False.elim
      · exact emit_made rfl False.elim
      · exact emitPlain_made False.elim
    | labeled label statement => exact .bind fun _ => emitPlain_made False.elim
    | returnJump expression => exact .bind fun _ => emitPlain_made False.elim
    | empty => exact emitPlain_made False.elim
    | fixed declaration body =>
      dsimp only [statementForm]
      unfold fixed
      split
      · exact .bind fun _ => .bind fun _ => emitPlain_made fun _ => ⟨_, rfl, trivial⟩
      · exact .bind fun _ => .bind fun _ => emitPlain_made fun _ => ⟨_, rfl, trivial⟩
    | lock expression body => exact .bind fun _ => .bind fun _ => emit_made rfl False.elim
    | usingResource resource body =>
      dsimp only [statementForm]
      unfold usingResource
      split
      · exact .bind fun _ => .bind fun _ => emitPlain_made False.elim
      · exact .bind fun _ => .bind fun _ => emitPlain_made False.elim
    | switchSection labels statements => exact salvaged fun _ => False.elim
    | caseLabel value => exact salvaged fun _ => False.elim
    | _ => exact misplaced _ fun _ => False.elim

/-- A fixed statement: what is declared, and behind it the body. -/
theorem fixed_eq_bind (declaration body : SyntaxId) : c.fixed id declaration body =
    (match c.formOf declaration with
      | some (.localDeclaration _ declarators) => c.declarationGroup true declaration declarators
      | _ => c.salvageStatement declaration) >>= fun declared =>
        c.statement body >>= fun body => c.emitPlain (.fixedStatement declared body) id := by
  unfold fixed
  cases c.formOf declaration with
  | none => rfl
  | some form => cases form <;> rfl

/-- A statement with a resource: what is held, and behind it the body. -/
theorem usingResource_eq_bind (resource body : SyntaxId) : c.usingResource id resource body =
    (match c.formOf resource with
      | some (.localDeclaration _ declarators) => c.declarationGroup false resource declarators
      | _ => c.expression resource) >>= fun held =>
        c.statement body >>= fun body => c.emitPlain (.usingStatement held body) id := by
  unfold usingResource
  cases c.formOf resource with
  | none => rfl
  | some form => cases form <;> rfl

end Context

namespace Program

section Parts

variable (p : Program) (options : LoweringOptions) (root : SyntaxId) (depth : Nat) (way : Way)

/-- An operation is what a node is lowered to as a statement, and it was made for the node. -/
def StandsFor (node : SyntaxId) (i : OperationId) : Prop :=
  p.Lowers options root ⟨depth, way, .statement, node⟩ i ∧
    ∃ o, (p.rootStore options root).get? i = some o ∧ o.origin = node

/-- An operation is what a node is lowered to as an expression. -/
def Computes (node : SyntaxId) (i : OperationId) : Prop :=
  p.Lowers options root ⟨depth, way, .expression, node⟩ i

/-- An operation is what a node is lowered to in the role that its form says. -/
def Salvages (node : SyntaxId) (i : OperationId) : Prop :=
  if (p.formOf node).any Form.isExpression then p.Computes options root depth way node i
  else p.StandsFor options root depth way node i

/-- A node that was not understood is kept as a placeholder with whatever it is made of. -/
def Placeholder (node : SyntaxId) (kind : OperationKind) : Prop :=
  ∃ children, kind = .invalidStatement children ∧
    List.Forall₂ (p.Salvages options root depth way) (p.nodes.childrenOf node) children

/-- What becomes of a declarator. -/
def DeclaratorBecomes (isFixed : Bool) (node : SyntaxId) (kind : OperationKind) : Prop :=
  match p.formOf node with
  | some (.variableDeclarator _ initializer) =>
    ∃ value, kind = .variableDeclarator (p.symbolOf node) value ∧
      value.isSome = (isFixed || initializer.isSome) ∧
      ∀ written ∈ initializer, ∃ i ∈ value, p.Computes options root depth way written i
  | _ => p.Placeholder options root depth way node kind

/-- What becomes of a declaration of variables: a group of one declaration with the declarators. -/
def GroupBecomes (isFixed : Bool) (node : SyntaxId) (declarators : List SyntaxId)
    (kind : OperationKind) : Prop :=
  ∃ declaration, kind = .variableDeclarationGroup [declaration] ∧
    (p.rootStore options root).Made node (fun kind => ∃ items, kind = .variableDeclaration items ∧
      List.Forall₂
        (fun node => (p.rootStore options root).Made node
          (p.DeclaratorBecomes options root depth way isFixed node))
        declarators items) declaration

/-- What becomes of the declaration in a fixed statement. -/
def FixedDeclares (node : SyntaxId) (i : OperationId) : Prop :=
  (p.rootStore options root).Made node
    (match p.formOf node with
      | some (.localDeclaration _ declarators) =>
        p.GroupBecomes options root depth way true node declarators
      | _ => p.Placeholder options root depth way node) i

/-- What becomes of a resource: a declaration, or an expression. -/
def ResourceBecomes (node : SyntaxId) (i : OperationId) : Prop :=
  match p.formOf node with
  | some (.localDeclaration _ declarators) =>
    (p.rootStore options root).Made node
      (p.GroupBecomes options root depth way false node declarators) i
  | _ => p.Computes options root depth way node i

/-- What becomes of a part of the head of a loop. An expression becomes a statement. -/
def HeadBecomes (node : SyntaxId) (i : OperationId) : Prop :=
  if (p.formOf node).any Form.isExpression then
    (p.rootStore options root).Made node (fun kind => ∃ value, kind = .expressionStatement value ∧
      p.Computes options root depth way node value) i
  else p.StandsFor options root depth way node i

/-- What becomes of a label of a section. -/
def ClauseBecomes (node : SyntaxId) (kind : OperationKind) : Prop :=
  ∃ value, kind = .caseClause value ∧
    match p.formOf node with
    | some (.caseLabel written) => Option.Rel (p.Computes options root depth way) written value
    | _ => ∃ i ∈ value, p.Computes options root depth way node i

/-- What becomes of an entry among the sections of a switch. -/
def SectionBecomes (node : SyntaxId) (i : OperationId) : Prop :=
  match p.formOf node with
  | some (.switchSection labels statements) =>
    (p.rootStore options root).Made node (fun kind =>
      ∃ clauses body, kind = .switchCase clauses body ∧
      List.Forall₂
        (fun node => (p.rootStore options root).Made node
          (p.ClauseBecomes options root depth way node))
        labels clauses ∧
      List.Forall₂ (p.StandsFor options root depth way) statements body) i
  | _ => p.StandsFor options root depth way node i

/-- What becomes of a statement that is made of statements, given the depth and the way of its
parts. -/
def KeepsStructure (kind : OperationKind) : Form → Prop
  | .block statements =>
    ∃ body, kind = .block body ∧
      List.Forall₂ (p.StandsFor options root depth (.plain :: way)) statements body
  | .ifThen condition thenBranch elseBranch =>
    ∃ value whenTrue whenFalse, kind = .conditional value whenTrue whenFalse ∧
      p.Computes options root depth (.plain :: way) condition value ∧
      p.StandsFor options root depth (.plain :: way) thenBranch whenTrue ∧
      Option.Rel (p.StandsFor options root depth (.plain :: way)) elseBranch whenFalse
  | .whileLoop condition body =>
    ∃ value i, kind = .whileLoop value i ∧
      p.Computes options root depth (.plain :: way) condition value ∧
      p.StandsFor options root depth (.loop :: way) body i
  | .forLoop initializers condition incrementors body =>
    ∃ before value atLoopBottom i, kind = .forLoop before value atLoopBottom i ∧
      List.Forall₂ (p.HeadBecomes options root depth (.plain :: way)) initializers before ∧
      Option.Rel (p.Computes options root depth (.plain :: way)) condition value ∧
      List.Forall₂ (p.HeadBecomes options root depth (.plain :: way)) incrementors atLoopBottom ∧
      p.StandsFor options root depth (.loop :: way) body i
  | .switch expression sections =>
    ∃ value cases, kind = .switch value cases ∧
      p.Computes options root depth (.plain :: way) expression value ∧
      List.Forall₂ (p.SectionBecomes options root depth (.switch sections :: way)) sections cases
  | .labeled label statement =>
    ∃ i, kind = .labeled label (some i) ∧
      p.StandsFor options root depth (.plain :: way) statement i
  | .fixed declaration body =>
    ∃ declared i, kind = .fixedStatement declared i ∧
      p.FixedDeclares options root depth (.plain :: way) declaration declared ∧
      p.StandsFor options root depth (.plain :: way) body i
  | .lock expression body =>
    ∃ value i, kind = .lockStatement value i ∧
      p.Computes options root depth (.plain :: way) expression value ∧
      p.StandsFor options root depth (.plain :: way) body i
  | .usingResource resource body =>
    ∃ held i, kind = .usingStatement held i ∧
      p.ResourceBecomes options root depth (.plain :: way) resource held ∧
      p.StandsFor options root depth (.plain :: way) body i
  | _ => True

end Parts

section Statements

variable {p : Program} {options : LoweringOptions} {root : SyntaxId} (depth : Nat) (way : Way)
  {id : SyntaxId}

/-- The surroundings of a node whose parts may be lowered to a depth behind a way. -/
abbrev behind (p : Program) (options : LoweringOptions) (root : SyntaxId) (depth : Nat)
    (way : Way) : Context :=
  p.contextAt options depth (way.scope p root)

/-- The walk gives a statement an operation that was made for it. -/
theorem standsFor_of_lowers {node : SyntaxId} {i : OperationId}
    (lowered : p.Lowers options root ⟨depth, way, .statement, node⟩ i) :
    p.StandsFor options root depth way node i := by
  refine ⟨lowered, ?_⟩
  obtain ⟨s, rfl, kept⟩ := lowered
  cases depth with
  | zero => exact ⟨_, kept _ _ (get?_emit s _), rfl⟩
  | succ depth =>
    obtain ⟨o, found, origin, _⟩ :=
      (p.behind options root depth way).statementForm_made (p.formOf node) s
    exact ⟨o, kept _ o found, origin⟩

theorem statement_gives (node : SyntaxId) :
    Gives (p.rootStore options root) ((p.behind options root depth way).statement node)
      (p.StandsFor options root depth way node) :=
  ⟨fun s => walk_extends p options depth s _ _ _,
    fun s kept => standsFor_of_lowers depth way ⟨s, rfl, kept⟩⟩

theorem computes_gives (node : SyntaxId) :
    Gives (p.rootStore options root) ((p.behind options root depth way).expression node)
      (p.Computes options root depth way node) :=
  ⟨fun s => walk_extends p options depth s _ _ _, fun s kept => ⟨s, rfl, kept⟩⟩

theorem some_computes_gives (node : SyntaxId) :
    Gives (p.rootStore options root) (some <$> (p.behind options root depth way).expression node)
      fun value => ∃ i ∈ value, p.Computes options root depth way node i :=
  (computes_gives depth way node).map fun i computes => ⟨i, rfl, computes⟩

theorem computes?_gives (node : Option SyntaxId) :
    Gives (p.rootStore options root) ((p.behind options root depth way).expression? node)
      (Option.Rel (p.Computes options root depth way) node) := by
  cases node with
  | none => exact .pure .none
  | some node => exact (computes_gives depth way node).map fun i computes => .some computes

theorem statement?_gives (node : Option SyntaxId) :
    Gives (p.rootStore options root) ((p.behind options root depth way).statement? node)
      (Option.Rel (p.StandsFor options root depth way) node) := by
  cases node with
  | none => exact .pure .none
  | some node => exact (statement_gives depth way node).map fun i stands => .some stands

theorem salvages_gives (node : SyntaxId) :
    Gives (p.rootStore options root)
      (if (p.behind options root depth way).isExpression node then
        (p.behind options root depth way).expression node
      else (p.behind options root depth way).statement node)
      (p.Salvages options root depth way node) := by
  unfold Salvages
  by_cases expression : (p.formOf node).any Form.isExpression = true
  · rw [if_pos (show (p.behind options root depth way).isExpression node = true from expression)]
    exact (computes_gives depth way node).imp fun i computes => by rwa [if_pos expression]
  · rw [if_neg (show ¬(p.behind options root depth way).isExpression node = true from expression)]
    exact (statement_gives depth way node).imp fun i stands => by rwa [if_neg expression]

theorem salvageStatement_gives (node : SyntaxId) :
    Gives (p.rootStore options root) ((p.behind options root depth way).salvageStatement node)
      ((p.rootStore options root).Made node (p.Placeholder options root depth way node)) := by
  unfold Context.salvageStatement
  refine .bind (.mapM fun child _ => salvages_gives depth way child) fun children => ?_
  exact (Gives.emit _).imp fun i found salvaged => ⟨_, found, rfl, children, rfl, salvaged⟩

theorem declarator_gives (isFixed : Bool) (node : SyntaxId) :
    Gives (p.rootStore options root) ((p.behind options root depth way).declarator isFixed node)
      ((p.rootStore options root).Made node
        (p.DeclaratorBecomes options root depth way isFixed node)) := by
  have salvaged : Gives (p.rootStore options root) _ _ := salvageStatement_gives depth way node
  unfold Context.declarator DeclaratorBecomes
  rw [show (p.behind options root depth way).formOf node = p.formOf node from rfl]
  cases p.formOf node with
  | none => exact salvaged
  | some form =>
    cases form with
    | variableDeclarator name initializer =>
      cases initializer with
      | some initializer =>
        refine .bind (some_computes_gives depth way initializer) fun value => ?_
        refine (Gives.emit _).imp fun i found ⟨first, known, computes⟩ => ?_
        obtain rfl := known
        refine ⟨_, found, rfl, some first, rfl, (Bool.or_true _).symm, ?_⟩
        intro written listed
        obtain rfl := Option.some.inj listed
        exact ⟨first, rfl, computes⟩
      | none =>
        cases isFixed with
        | true =>
          have missing (o : Operation) : Gives (p.rootStore options root) (some <$> emit o)
              fun value => value.isSome = true := (Gives.emit o).map fun _ _ => rfl
          refine .bind (missing _) fun value => ?_
          exact (Gives.emit _).imp fun i found present =>
            ⟨_, found, rfl, value, rfl, present, by simp⟩
        | false => exact (Gives.emit _).imp fun i found => ⟨_, found, rfl, none, rfl, rfl, by simp⟩
    | _ => exact salvaged

theorem declarationGroup_gives (isFixed : Bool) (node : SyntaxId) (declarators : List SyntaxId) :
    Gives (p.rootStore options root)
      ((p.behind options root depth way).declarationGroup isFixed node declarators)
      ((p.rootStore options root).Made node
        (p.GroupBecomes options root depth way isFixed node declarators)) := by
  unfold Context.declarationGroup
  refine .bind (.mapM fun declarator _ => declarator_gives depth way isFixed declarator)
    fun items => ?_
  refine .bind (.emit _) fun declaration => ?_
  exact (Gives.emit _).imp fun i found inner declared =>
    ⟨_, found, rfl, declaration, rfl, _, inner, rfl, items, rfl, declared⟩

theorem headPart_gives (node : SyntaxId) :
    Gives (p.rootStore options root) ((p.behind options root depth way).headPart node)
      (p.HeadBecomes options root depth way node) := by
  unfold Context.headPart HeadBecomes
  by_cases expression : (p.formOf node).any Form.isExpression = true
  · rw [if_pos (show (p.behind options root depth way).isExpression node = true from expression)]
    refine .bind (computes_gives depth way node) fun value => ?_
    refine (Gives.emit _).imp fun i found computes => ?_
    rw [if_pos expression]
    exact ⟨_, found, rfl, value, rfl, computes⟩
  · rw [if_neg (show ¬(p.behind options root depth way).isExpression node = true from expression)]
    exact (statement_gives depth way node).imp fun i stands => by rwa [if_neg expression]

theorem clause_gives (node : SyntaxId) :
    Gives (p.rootStore options root) ((p.behind options root depth way).clause node)
      ((p.rootStore options root).Made node (p.ClauseBecomes options root depth way node)) := by
  have computed : Gives (p.rootStore options root) (do
      let value ← some <$> (p.behind options root depth way).expression node
      (p.behind options root depth way).emitPlain (.caseClause value) node)
      ((p.rootStore options root).Made node fun kind => ∃ value, kind = .caseClause value ∧
        ∃ i ∈ value, p.Computes options root depth way node i) := by
    refine .bind (some_computes_gives depth way node) fun value => ?_
    exact (Gives.emit _).imp fun i found computes => ⟨_, found, rfl, value, rfl, computes⟩
  unfold Context.clause ClauseBecomes
  rw [show (p.behind options root depth way).formOf node = p.formOf node from rfl]
  cases p.formOf node with
  | none => exact computed
  | some form =>
    cases form with
    | caseLabel written =>
      refine .bind (computes?_gives depth way written) fun value => ?_
      exact (Gives.emit _).imp fun i found computes => ⟨_, found, rfl, value, rfl, computes⟩
    | _ => exact computed

theorem switchSection_gives (node : SyntaxId) :
    Gives (p.rootStore options root) ((p.behind options root depth way).switchSection node)
      (p.SectionBecomes options root depth way node) := by
  have stands : Gives (p.rootStore options root) _ _ := statement_gives depth way node
  unfold Context.switchSection SectionBecomes
  rw [show (p.behind options root depth way).formOf node = p.formOf node from rfl]
  cases p.formOf node with
  | none => exact stands
  | some form =>
    cases form with
    | switchSection labels statements =>
      refine .bind (.mapM fun label _ => clause_gives depth way label) fun clauses => ?_
      refine .bind (.mapM fun statement _ => statement_gives depth way statement) fun body => ?_
      exact (Gives.emit _).imp fun i found stands labeled =>
        ⟨_, found, rfl, clauses, body, rfl, labeled, stands⟩
    | _ => exact stands

theorem fixedDeclaration_gives (declaration : SyntaxId) :
    Gives (p.rootStore options root)
      (match p.formOf declaration with
        | some (.localDeclaration _ declarators) =>
          (p.behind options root depth way).declarationGroup true declaration declarators
        | _ => (p.behind options root depth way).salvageStatement declaration)
      (p.FixedDeclares options root depth way declaration) := by
  unfold FixedDeclares
  have salvaged : Gives (p.rootStore options root) _ _ :=
    salvageStatement_gives depth way declaration
  cases p.formOf declaration with
  | none => exact salvaged
  | some form =>
    cases form with
    | localDeclaration type declarators =>
      exact declarationGroup_gives depth way true declaration declarators
    | _ => exact salvaged

theorem resource_gives (resource : SyntaxId) :
    Gives (p.rootStore options root)
      (match p.formOf resource with
        | some (.localDeclaration _ declarators) =>
          (p.behind options root depth way).declarationGroup false resource declarators
        | _ => (p.behind options root depth way).expression resource)
      (p.ResourceBecomes options root depth way resource) := by
  unfold ResourceBecomes
  have computed : Gives (p.rootStore options root) _ _ := computes_gives depth way resource
  cases p.formOf resource with
  | none => exact computed
  | some form =>
    cases form with
    | localDeclaration type declarators =>
      exact declarationGroup_gives depth way false resource declarators
    | _ => exact computed

/-- Every compound statement keeps its structure. -/
theorem statementForm_gives {form : Form} (compound : form.IsCompound) :
    Gives (p.rootStore options root)
      ((p.behind options root depth way).statementForm id (some form))
      ((p.rootStore options root).Made id fun kind =>
        p.KeepsStructure options root depth way kind form) := by
  have body (node : SyntaxId) : Gives (p.rootStore options root) _ _ :=
    statement_gives depth (.plain :: way) node
  have computed (node : SyntaxId) : Gives (p.rootStore options root) _ _ :=
    computes_gives depth (.plain :: way) node
  have repeated (node : SyntaxId) : Gives (p.rootStore options root) _ _ :=
    statement_gives depth (.loop :: way) node
  cases form with
  | block statements =>
    refine .bind (.mapM fun statement _ => body statement) fun statements => ?_
    exact (Gives.emit _).imp fun i found stand => ⟨_, found, rfl, statements, rfl, stand⟩
  | ifThen condition thenBranch elseBranch =>
    refine .bind (computed condition) fun value => .bind (body thenBranch) fun whenTrue => ?_
    refine .bind (statement?_gives depth (.plain :: way) elseBranch) fun whenFalse => ?_
    exact (Gives.emit _).imp fun i found fails holds computes =>
      ⟨_, found, rfl, value, whenTrue, whenFalse, rfl, computes, holds, fails⟩
  | whileLoop condition inner =>
    refine .bind (computed condition) fun value => .bind (repeated inner) fun j => ?_
    exact (Gives.emit _).imp fun i found stands computes =>
      ⟨_, found, rfl, value, j, rfl, computes, stands⟩
  | forLoop initializers condition incrementors inner =>
    have head (nodes : List SyntaxId) : Gives (p.rootStore options root) _ _ :=
      .mapM fun node (_ : node ∈ nodes) => headPart_gives depth (.plain :: way) node
    refine .bind (head initializers) fun before => ?_
    refine .bind (computes?_gives depth (.plain :: way) condition) fun value => ?_
    refine .bind (repeated inner) fun j => .bind (head incrementors) fun atLoopBottom => ?_
    exact (Gives.emit _).imp fun i found advance stands computes start =>
      ⟨_, found, rfl, before, value, atLoopBottom, j, rfl, start, computes, advance, stands⟩
  | switch expression sections =>
    refine .bind (computed expression) fun value => ?_
    refine .bind (.mapM fun node _ => switchSection_gives depth (.switch sections :: way) node)
      fun cases => ?_
    exact (Gives.emit _).imp fun i found become computes =>
      ⟨_, found, rfl, value, cases, rfl, computes, become⟩
  | labeled label statement =>
    refine .bind (body statement) fun j => ?_
    exact (Gives.emit _).imp fun i found stands => ⟨_, found, rfl, j, rfl, stands⟩
  | fixed declaration inner =>
    dsimp only [Context.statementForm]
    rw [Context.fixed_eq_bind]
    refine .bind (fixedDeclaration_gives depth (.plain :: way) declaration) fun declared => ?_
    refine .bind (body inner) fun j => ?_
    exact (Gives.emit _).imp fun i found stands declares =>
      ⟨_, found, rfl, declared, j, rfl, declares, stands⟩
  | lock expression inner =>
    refine .bind (computed expression) fun value => .bind (body inner) fun j => ?_
    exact (Gives.emit _).imp fun i found stands computes =>
      ⟨_, found, rfl, value, j, rfl, computes, stands⟩
  | usingResource resource inner =>
    dsimp only [Context.statementForm]
    rw [Context.usingResource_eq_bind]
    refine .bind (resource_gives depth (.plain :: way) resource) fun held => ?_
    refine .bind (body inner) fun j => ?_
    exact (Gives.emit _).imp fun i found stands becomes =>
      ⟨_, found, rfl, held, j, rfl, becomes, stands⟩
  | _ => exact compound.elim

end Statements

variable {p : Program} {options : LoweringOptions} {root : SyntaxId} {depth : Nat} {way : Way}
  {node : SyntaxId} {i : OperationId}

theorem walk_statement_eq {form : Form} (known : p.formOf node = some form) :
    walk p options (depth + 1) (way.scope p root) .statement node =
      (p.behind options root depth way).statementForm node (some form) :=
  congrArg ((p.behind options root depth way).statementForm node) known

/-- What a compound statement is lowered to. -/
theorem keepsStructure_of_lowers {form : Form}
    (lowered : p.Lowers options root ⟨depth + 1, way, .statement, node⟩ i)
    (known : p.formOf node = some form) (compound : form.IsCompound) :
    (p.rootStore options root).Made node
      (fun kind => p.KeepsStructure options root depth way kind form) i := by
  obtain ⟨s, rfl, kept⟩ := lowered
  rw [Visit.lowering, walk_statement_eq known] at kept ⊢
  exact (statementForm_gives depth way compound).result s kept

/-- A statement that is not fixed is not lowered to a fixed one, at the depth limit or above. -/
theorem not_fixed_of_lowers (lowered : p.Lowers options root ⟨depth, way, .statement, node⟩ i)
    (other : ∀ form ∈ p.formOf node, ¬form.IsFixed) :
    (p.rootStore options root).Made node (fun kind => ¬kind.IsFixed) i := by
  obtain ⟨s, rfl, kept⟩ := lowered
  cases depth with
  | zero => exact ⟨_, kept _ _ (get?_emit s _), rfl, False.elim⟩
  | succ depth =>
    obtain ⟨o, found, origin, same⟩ :=
      (p.behind options root depth way).statementForm_made (p.formOf node) s
    refine ⟨o, kept _ o found, origin, fun isFixed => ?_⟩
    obtain ⟨form, known, fixed⟩ := same isFixed
    exact other form known fixed

/-- No operation has a child twice. -/
theorem nodup_children {o : Operation} (found : (p.rootStore options root).get? i = some o) :
    o.children.Nodup := by
  have forest := (rootContext_fresh p options root).lowerRoot root Store.empty [] .empty
  have listed : o ∈ (p.rootStore options root).operations.toList :=
    Array.mem_toList_iff.mpr (Array.mem_of_getElem? found)
  exact nodup_of_mem_flatMap (List.nodup_append.mp forest.single).2.1 listed

/-! ### Fixed statements in one another -/

/-- Fixed statements, each the body of the one before, with their declarations, and the body of the
last one. -/
inductive Stacks (p : Program) : List (SyntaxId × SyntaxId) → SyntaxId → SyntaxId → Prop
  | done (node : SyntaxId) : Stacks p [] node node
  | fixed {node declaration body last : SyntaxId} {stack : List (SyntaxId × SyntaxId)}
      (form : p.formOf node = some (.fixed declaration body)) (rest : Stacks p stack body last) :
      Stacks p ((node, declaration) :: stack) node last

/-- Fixed statements that lie in one another, made for the nodes of a stack and each with what its
declaration becomes, around what the last body is lowered to, which is no fixed statement. -/
inductive NestsFixed (p : Program) (options : LoweringOptions) (root : SyntaxId) :
    Nat → Way → List (SyntaxId × SyntaxId) → SyntaxId → OperationId → Prop
  | done {depth : Nat} {way : Way} {last : SyntaxId} {i : OperationId}
      (stands : p.StandsFor options root depth way last i)
      (other : (p.rootStore options root).Made last (fun kind => ¬kind.IsFixed) i) :
      NestsFixed p options root depth way [] last i
  | fixed {depth : Nat} {way : Way} {node declaration last : SyntaxId}
      {stack : List (SyntaxId × SyntaxId)} {i declared body : OperationId}
      (made : (p.rootStore options root).Made node (· = .fixedStatement declared body) i)
      (declares : p.FixedDeclares options root depth (.plain :: way) declaration declared)
      (rest : NestsFixed p options root depth (.plain :: way) stack last body) :
      NestsFixed p options root (depth + 1) way ((node, declaration) :: stack) last i

/-- Stacked fixed statements above the depth limit are lowered to as many, one in another. -/
theorem nestsFixed_of_stacks {stack : List (SyntaxId × SyntaxId)} {last : SyntaxId}
    (stacked : p.Stacks stack node last) (enough : stack.length ≤ depth)
    (other : ∀ form ∈ p.formOf last, ¬form.IsFixed)
    (lowered : p.Lowers options root ⟨depth, way, .statement, node⟩ i) :
    p.NestsFixed options root depth way stack last i := by
  induction stacked generalizing depth way i with
  | done node =>
    exact .done (standsFor_of_lowers depth way lowered) (not_fixed_of_lowers lowered other)
  | fixed form rest ih =>
    obtain ⟨depth, rfl⟩ := Nat.exists_eq_add_one_of_ne_zero (Nat.ne_zero_of_lt enough)
    obtain ⟨o, found, origin, declared, body, kind, declares, stands⟩ :=
      keepsStructure_of_lowers lowered form trivial
    exact .fixed ⟨o, found, origin, kind⟩ declares
      (ih (Nat.le_of_succ_le_succ enough) other stands.1)

/-! ### Compound statements -/

/-- Where an expression is expected, a compound statement is a placeholder without children. -/
theorem compound_as_expression {form : Form} (known : p.formOf node = some form)
    (compound : form.IsCompound)
    (lowered : p.Lowers options root ⟨depth + 1, way, .expression, node⟩ i) :
    ∃ j o, (p.rootStore options root).get? j = some o ∧ o.origin = node ∧
      o.kind = .invalidExpression [] ∧
      (p.rootContext options root).Converts (p.rootStore options root) node j i := by
  obtain ⟨s, rfl, kept⟩ := lowered
  let c : Context := p.behind options root depth way
  obtain ⟨older, converts⟩ := c.lowerExpression_converts node s
  have placeholder : c.expressionForm node (c.formOf node) = c.invalidExpression node [] := by
    rw [show c.formOf node = some form from known]
    cases form with
    | block | ifThen | whileLoop | forLoop | switch | labeled | fixed | lock | usingResource => rfl
    | _ => exact compound.elim
  rw [placeholder] at older converts
  exact ⟨_, _, kept _ _ (older _ _ (get?_emit s _)), by simp, by simp, converts.mono kept⟩

/-- What becomes of the compound statements that the walk comes to above the depth limit where a
statement is expected. One is lowered to an operation of its kind, whose slots hold one operation
for each of its parts, in order, and none twice. Fixed statements that are stacked lie in one
another just as they were written, each with its declaration. -/
theorem compound_keeps_structure {form : Form}
    (visited : p.Visits options root ⟨depth + 1, way, .statement, node⟩)
    (known : p.formOf node = some form) (compound : form.IsCompound) :
    (∃ i, p.Lowers options root ⟨depth + 1, way, .statement, node⟩ i) ∧
      ∀ i, p.Lowers options root ⟨depth + 1, way, .statement, node⟩ i →
        (∃ o, (p.rootStore options root).get? i = some o ∧ o.origin = node ∧
          p.KeepsStructure options root depth way o.kind form ∧ o.children.Nodup) ∧
        ∀ stack last, p.Stacks stack node last → stack.length ≤ depth + 1 →
          (∀ written ∈ p.formOf last, ¬written.IsFixed) →
          p.NestsFixed options root (depth + 1) way stack last i := by
  refine ⟨visited.exists_lowers, fun i lowered => ?_⟩
  obtain ⟨o, found, origin, keeps⟩ := keepsStructure_of_lowers lowered known compound
  refine ⟨⟨o, found, origin, keeps, nodup_children found⟩, ?_⟩
  intro stack last stacked enough other
  exact nestsFixed_of_stacks stacked enough other lowered

/-- Two fixed statements in one another: a variable without a value is declared in the outer one, no
declaration is written in the inner one, and its body is an expression. -/
def stackedFixed : Program :=
  { empty "fixed" with
    nodes := #[⟨.zero, .variableDeclarator "p" none⟩, ⟨.zero, .localDeclaration none [0]⟩,
      ⟨.zero, .literal "1"⟩, ⟨.zero, .identifier "x"⟩, ⟨.zero, .fixed 3 2⟩,
      ⟨.zero, .fixed 1 4⟩] }

theorem stackedFixed_keeps_structure :
    stackedFixed.Visits {} 5 ⟨500, [.plain], .statement, 5⟩ ∧
      ∃ i, stackedFixed.Lowers {} 5 ⟨500, [.plain], .statement, 5⟩ i ∧
        stackedFixed.NestsFixed {} 5 500 [.plain] [(5, 1), (4, 3)] 2 i := by
  have visited : stackedFixed.Visits {} 5 ⟨500, [.plain], .statement, 5⟩ :=
    .root (show Part.statement 5 ∈ _ by decide)
  have known : stackedFixed.formOf 5 = some (.fixed 1 4) := rfl
  obtain ⟨⟨i, lowered⟩, becomes⟩ := compound_keeps_structure visited known trivial
  refine ⟨visited, i, lowered, (becomes i lowered).2 _ 2 ?_ (by decide) ?_⟩
  · exact .fixed known (.fixed rfl (.done 2))
  · intro form written
    obtain rfl := Option.some.inj written
    exact False.elim

/-- A block where an expression is expected. -/
def strayBlock : Program :=
  { empty "stray" with
    nodes := #[⟨.zero, .empty⟩, ⟨.zero, .block [0]⟩, ⟨.zero, .expressionStatement 1⟩] }

/-- The block is lowered above the depth limit, to a placeholder without its statement. -/
theorem strayBlock_dropped :
    strayBlock.Visits {} 2 ⟨499, [.plain, .plain], .expression, 1⟩ ∧
      strayBlock.formOf 1 = some (.block [0]) ∧
      (∃ i, strayBlock.Lowers {} 2 ⟨499, [.plain, .plain], .expression, 1⟩ i) ∧
      ∀ i, strayBlock.Lowers {} 2 ⟨499, [.plain, .plain], .expression, 1⟩ i →
        ∃ o, (strayBlock.rootStore {} 2).get? i = some o ∧ o.kind = .invalidExpression [] := by
  have outer : strayBlock.Visits {} 2 ⟨500, [.plain], .statement, 2⟩ :=
    .root (show Part.statement 2 ∈ _ by decide)
  have visited : strayBlock.Visits {} 2 ⟨499, [.plain, .plain], .expression, 1⟩ :=
    .part outer (show Part.expression 1 ∈ _ by decide)
  have known : strayBlock.formOf 1 = some (.block [0]) := rfl
  refine ⟨visited, known, visited.exists_lowers, fun i lowered => ?_⟩
  obtain ⟨j, o, found, _, kind, same⟩ := compound_as_expression known trivial lowered
  obtain rfl : i = j := same
  exact ⟨o, found, kind⟩

end Program

end SemanticTrees
