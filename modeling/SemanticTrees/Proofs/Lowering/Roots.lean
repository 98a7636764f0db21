import SemanticTrees.Proofs.Lowering.Tree

/-! The operations of analysed roots. Such a root is lowered to an operation that was written in its
place, even when its symbol is unknown or no nested node may be lowered, and this operation is the
root of its tree. -/
namespace SemanticTrees

/-- The root of a tree was written. -/
def OperationTree.RootWritten (t : OperationTree) : Prop :=
  ∃ o, t.get? t.root = some o ∧ o.isImplicit = false

/-- An operation of a store that was written in the place of a node. -/
def Store.WrittenAt (s : Store) (p : Program) (id : SyntaxId) (i : OperationId) : Prop :=
  ∃ o, s.get? i = some o ∧ o.isImplicit = false ∧ o.span = p.nodes.spanOf id

namespace Lowering

variable {α β : Type}

/-- What holds of the result of a step and the store that it leaves, on whatever store it is run. -/
def Yields (m : Lowering α) (post : Store → α → Prop) : Prop := ∀ s, post (m.run s).2 (m.run s).1

namespace Yields

variable {m : Lowering α} {post : Store → β → Prop}

theorem bind {f : α → Lowering β} (last : ∀ a, Yields (f a) post) : Yields (m >>= f) post :=
  fun s => last (m.run s).1 (m.run s).2

theorem optional {p : Program} {id : SyntaxId} {m : Lowering OperationId}
    (step : Yields m fun s i => s.WrittenAt p id i) :
    Yields (some <$> m) fun s r => ∃ i, r = some i ∧ s.WrittenAt p id i :=
  fun s => ⟨_, rfl, step s⟩

end Yields

end Lowering

namespace Context

open Lowering

variable {c : Context} {id : SyntaxId}

theorem emitPlain_written (kind : OperationKind) :
    Yields (c.emitPlain kind id) fun s i => s.WrittenAt c.program id i :=
  fun s => ⟨c.plain kind id, (s.get?_add s.size).trans (if_pos rfl), rfl, rfl⟩

theorem salvageStatement_written :
    Yields (c.salvageStatement id) fun s i => s.WrittenAt c.program id i :=
  .bind fun _ => emitPlain_written _

theorem declarator_written (isFixed : Bool) :
    Yields (c.declarator isFixed id) fun s i => s.WrittenAt c.program id i := by
  unfold declarator
  split
  · next initializer _ =>
    cases initializer with
    | some initializer => exact .bind fun _ => emitPlain_written _
    | none =>
      cases isFixed with
      | true => exact .bind fun _ => emitPlain_written _
      | false => exact .bind fun _ => emitPlain_written _
  · exact salvageStatement_written

theorem initialized_written (value : SyntaxId)
    (make : SymbolId → OperationId → OperationKind) :
    Yields (c.initialized id (some value) make)
      fun s r => ∃ i, r = some i ∧ s.WrittenAt c.program id i := by
  refine .bind fun value => .optional ?_
  unfold initializer
  split
  · exact emitPlain_written _
  · exact emitPlain_written _

end Context

/-- Forms of roots that are analysed: they declare something that is computed. -/
def Form.IsRoot : Form → Prop
  | .parameter _ (some _) | .variableDeclarator _ (some _) | .property _ (some _)
  | .method _ _ (some _) => True
  | _ => False

namespace Program

open Lowering

variable {p : Program} {options : LoweringOptions} {id : SyntaxId} {t : OperationTree} {form : Form}

theorem form_of_mem_rootsBelow {fuel : Nat} {node : SyntaxId}
    (member : id ∈ p.rootsBelow fuel node) : ∃ form, p.formOf id = some form ∧ form.IsRoot := by
  induction fuel generalizing node with
  | zero => contradiction
  | succ fuel ih =>
    unfold rootsBelow at member
    split at member
    · obtain ⟨inner, _, below⟩ := List.mem_flatMap.mp member
      exact ih below
    · next name parameters body known =>
      obtain default | whole := List.mem_append.mp member
      · have found := (List.mem_filter.mp default).2
        unfold hasDefault at found
        split at found
        · next known => exact ⟨_, known, trivial⟩
        · contradiction
      · split at whole
        · next present =>
          obtain ⟨body, rfl⟩ := Option.isSome_iff_exists.mp present
          obtain rfl := List.mem_singleton.mp whole
          exact ⟨_, known, trivial⟩
        · contradiction
    · have found := (List.mem_filter.mp member).2
      unfold isInitialized at found
      split at found
      · next known => exact ⟨_, known, trivial⟩
      · contradiction
    · next known =>
      obtain rfl := List.mem_singleton.mp member
      exact ⟨_, known, trivial⟩
    · contradiction

theorem form_of_mem_roots (member : id ∈ p.roots) :
    ∃ form, p.formOf id = some form ∧ form.IsRoot := by
  obtain ⟨declaration, _, below⟩ := List.mem_flatMap.mp member
  exact form_of_mem_rootsBelow below

/-- A declarator is lowered to an operation in its place, and so it is at the last depth. -/
theorem walk_declarator_written {scope : Scope} {name : String} {value : Option SyntaxId}
    (known : p.formOf id = some (.variableDeclarator name value)) (depth : Nat) :
    Yields (walk p options depth scope .statement id) fun s i => s.WrittenAt p id i := by
  cases depth with
  | zero => exact Context.emitPlain_written _
  | succ depth =>
    have form : (⟨p, options, scope, walk p options depth⟩ : Context).formOf id = _ := known
    unfold walk
    dsimp only
    unfold Context.lowerStatement
    rw [form]
    exact Context.declarator_written false

theorem lowerRoot_written (known : p.formOf id = some form) (analysed : form.IsRoot) :
    Yields ((p.rootContext options id).lowerRoot id)
      fun s r => ∃ i, r = some i ∧ s.WrittenAt p id i := by
  unfold Context.lowerRoot
  rw [show (p.rootContext options id).formOf id = some form from known]
  cases form with
  | parameter name value =>
    cases value with
    | none => exact analysed.elim
    | some value => exact Context.initialized_written value _
  | property name value =>
    cases value with
    | none => exact analysed.elim
    | some value => exact Context.initialized_written value _
  | variableDeclarator name value =>
    cases value with
    | none => exact analysed.elim
    | some value =>
      dsimp only
      split
      · exact Context.initialized_written value _
      · exact (walk_declarator_written known options.maxDepth).optional
  | method name parameters body =>
    cases body with
    | none => exact analysed.elim
    | some body => exact .bind fun _ => (Context.emitPlain_written _).optional
  | _ => exact analysed.elim

/-- A root that is analysed has a tree, and the root of the tree is in its place. -/
theorem exists_tree (options : LoweringOptions) (member : id ∈ p.roots) :
    ∃ t, p.tree? options id = some t ∧ t.RootWritten ∧ t.spanOf t.root = p.nodes.spanOf id := by
  obtain ⟨form, known, analysed⟩ := form_of_mem_roots member
  have always : Yields ((p.rootContext options id).lowerRoot id) _ :=
    lowerRoot_written known analysed
  obtain ⟨root, lowered, o, stored, explicit, span⟩ := always Store.empty
  obtain ⟨s, run⟩ : ∃ s, ((p.rootContext options id).lowerRoot id).run Store.empty =
      (some root, s) := ⟨_, Prod.ext lowered rfl⟩
  rw [run] at stored
  have built : p.tree? options id = some (s.finish p root) := by
    unfold tree?
    rw [run]
  obtain ⟨place, compacts⟩ := s.finish_compacts p root
  have bound : root < s.size := (Array.getElem?_eq_some_iff.mp stored).1
  have top : (s.finish p root).get? (s.finish p root).root = some (o.mapChildren place) := by
    rw [compacts.top]
    exact compacts.kept root o (.refl bound) stored
  refine ⟨s.finish p root, built, ⟨_, top, explicit⟩, ?_⟩
  rw [OperationTree.spanOf, top]
  exact span

theorem tree?_rootWritten (member : id ∈ p.roots) (built : p.tree? options id = some t) :
    t.RootWritten := by
  obtain ⟨t', built', written, _⟩ := exists_tree options member
  rwa [Option.some.inj (built.symm.trans built')]

end Program

end SemanticTrees
