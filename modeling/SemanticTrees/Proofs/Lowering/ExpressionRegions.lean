import SemanticTrees.Proofs.Lowering.Calls
import SemanticTrees.Proofs.Lowering.Settling
import Mathlib.Data.List.ReduceOption

/-! The regions of expressions. Every form of expression is lowered to one operation that was made for
its node or below it. Calls are the forms that need a hypothesis: the bindings that were recorded for
one take their arguments from those of the call, and each at most once. -/
namespace SemanticTrees

/-- The argument that a binding has lowered, if any. -/
def Binding.lowered (b : Binding) : Option SyntaxId :=
  match b.kind with
  | .default => none
  | _ => b.argument

/-- What the argument of a binding is made for: the written argument, or the call itself. -/
def Region.written (call : SyntaxId) : Option SyntaxId → Region
  | some argument => .below argument
  | none => .only call

/-- What is bound in a call are arguments of the call, and none of them twice. -/
def Program.BindsOwnArguments (p : Program) : Prop :=
  ∀ call form member bindings, p.formOf call = some form → form.IsCall →
    p.resolutionOf call = some (.resolved member bindings) →
    (bindings.filterMap Binding.lowered).Subperm form.arguments

namespace Operation

variable (o : Operation)

@[simp] theorem isImplicit_withType (type : Option TypeId) :
    (o.withType type).isImplicit = o.isImplicit := by
  unfold withType
  split <;> rfl

@[simp] theorem isImplicit_withConstant (constant : Option Constant) :
    (o.withConstant constant).isImplicit = o.isImplicit := by
  unfold withConstant
  split <;> rfl

end Operation

theorem Region.pairwise_apart_written {p : Program} (call : SyntaxId) :
    {nodes : List (Option SyntaxId)} → nodes.reduceOption.Pairwise p.Disjoint →
      (nodes.map (Region.written call)).Pairwise (Region.Apart p)
  | [], _ => .nil
  | none :: rest, disjoint => by
    refine .cons ?_ (pairwise_apart_written call disjoint)
    rintro _ _
    trivial
  | some node :: rest, disjoint => by
    obtain ⟨first, later⟩ := List.pairwise_cons.mp disjoint
    refine .cons ?_ (pairwise_apart_written call later)
    intro region listed
    obtain ⟨other, member, rfl⟩ := List.mem_map.mp listed
    cases other with
    | none => trivial
    | some other => exact first other (List.reduceOption_mem_iff.mpr member)

namespace Context

open Lowering

variable {c : Context} {id receiver callee body : SyntaxId} {symbol member : SymbolId}
  {form : Form} {arguments : List SyntaxId} {candidates : List SymbolId} {o : Operation}
  {kind : OperationKind}

theorem at_lateBound : c.At id (c.lateBound kind id) := by
  unfold lateBound
  dsimp only
  split
  · exact at_valued
  · exact at_valued.withType _

@[simp] theorem isImplicit_valued : (c.valued kind id).isImplicit = false := by
  simp [valued, plain, Operation.plain]

theorem implicitReceiver_into : c.IntoOption id (c.implicitReceiver member id) := by
  unfold implicitReceiver
  split
  · exact .none
  · split
    · exact .none
    · exact Into.optional (emit_leaf_settles (at_plain.withType _).implicit
        (by simp [OperationKind.children]))

theorem firstImplicitReceiver_into (id : SyntaxId) :
    (candidates : List SymbolId) → c.IntoOption id (c.firstImplicitReceiver id candidates)
  | [] => .none
  | member :: rest => by
    unfold firstImplicitReceiver
    refine Settles.andThen implicitReceiver_into fun receiver => ?_
    cases receiver with
    | none => exact (firstImplicitReceiver_into id rest).weaken
    | some receiver => exact .pure rfl

/-- A reference has nothing but its receiver below it. -/
theorem reference_settles {node : SyntaxId} (inside : c.program.Below id node)
    (receiver : Option OperationId) :
    Settles c.program (c.reference id symbol receiver) [.below node] receiver.toList [.below id]
      fun i => [i] := by
  unfold reference
  split
  · next kind chosen =>
    refine emit_inside_settles at_valued inside ?_
    rw [children_valued]
    exact (referenceKind_children chosen).subset
  · exact emit_inside_settles (at_plain.withType _) inside (by simp [OperationKind.children])

/-- The operation of a call, with arguments for its bindings behind what else the call is made of. -/
theorem call_settles {bindings : List Binding} (targets : List SyntaxId) {used : List OperationId}
    (place : c.At id o) (explicit : o.isImplicit = false) (tidy : c.program.Tidy)
    (known : c.formOf id = some form) (call : form.IsCall)
    (own : (bindings.filterMap Binding.lowered).Subperm form.arguments)
    (parts : (targets ++ form.arguments).Subperm form.children) (covers : o.children ⊆ used) :
    Settles c.program (emit o)
      (targets.map .below ++ bindings.map fun binding => .written id binding.lowered) used
      [.below id] fun i => [i] := by
  obtain ⟨rfl, place⟩ := place
  -- the nodes that the children are made for, with nothing for a child of the call itself
  let nodes : List (Option SyntaxId) := targets.map some ++ bindings.map Binding.lowered
  have regions : targets.map Region.below ++
      bindings.map (fun binding => .written o.origin binding.lowered) =
      nodes.map (Region.written o.origin) := by
    simp [nodes, Region.written, Function.comp_def]
  have lowered : nodes.reduceOption.Subperm form.children := by
    have split : nodes.reduceOption = targets ++ bindings.filterMap Binding.lowered := by
      simp [nodes, List.reduceOption]
    rw [split]
    exact ((List.subperm_append_left targets).mpr own).trans parts
  rw [regions]
  refine .emit covers ?_ ?_ place
  · intro region listed
    obtain ⟨node, member, rfl⟩ := List.mem_map.mp listed
    cases node with
    | none =>
      refine ⟨rfl, explicit, ?_⟩
      rintro ⟨name, passing, expression, argument⟩
      obtain rfl := Option.some.inj (known.symm.trans argument)
      exact call
    | some node =>
      have part := lowered.subset (List.reduceOption_mem_iff.mpr member)
      exact .single (Program.hasPart_of_formOf known part)
  · apply Region.pairwise_apart_written
    obtain ⟨kept, perm, sub⟩ := lowered
    have disjoint := (tidy.pairwise_disjoint_children known).sublist sub
    exact (perm.pairwise_iff fun apart id left right => apart id right left).mp disjoint

namespace WalksInto

variable (h : c.WalksInto)
include h

theorem lateBoundReceiver {receiver : Option SyntaxId} (candidates : List SymbolId)
    (parts : ∀ other ∈ receiver, c.program.HasPart id other) :
    ∃ node, c.program.Below id node ∧
      c.IntoOption node (c.lateBoundReceiver id receiver candidates) := by
  unfold Context.lateBoundReceiver
  cases receiver with
  | none => exact ⟨id, .refl, firstImplicitReceiver_into id candidates⟩
  | some receiver =>
    refine ⟨receiver, .single (parts receiver rfl), ?_⟩
    dsimp only
    split
    · exact .none
    · exact (h.expression receiver).optional

theorem lateBoundMember {receiver : Option SyntaxId}
    (parts : ∀ other ∈ receiver, c.program.HasPart id other) (name : String)
    (typeArguments : List TypeId) (called : Bool) :
    c.Into id (c.lateBoundMember id receiver name typeArguments candidates called) := by
  obtain ⟨node, inside, first⟩ := h.lateBoundReceiver candidates parts
  exact Settles.andThen first fun receiver =>
    emit_inside_settles (at_lateBound.invalidIf _) inside (by simp [OperationKind.children])

theorem name (text : String) : c.Into id (c.name id text) := by
  unfold Context.name
  split
  · exact h.lateBoundMember (by simp) _ _ _
  · split
    · exact emit_leaf_settles (at_plain.withType _) (by simp [OperationKind.children])
    · exact Settles.andThen implicitReceiver_into fun receiver => reference_settles .refl receiver

theorem memberAccess {name : String} {typeArguments : List TypeId}
    (known : c.formOf id = some (.memberAccess receiver name typeArguments)) :
    c.Into id (c.memberAccess id receiver name typeArguments) := by
  have part : c.program.HasPart id receiver :=
    Program.hasPart_of_formOf known (by simp [Form.children])
  unfold Context.memberAccess
  split
  · exact h.lateBoundMember (by simpa using part) _ _ _
  · split
    · exact Settles.andThen (h.chosen (by simp)) fun receiver =>
        reference_settles (.single part) receiver
    · exact Settles.andThen (h.chosen (by simp)) fun receiver =>
        emit_inside_settles (at_plain.withType _) (.single part) (by simp [OperationKind.children])

theorem lateBoundTarget : c.Into callee (c.lateBoundTarget callee candidates) := by
  unfold Context.lateBoundTarget
  split
  · next receiver _ _ known =>
    have part : c.program.HasPart callee receiver :=
      Program.hasPart_of_formOf known (by simp [Form.children])
    exact h.lateBoundMember (by simpa using part) _ _ _
  · split
    · exact h.lateBoundMember (by simp) _ _ _
    · exact h.expression callee
  · exact h.expression callee

theorem lateBoundArguments (arguments : List SyntaxId) :
    Settles c.program (arguments.mapM c.lateBoundArgument) [] [] (arguments.map .below)
      fun values => values.map DynamicArgument.value := by
  have all := Settles.mapM (p := c.program) (l := arguments) fun id _ =>
    show Settles c.program (c.lateBoundArgument id) [] [] [.below id]
      fun argument => [argument.value] from .andThen (h.expression id) fun _ => .pure rfl
  simp only [← List.map_eq_flatMap] at all
  exact all

theorem boundArgument (call : SyntaxId) (binding : Binding) :
    Settles c.program (c.boundArgument call binding) [] [] [.written call binding.lowered]
      fun i => [i] := by
  have bound (argument : SyntaxId) (kind : ArgumentKind) : c.Into argument (do
      let value ← c.expression argument
      c.emitPlain (.argument kind binding.parameter value) argument) :=
    Settles.andThen (h.expression argument) fun value =>
      emit_inside_settles at_plain .refl (by simp [OperationKind.children])
  have unbound (kind : ArgumentKind) : Settles c.program (do
      let value ← c.invalidExpression call []
      emit (c.plain (.argument kind binding.parameter value) call).implicit) [] [] [.only call]
      fun i => [i] :=
    -- the value of an argument that is not there is made for the call
    .emit_pair (by simp [OperationKind.children]) (at_plain.withType _).1 (at_plain.withType _).2
      (by simp [OperationKind.children]) (fun _ => rfl) fun _ => rfl
  unfold Context.boundArgument Binding.lowered
  cases binding.kind with
  | default =>
    exact .emit_pair (by simp [OperationKind.children]) ((at_plain.withType _).withConstant _).1
      ((at_plain.withType _).withConstant _).2 (by simp [OperationKind.children]) (fun _ => rfl)
      fun _ => rfl
  | explicit =>
    cases binding.argument with
    | none => exact unbound .explicit
    | some argument => exact bound argument .explicit
  | collected =>
    cases binding.argument with
    | none => exact unbound .collected
    | some argument => exact bound argument .collected

theorem boundArguments (call : SyntaxId) (bindings : List Binding) :
    Settles c.program (bindings.mapM (c.boundArgument call)) [] []
      (bindings.map fun binding => .written call binding.lowered) fun is => is := by
  have all := Settles.mapM fun binding (_ : binding ∈ bindings) => h.boundArgument call binding
  simp only [List.flatMap_singleton', ← List.map_eq_flatMap] at all
  exact all

section Calls

variable (tidy : c.program.Tidy)
include tidy

theorem lateBoundCall (known : c.formOf id = some (.invocation callee arguments)) :
    c.Into id (c.lateBoundCall id callee arguments candidates) := by
  unfold Context.lateBoundCall
  exact Settles.andThen h.lateBoundTarget fun target =>
    Settles.bind (h.lateBoundArguments arguments) fun values =>
      emit_settles (at_lateBound.invalidIf _) tidy known (by simp [Form.children])
        (by simp [OperationKind.children, DynamicAccess.withArguments])

theorem lateBoundElement (known : c.formOf id = some (.elementAccess receiver arguments)) :
    c.Into id (c.lateBoundElement id receiver arguments) := by
  unfold Context.lateBoundElement
  exact Settles.andThen (h.expression receiver) fun target =>
    Settles.bind (h.lateBoundArguments arguments) fun values =>
      emit_settles (at_lateBound.invalidIf _) tidy known (by simp [Form.children])
        (by simp [OperationKind.children, DynamicAccess.withArguments])

theorem lateBoundCreation {type : TypeId}
    (known : c.formOf id = some (.objectCreation type arguments)) :
    c.Into id (c.lateBoundCreation id type arguments) := by
  unfold Context.lateBoundCreation
  exact Settles.andThen (h.lateBoundArguments arguments) fun values =>
    emit_settles ((at_valued.withType _).invalidIf _) tidy known (by simp [Form.children])
      (by simp [OperationKind.children, DynamicAccess.withArguments])

/-- A call that was not understood keeps what else it is made of in front of its arguments. -/
theorem salvageCall (targets : List SyntaxId) (known : c.formOf id = some form)
    (parts : (targets ++ arguments).Subperm form.children) (receiver : Option OperationId) :
    Settles c.program (c.salvageCall id receiver arguments) (targets.map .below) receiver.toList
      [.below id] fun i => [i] := by
  unfold Context.salvageCall
  refine Settles.bind (h.expressions arguments) fun values =>
    emit_settles (at_plain.withType _) tidy known ?_ (by simp [OperationKind.children])
  rw [← List.map_append]
  exact parts.map fun _ _ => Region.below.inj

omit tidy in
theorem salvageCallee : c.IntoOption callee (c.salvageCallee callee) := by
  unfold Context.salvageCallee
  split
  · next receiver _ _ known =>
    have part : c.program.HasPart callee receiver :=
      Program.hasPart_of_formOf known (by simp [Form.children])
    exact Settles.above (.single part) (h.chosen (by simp))
  · exact .none
  · exact (h.expression callee).optional

omit tidy in
theorem callReceiver : c.IntoOption callee (c.callReceiver callee member) := by
  unfold Context.callReceiver
  split
  · next receiver _ _ known =>
    have part : c.program.HasPart callee receiver :=
      Program.hasPart_of_formOf known (by simp [Form.children])
    exact Settles.above (.single part) (h.chosen (by simp))
  · split
    · split
      · exact (h.expression callee).optional
      · exact implicitReceiver_into
    · exact implicitReceiver_into
  · exact (h.expression callee).optional

theorem unboundCall (known : c.formOf id = some (.invocation callee arguments)) :
    c.Into id (c.unboundCall id callee arguments) :=
  Settles.andThen h.salvageCallee fun receiver =>
    h.salvageCall tidy [callee] known (by simp [Form.children]) receiver

theorem unboundElement (known : c.formOf id = some (.elementAccess receiver arguments)) :
    c.Into id (c.unboundElement id receiver arguments) :=
  Settles.andThen (h.expression receiver) fun target =>
    h.salvageCall tidy [receiver] known (by simp [Form.children]) (some target)

theorem unboundCreation {type : TypeId}
    (known : c.formOf id = some (.objectCreation type arguments)) :
    c.Into id (c.salvageCall id none arguments) :=
  h.salvageCall tidy [] known (by simp [Form.children]) none

variable (own : c.program.BindsOwnArguments)
include own

theorem invocation (known : c.formOf id = some (.invocation callee arguments)) :
    c.Into id (c.invocation id callee arguments) := by
  unfold Context.invocation
  split
  · exact h.lateBoundCall tidy known
  · split
    · next member bindings resolved =>
      exact Settles.andThen h.callReceiver fun receiver =>
        Settles.bind (h.boundArguments id bindings) fun values =>
          call_settles [callee] at_valued (by simp) tidy known trivial
            (own id _ member bindings known trivial resolved)
            (by simp [Form.children, Form.arguments]) (by simp [OperationKind.children])
    · split
      · exact h.lateBoundCall tidy known
      · exact h.unboundCall tidy known
    · exact h.unboundCall tidy known

theorem elementAccess (known : c.formOf id = some (.elementAccess receiver arguments)) :
    c.Into id (c.elementAccess id receiver arguments) := by
  unfold Context.elementAccess
  split
  · exact h.lateBoundElement tidy known
  · split
    · next member bindings resolved =>
      exact Settles.andThen (h.expression receiver) fun target =>
        Settles.bind (h.boundArguments id bindings) fun values =>
          call_settles [receiver] at_valued (by simp) tidy known trivial
            (own id _ member bindings known trivial resolved)
            (by simp [Form.children, Form.arguments]) (by simp [OperationKind.children])
    · split
      · exact h.lateBoundElement tidy known
      · exact h.unboundElement tidy known
    · exact h.unboundElement tidy known
    · split
      · exact Settles.andThen (h.expression receiver) fun array =>
          Settles.bind (h.expressions arguments) fun indices =>
            emit_settles at_valued tidy known (by simp [Form.children])
              (by simp [OperationKind.children])
      · exact h.unboundElement tidy known

theorem objectCreation {type : TypeId}
    (known : c.formOf id = some (.objectCreation type arguments)) :
    c.Into id (c.objectCreation id type arguments) := by
  unfold Context.objectCreation
  split
  · next member bindings resolved =>
    exact Settles.andThen (h.boundArguments id bindings) fun values =>
      call_settles [] (at_valued.withType _) (by simp) tidy known trivial
        (own id _ member bindings known trivial resolved)
        (by simp [Form.children, Form.arguments]) (by simp [OperationKind.children])
  · split
    · exact h.lateBoundCreation tidy known
    · exact h.unboundCreation tidy known
  · exact h.unboundCreation tidy known

end Calls

section Values

variable (tidy : c.program.Tidy)
include tidy

theorem assignment {operator : Option BinaryOperator} {target value : SyntaxId}
    (known : c.formOf id = some (.assignment operator target value)) :
    c.Into id (c.assignment id operator target value) := by
  unfold Context.assignment
  refine Settles.andThen (h.expression target) fun target =>
    Settles.bind (h.expression value) fun value => ?_
  cases operator with
  | none =>
    exact emit_settles at_valued tidy known (by simp [Form.children])
      (by simp [OperationKind.children])
  | some operator =>
    exact emit_settles at_valued tidy known (by simp [Form.children])
      (by simp [OperationKind.children])

theorem binary {operator : BinaryOperator} {left right : SyntaxId}
    (known : c.formOf id = some (.binary operator left right)) : c.Into id (do
      let left ← c.expression left
      let right ← c.expression right
      c.emitValued (.binary operator left right) id) :=
  Settles.andThen (h.expression left) fun left =>
    Settles.bind (h.expression right) fun right =>
      emit_settles at_valued tidy known (by simp [Form.children])
        (by simp [OperationKind.children])

omit tidy

/-- An operation with the value of one part of its node below it. -/
theorem around {operand : SyntaxId} {make : OperationId → Operation}
    (part : c.program.HasPart id operand) (place : ∀ i, c.At id (make i))
    (covers : ∀ i, (make i).children = [i]) :
    c.Into id (do let i ← c.expression operand; emit (make i)) :=
  Settles.andThen (h.expression operand) fun i =>
    emit_inside_settles (place i) (.single part) (by simp [covers])

theorem cast {type : TypeId} {operand : SyntaxId}
    (known : c.formOf id = some (.cast type operand)) : c.Into id (c.cast id type operand) :=
  h.around (Program.hasPart_of_formOf known (by simp [Form.children]))
    (fun _ => (at_valued.withType _).invalidIf _) (by simp [OperationKind.children])

theorem lambdaBody : c.Into body (c.lambdaBody body) := by
  unfold Context.lambdaBody
  split
  · exact h.statement body
  · exact Settles.andThen (h.expression body) fun value =>
      Settles.andThen
        (emit_inside_settles at_plain.implicit .refl (by simp [OperationKind.children]))
        fun returned =>
          emit_inside_settles at_plain.implicit .refl (by simp [OperationKind.children])

theorem lambda {parameters : List SyntaxId}
    (known : c.formOf id = some (.lambda parameters body)) : c.Into id (c.lambda id body) := by
  have part : c.program.HasPart id body :=
    Program.hasPart_of_formOf known (by simp [Form.children])
  have inner : c.Into body ((c.within (c.program.rootScope body)).lambdaBody body) :=
    (h.within (c.program.rootScope body)).lambdaBody
  unfold Context.lambda
  exact Settles.andThen inner fun body =>
    emit_inside_settles at_valued (.single part) (by simp [OperationKind.children])

theorem parenthesized (acyclic : c.program.Acyclic) {inner : SyntaxId}
    (known : c.formOf id = some (.parenthesized inner)) :
    c.Into id (c.parenthesized id inner) := by
  have part : c.program.HasPart id inner :=
    Program.hasPart_of_formOf known (by simp [Form.children])
  intro s follows nothing
  obtain ⟨follows, grows, held⟩ := h.expression inner s follows nothing
  have older := Store.extends_associate ((c.expression inner).run s).2 id
    ((c.expression inner).run s).1
  exact ⟨follows.associate known held.holds acyclic, grows.trans older,
    (held.mono older).above (.single part)⟩

omit h in
theorem converted (id : SyntaxId) (i : OperationId) :
    Settles c.program (c.converted id i) [.below id] [i] [.below id] fun i => [i] := by
  unfold Context.converted
  split
  · exact .pure rfl
  · exact emit_inside_settles ((at_plain.withType _).implicit.invalidIf _) .refl
      (by simp [OperationKind.children])

variable (tidy : c.program.Tidy) (own : c.program.BindsOwnArguments)
include tidy own

theorem expressionForm {form : Option Form} (known : c.formOf id = form) :
    c.Into id (c.expressionForm id form) := by
  have part {form : Form} {operand : SyntaxId} (known : c.formOf id = some form)
      (listed : operand ∈ form.children) : c.program.HasPart id operand :=
    Program.hasPart_of_formOf known listed
  unfold Context.expressionForm
  split
  · exact emit_leaf_settles at_valued (by simp [OperationKind.children])
  · exact h.name _
  · exact emit_leaf_settles at_valued (by simp [OperationKind.children])
  · exact h.memberAccess known
  · exact h.invocation tidy own known
  · exact h.elementAccess tidy own known
  · exact Settles.above (.single (part known (by simp [Form.children]))) (h.expression _)
  · exact h.objectCreation tidy own known
  · exact h.binary tidy known
  · exact h.around (part known (by simp [Form.children])) (fun _ => at_valued)
      (by simp [OperationKind.children])
  · exact h.assignment tidy known
  · exact h.around (part known (by simp [Form.children])) (fun _ => at_valued)
      (by simp [OperationKind.children])
  · exact h.cast known
  · exact h.parenthesized tidy.acyclic known
  · exact h.lambda known
  · exact emit_leaf_settles (at_plain.withType _) (by simp [OperationKind.children])

theorem lowerExpression (id : SyntaxId) : c.Into id (c.lowerExpression id) :=
  Settles.andThen (h.expressionForm tidy own rfl) fun i => converted id i

end Values

end WalksInto

end Context

end SemanticTrees
