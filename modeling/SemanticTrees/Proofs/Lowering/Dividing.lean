import SemanticTrees.Proofs.Lowering.Courses

/-! Where the parts of a node lie. Lowering a node goes on to nodes that it involves, strictly below
it unless it is an expression in the place of a statement. When no node is shared and calls bind
their own arguments, these have nothing in common, so that no node is come to twice. -/
namespace SemanticTrees

namespace Program

variable {p : Program} {id a : SyntaxId} {nodes l rest targets : List SyntaxId}
  {form : Form} {f : SyntaxId → List SyntaxId}

/-- Lowering a node may come to another one. -/
def Reaches (p : Program) : SyntaxId → SyntaxId → Prop := Relation.ReflTransGen p.Involves

/-- A node is divided into nodes that it involves. They have nothing in common when no node is
shared and calls bind their own arguments. -/
structure Divides (p : Program) (id : SyntaxId) (nodes : List SyntaxId) : Prop where
  reached : ∀ node ∈ nodes, Relation.TransGen p.Involves id node
  apart : p.Untangled → p.BindsOwnArguments → nodes.Pairwise p.Disjoint

/-- A node is left as it is, or divided. -/
def Splits (p : Program) (id : SyntaxId) (nodes : List SyntaxId) : Prop :=
  nodes = [id] ∨ p.Divides id nodes

theorem Disjoint.symm {b : SyntaxId} (disjoint : p.Disjoint a b) : p.Disjoint b a :=
  fun id left right => disjoint id right left

theorem Disjoint.mono {b c d : SyntaxId} (disjoint : p.Disjoint a b) (ac : p.Below a c)
    (bd : p.Below b d) : p.Disjoint c d :=
  fun id left right => disjoint id (ac.trans left) (bd.trans right)

theorem pairwise_disjoint_of_subperm (sub : nodes.Subperm l) (apart : l.Pairwise p.Disjoint) :
    nodes.Pairwise p.Disjoint := by
  obtain ⟨kept, perm, sublist⟩ := sub
  exact (perm.pairwise_iff Disjoint.symm).mp (apart.sublist sublist)

theorem arguments_subset_children (form : Form) : form.arguments ⊆ form.children := by
  cases form <;> simp [Form.arguments, Form.children]

/-- Calls that bind their own arguments involve nothing but their parts. -/
theorem BindsOwnArguments.hasPart (own : p.BindsOwnArguments) (involved : p.Involves id a) :
    p.HasPart id a := by
  obtain part | ⟨form, member, bindings, found, call, resolved, listed⟩ := involved
  · exact part
  · exact hasPart_of_formOf found (arguments_subset_children form
      ((own id form member bindings found call resolved).subset listed))

theorem BindsOwnArguments.below (own : p.BindsOwnArguments) (reaches : p.Reaches id a) :
    p.Below id a :=
  Relation.ReflTransGen.mono (fun _ _ => own.hasPart) _ _ reaches

namespace Splits

theorem reached (splits : p.Splits id nodes) {node : SyntaxId} (listed : node ∈ nodes) :
    p.Reaches id node := by
  obtain rfl | divides := splits
  · obtain rfl := List.mem_singleton.mp listed
    exact .refl
  · exact (divides.reached node listed).to_reflTransGen

theorem apart (splits : p.Splits id nodes) (untangled : p.Untangled) (own : p.BindsOwnArguments) :
    nodes.Pairwise p.Disjoint := by
  obtain rfl | divides := splits
  · exact List.pairwise_singleton _ _
  · exact divides.apart untangled own

end Splits

namespace Divides

theorem nil : p.Divides id [] := ⟨by simp, fun _ _ => .nil⟩

/-- Different parts of a node have nothing in common. -/
theorem of_subperm (found : p.formOf id = some form) (sub : nodes.Subperm form.children) :
    p.Divides id nodes where
  reached _ listed := .single (.inl (hasPart_of_formOf found (sub.subset listed)))
  apart untangled _ := pairwise_disjoint_of_subperm sub (untangled.pairwise_disjoint_children found)

theorem children (found : p.formOf id = some form) : p.Divides id form.children :=
  of_subperm found (.refl _)

/-- What is bound for a call has nothing in common with what else the call is made of. -/
theorem of_bindings {member : SymbolId} {bindings : List Binding} (targets : List SyntaxId)
    (found : p.formOf id = some form) (call : form.IsCall)
    (resolved : p.resolutionOf id = some (.resolved member bindings))
    (parts : (targets ++ form.arguments).Subperm form.children) :
    p.Divides id (targets ++ bindings.filterMap Binding.lowered) where
  reached node listed := by
    obtain target | bound := List.mem_append.mp listed
    · exact .single (.inl (hasPart_of_formOf found
        (parts.subset (List.mem_append_left _ target))))
    · exact .single (.inr ⟨form, member, bindings, found, call, resolved, bound⟩)
  apart untangled own := by
    have bound := own id form member bindings found call resolved
    have sub := ((List.subperm_append_left targets).mpr bound).trans parts
    exact pairwise_disjoint_of_subperm sub (untangled.pairwise_disjoint_children found)

theorem perm (divides : p.Divides id nodes) (perm : nodes.Perm l) : p.Divides id l where
  reached node listed := divides.reached node (perm.mem_iff.mpr listed)
  apart untangled own := (perm.pairwise_iff Disjoint.symm).mp (divides.apart untangled own)

/-- Some of the nodes may be split further. -/
theorem flatMap_append (divides : p.Divides id (l ++ rest)) (each : ∀ a ∈ l, p.Splits a (f a)) :
    p.Divides id (l.flatMap f ++ rest) where
  reached node listed := by
    obtain inner | other := List.mem_append.mp listed
    · obtain ⟨a, member, inner⟩ := List.mem_flatMap.mp inner
      exact (divides.reached a (List.mem_append_left _ member)).trans_left
        ((each a member).reached inner)
    · exact divides.reached node (List.mem_append_right _ other)
  apart untangled own := by
    have below {a b : SyntaxId} (member : a ∈ l) (inner : b ∈ f a) : p.Below a b :=
      own.below ((each a member).reached inner)
    obtain ⟨first, second, between⟩ := List.pairwise_append.mp (divides.apart untangled own)
    refine List.pairwise_append.mpr ⟨?_, second, ?_⟩
    · refine List.pairwise_flatMap.mpr ⟨fun a member => (each a member).apart untangled own, ?_⟩
      exact first.imp_of_mem fun left right apart b inner b' inner' =>
        apart.mono (below left inner) (below right inner')
    · intro b inner other listed
      obtain ⟨a, member, inner⟩ := List.mem_flatMap.mp inner
      exact (between a member other listed).mono (below member inner) .refl

theorem flatMap (divides : p.Divides id l) (each : ∀ a ∈ l, p.Splits a (f a)) :
    p.Divides id (l.flatMap f) := by
  have all : p.Divides id (l.flatMap f ++ []) := flatMap_append (by rwa [List.append_nil]) each
  rwa [List.append_nil] at all

/-- The first node may be split further. -/
theorem split_head (divides : p.Divides id (a :: rest)) (splits : p.Splits a nodes) :
    p.Divides id (nodes ++ rest) := by
  have all := flatMap_append (l := [a]) (f := fun _ => nodes) divides (by simpa using splits)
  rwa [List.flatMap_singleton] at all

end Divides

end Program

namespace Context

variable {c : Context} {id callee receiver : SyntaxId} {arguments : List SyntaxId}

/-- The nodes of parts. -/
abbrev nodesOf (parts : List Part) : List SyntaxId := parts.map Part.node

theorem nodesOf_expressions (ids : List SyntaxId) : nodesOf (ids.map .expression) = ids := by
  simp [Part.expression, Function.comp_def]

theorem nodesOf_statements (ids : List SyntaxId) : nodesOf (ids.map .statement) = ids := by
  simp [Part.statement, Function.comp_def]

@[simp] theorem node_formPart (id : SyntaxId) : (c.formPart id).node = id := by
  unfold formPart
  split <;> rfl

theorem nodesOf_formParts (ids : List SyntaxId) : nodesOf (ids.map c.formPart) = ids := by
  simp [Function.comp_def]

theorem nodesOf_bindingParts (bindings : List Binding) :
    nodesOf (bindings.flatMap bindingParts) = bindings.filterMap Binding.lowered := by
  induction bindings with
  | nil => rfl
  | cons binding rest ih =>
    rw [List.flatMap_cons, nodesOf, List.map_append, List.filterMap_cons]
    rw [show (rest.flatMap bindingParts).map Part.node = _ from ih]
    unfold bindingParts Binding.lowered
    cases binding.kind <;> cases binding.argument <;> rfl

section Receivers

theorem receiverParts_divide {name : String} {typeArguments : List TypeId}
    (found : c.formOf callee = some (.memberAccess receiver name typeArguments)) :
    c.program.Divides callee (nodesOf (c.receiverParts receiver)) := by
  unfold receiverParts
  split
  · exact .nil
  · exact .children found

theorem memberParts_divide {name : String} {typeArguments : List TypeId}
    (found : c.formOf id = some (.memberAccess receiver name typeArguments)) :
    c.program.Divides id (nodesOf (c.memberParts id receiver)) := by
  unfold memberParts
  split
  · exact .nil
  · exact receiverParts_divide found

theorem lateBoundTargetParts_split :
    c.program.Splits callee (nodesOf (c.lateBoundTargetParts callee)) := by
  unfold lateBoundTargetParts
  split
  · next found => exact .inr (receiverParts_divide found)
  · split
    · exact .inr .nil
    · exact .inl rfl
  · exact .inl rfl

theorem callReceiverParts_split {member : SymbolId} :
    c.program.Splits callee (nodesOf (c.callReceiverParts callee member)) := by
  unfold callReceiverParts
  split
  · next found =>
    split
    · exact .inr .nil
    · exact .inr (receiverParts_divide found)
  · split
    · exact .inl rfl
    · exact .inr .nil
  · exact .inl rfl

theorem salvagedCalleeParts_split :
    c.program.Splits callee (nodesOf (c.salvagedCalleeParts callee)) := by
  unfold salvagedCalleeParts
  split
  · next found => exact .inr (receiverParts_divide found)
  · exact .inr .nil
  · exact .inl rfl

end Receivers

theorem invocationParts_divide (found : c.formOf id = some (.invocation callee arguments)) :
    c.program.Divides id (nodesOf (c.invocationParts id callee arguments)) := by
  have all : c.program.Divides id (callee :: arguments) := .children found
  have late : c.program.Divides id
      (nodesOf (c.lateBoundTargetParts callee ++ arguments.map .expression)) := by
    rw [nodesOf, List.map_append, ← nodesOf, ← nodesOf, nodesOf_expressions]
    exact all.split_head lateBoundTargetParts_split
  have salvaged : c.program.Divides id
      (nodesOf (c.salvagedCalleeParts callee ++ arguments.map .expression)) := by
    rw [nodesOf, List.map_append, ← nodesOf, ← nodesOf, nodesOf_expressions]
    exact all.split_head salvagedCalleeParts_split
  unfold invocationParts
  split
  · exact late
  · split
    · next member bindings resolved =>
      rw [nodesOf, List.map_append, ← nodesOf, ← nodesOf, nodesOf_bindingParts]
      exact (Program.Divides.of_bindings [callee] found trivial resolved (.refl _)).split_head
        callReceiverParts_split
    · split
      · exact late
      · exact salvaged
    · exact salvaged

theorem elementParts_divide (found : c.formOf id = some (.elementAccess receiver arguments)) :
    c.program.Divides id (nodesOf (c.elementParts id receiver arguments)) := by
  have all :
      c.program.Divides id (nodesOf (.expression receiver :: arguments.map .expression)) := by
    rw [nodesOf, List.map_cons, ← nodesOf, nodesOf_expressions]
    exact .children found
  unfold elementParts
  split
  · exact all
  · split
    · next member bindings resolved =>
      rw [nodesOf, List.map_cons, ← nodesOf, nodesOf_bindingParts]
      exact .of_bindings [receiver] found trivial resolved (.refl _)
    · exact all

theorem creationParts_divide {type : TypeId}
    (found : c.formOf id = some (.objectCreation type arguments)) :
    c.program.Divides id (nodesOf (c.creationParts id arguments)) := by
  unfold creationParts
  split
  · next member bindings resolved =>
    rw [nodesOf_bindingParts]
    exact .of_bindings [] found trivial resolved (.refl _)
  · rw [nodesOf_expressions]
    exact .children found

/-- The parts of an expression are strictly below it and have nothing in common. -/
theorem expressionParts_divide (id : SyntaxId) :
    c.program.Divides id (nodesOf (c.expressionParts id (c.formOf id))) := by
  cases found : c.formOf id with
  | none => exact .nil
  | some form =>
    cases form with
    | memberAccess receiver name typeArguments => exact memberParts_divide found
    | invocation callee arguments => exact invocationParts_divide found
    | elementAccess receiver arguments => exact elementParts_divide found
    | objectCreation type arguments => exact creationParts_divide found
    | lambda parameters body =>
      have body : nodesOf [c.lambdaPart body] = [body] := by
        simp only [nodesOf, List.map_cons, List.map_nil, lambdaPart]
        split <;> rfl
      rw [show c.expressionParts id (some (.lambda parameters _)) = [c.lambdaPart _] from rfl, body]
      exact .of_subperm found (List.sublist_append_right parameters [_]).subperm
    | binary | unary | assignment | addressOf | cast | parenthesized | argument =>
      exact .children found
    | _ => exact .nil

theorem salvagedParts_divide (id : SyntaxId) :
    c.program.Divides id (nodesOf (c.salvagedParts id)) := by
  rw [salvagedParts, nodesOf_formParts]
  cases found : c.formOf id with
  | none =>
    rw [c.program.childrenOf_eq, show c.program.formOf id = none from found]
    exact .nil
  | some form =>
    rw [Program.childrenOf_of_formOf found]
    exact .children found

theorem declaratorParts_divide (id : SyntaxId) :
    c.program.Divides id (nodesOf (c.declaratorParts id)) := by
  unfold declaratorParts
  split
  · next found =>
    rw [nodesOf_expressions]
    exact .children found
  · exact salvagedParts_divide id

theorem declarations_divide {type : Option TypeId} {declarators : List SyntaxId}
    (found : c.formOf id = some (.localDeclaration type declarators)) :
    c.program.Divides id (nodesOf (declarators.flatMap c.declaratorParts)) := by
  rw [nodesOf, List.map_flatMap]
  exact (Program.Divides.children found).flatMap fun d _ => .inr (declaratorParts_divide d)

theorem clauseParts_split (through : Passage) (id : SyntaxId) :
    c.program.Splits id (nodesOf (c.clauseParts through id)) := by
  unfold clauseParts
  split
  · next value found =>
    have nodes : nodesOf (value.toList.map fun value => ⟨through, .expression, value⟩) =
        value.toList := by
      simp [Function.comp_def]
    rw [nodes]
    exact .inr (.children found)
  · exact .inl rfl

theorem sectionParts_split (through : Passage) (id : SyntaxId) :
    c.program.Splits id (nodesOf (c.sectionParts through id)) := by
  unfold sectionParts
  split
  · next labels statements found =>
    have nodes : nodesOf (statements.map fun s => ⟨through, .statement, s⟩) = statements := by
      simp [Function.comp_def]
    rw [nodesOf, List.map_append, List.map_flatMap, ← nodesOf, nodes]
    exact .inr ((Program.Divides.children found).flatMap_append fun label _ =>
      clauseParts_split through label)
  · exact .inl rfl

theorem switchParts_divide {expression : SyntaxId} {sections : List SyntaxId}
    (found : c.formOf id = some (.switch expression sections)) (through : Passage) :
    c.program.Divides id
      (nodesOf (.expression expression :: sections.flatMap (c.sectionParts through))) := by
  have moved : c.program.Divides id (sections ++ [expression]) :=
    (Program.Divides.children found).perm (List.perm_append_singleton _ _).symm
  have split := moved.flatMap_append fun s (_ : s ∈ sections) =>
    sectionParts_split (c := c) through s
  rw [nodesOf, List.map_cons, List.map_flatMap]
  exact split.perm (List.perm_append_singleton _ _)

theorem fixedParts_split (declaration : SyntaxId) :
    c.program.Splits declaration (nodesOf (c.fixedParts declaration)) := by
  unfold fixedParts
  split
  · next found => exact .inr (declarations_divide found)
  · exact .inr (salvagedParts_divide declaration)

theorem resourceParts_split (resource : SyntaxId) :
    c.program.Splits resource (nodesOf (c.resourceParts resource)) := by
  unfold resourceParts
  split
  · next found => exact .inr (declarations_divide found)
  · exact .inl rfl

/-- The parts of a statement have nothing in common. They are below it, or one of them is the
statement itself, which is an expression then. -/
theorem statementParts_split (inSwitch : Bool) (id : SyntaxId) :
    c.program.Splits id (nodesOf (c.statementParts inSwitch id (c.formOf id))) := by
  cases found : c.formOf id with
  | none => exact .inr .nil
  | some form =>
    have all : c.program.Divides id form.children := .children found
    have kept : c.program.Splits id
        (nodesOf (if form.isExpression then [.expression id] else [])) := by
      split
      · exact .inl rfl
      · exact .inr .nil
    cases form with
    | block statements =>
      rw [statementParts, nodesOf_statements]
      exact .inr all
    | localDeclaration type declarators => exact .inr (declarations_divide found)
    | variableDeclarator name initializer => exact .inr (declaratorParts_divide id)
    | ifThen condition thenBranch elseBranch =>
      rw [statementParts, nodesOf, List.map_cons, List.map_cons, ← nodesOf, nodesOf_statements]
      exact .inr all
    | forLoop initializers condition incrementors body =>
      rw [statementParts, nodesOf, List.map_append, List.map_append, List.map_cons, ← nodesOf,
        ← nodesOf, ← nodesOf, nodesOf_formParts, nodesOf_formParts, nodesOf_expressions]
      refine .inr (all.perm ?_)
      rw [Form.children, List.append_assoc]
      exact (List.perm_append_singleton _ _).append_left _
    | switch expression sections => exact .inr (switchParts_divide found _)
    | goto target =>
      cases target with
      | caseOf value =>
        cases inSwitch with
        | true => exact .inr .nil
        | false => exact .inr all
      | _ => exact .inr .nil
    | returnJump expression =>
      rw [statementParts, nodesOf_expressions]
      exact .inr all
    | fixed declaration body =>
      rw [statementParts, nodesOf, List.map_append, ← nodesOf]
      exact .inr (all.split_head (fixedParts_split declaration))
    | usingResource resource body =>
      rw [statementParts, nodesOf, List.map_append, ← nodesOf]
      exact .inr (all.split_head (resourceParts_split resource))
    | switchSection | caseLabel => exact .inr (salvagedParts_divide id)
    | expressionStatement | whileLoop | labeled | lock => exact .inr all
    | breakJump | continueJump | empty => exact .inr .nil
    | _ => exact kept

/-- The parts of a node in a role are split off it. -/
theorem parts_split (c : Context) (inSwitch : Bool) (role : Role) (id : SyntaxId) :
    c.program.Splits id (nodesOf (c.parts inSwitch role id)) := by
  cases role with
  | expression => exact .inr (expressionParts_divide id)
  | statement => exact statementParts_split inSwitch id

theorem rootParts_split (c : Context) (id : SyntaxId) :
    c.program.Splits id (nodesOf (c.rootParts id)) := by
  unfold rootParts
  cases found : c.formOf id with
  | none => exact .inr .nil
  | some form =>
    have all : c.program.Divides id form.children := .children found
    have asked : c.program.Splits id
        (nodesOf [if form.isExpression then .expression id else .statement id]) := by
      split
      · exact .inl rfl
      · exact .inl rfl
    cases form with
    | variableDeclarator name value =>
      dsimp only
      split
      · rw [nodesOf_expressions]
        exact .inr all
      · exact .inl rfl
    | property | parameter =>
      rw [nodesOf_expressions]
      exact .inr all
    | method name parameters body =>
      rw [nodesOf_statements]
      exact .inr (.of_subperm found (List.sublist_append_right _ _).subperm)
    | field | typeDeclaration => exact .inr .nil
    | _ => exact asked

end Context

end SemanticTrees
