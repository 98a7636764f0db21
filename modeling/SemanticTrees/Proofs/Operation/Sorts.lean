import SemanticTrees.Proofs.Operation.Shape

/-! Sorts of operations. Every slot is meant for operations of one sort; a sort says which kinds it
admits. The sorts are finer than the two roles: an argument is an expression that stands nowhere but
in the arguments of a call, and some statements stand in one slot only. -/
namespace SemanticTrees

/-- What a slot is meant for. -/
inductive OperationSort
  /-- A value. An argument of a call is none. -/
  | expression
  | argument
  /-- A statement that may stand among others. -/
  | statement
  /-- Stands for a statement that could not be understood. -/
  | placeholder
  /-- The body of a lambda: a block, or a placeholder. -/
  | functionBody
  /-- Variables that are declared together, in one declaration. -/
  | group
  | declaration
  /-- A declarator, or a placeholder. -/
  | declarator
  /-- What a fixed statement declares: a group, or a placeholder. -/
  | fixedVariables
  /-- What a statement with a resource holds: a group, or an expression. -/
  | resource
  | clause
  /-- An entry of a switch: a section, or a misplaced statement. -/
  | entry
  /-- A part of a statement that could not be understood. -/
  | part
  /-- A root that is no expression: a statement, or what a declaration computes. -/
  | top
deriving DecidableEq, Repr

/-- What tells operations apart where one of them is to stand. -/
inductive Standing
  | value
  | argument
  | block
  | placeholder
  /-- Variables that are declared together, in one declaration. -/
  | group
  | declaration
  | declarator
  | clause
  | section
  /-- What a declaration computes. -/
  | root
  /-- Any other statement that may stand among others. -/
  | statement
  /-- May stand nowhere. -/
  | misfit
deriving DecidableEq, Repr

def Standing.role : Standing → Role
  | .value | .argument => .expression
  | _ => .statement

/-- The name of an operation, where its standing tells. -/
def Standing.name? : Standing → Option String
  | .argument => some "Argument"
  | .block => some "Block"
  | .placeholder => some "InvalidStatement"
  | .group => some "VariableDeclarationGroup"
  | .declaration => some "VariableDeclaration"
  | .declarator => some "VariableDeclarator"
  | .clause => some "CaseClause"
  | .section => some "SwitchCase"
  | _ => none

namespace OperationKind

def standing : OperationKind → Standing
  | .argument .. => .argument
  | .block _ => .block
  | .invalidStatement _ => .placeholder
  | .variableDeclarationGroup declarations =>
    if declarations.length = 1 then .group else .misfit
  | .variableDeclaration _ => .declaration
  | .variableDeclarator .. => .declarator
  | .caseClause _ => .clause
  | .switchCase .. => .section
  | .fieldInitializer .. | .propertyInitializer .. | .parameterInitializer .. | .methodBody _ => .root
  | kind =>
    match kind.role with
    | .expression => .value
    | .statement => .statement

/-- What the slots of an operation are meant for, in the order of the slots. -/
def slotSorts : OperationKind → List OperationSort
  | .literal | .localReference _ | .parameterReference _ | .instanceReference | .branch _ _
  | .empty => []
  | .fieldReference .. | .methodReference .. | .conversion .. | .argument .. | .unary ..
  | .addressOf _ | .dynamicMemberReference _ | .invalidExpression _ | .expressionStatement _
  | .variableDeclarator .. | .caseClause _ | .returnValue _ | .fieldInitializer ..
  | .propertyInitializer .. | .parameterInitializer .. => [.expression]
  | .binary .. | .simpleAssignment .. | .compoundAssignment .. | .arrayElementReference ..
  | .dynamicInvocation _ | .dynamicIndexerAccess _ => [.expression, .expression]
  | .propertyReference .. | .invocation .. => [.expression, .argument]
  | .objectCreation .. => [.argument]
  | .dynamicObjectCreation _ => [.expression]
  | .anonymousFunction .. => [.functionBody]
  | .invalidStatement _ => [.part]
  | .block _ | .labeled .. | .methodBody _ => [.statement]
  | .variableDeclarationGroup _ => [.declaration]
  | .variableDeclaration _ => [.declarator]
  | .conditional .. => [.expression, .statement, .statement]
  | .whileLoop .. | .lockStatement .. => [.expression, .statement]
  | .forLoop .. => [.statement, .expression, .statement, .statement]
  | .switch .. => [.expression, .entry]
  | .switchCase .. => [.clause, .statement]
  | .fixedStatement .. => [.fixedVariables, .statement]
  | .usingStatement .. => [.resource, .statement]

theorem standing_group (declarations : List OperationId) :
    (variableDeclarationGroup declarations).standing =
      if declarations.length = 1 then .group else .misfit :=
  rfl

theorem role_eq (kind : OperationKind) : kind.role = kind.standing.role := by
  cases kind with
  | variableDeclarationGroup declarations =>
    rw [standing_group]
    split <;> rfl
  | _ => rfl

theorem isArgument_iff {kind : OperationKind} :
    kind.name = "Argument" ↔ kind.standing = .argument := by
  cases kind with
  | variableDeclarationGroup declarations =>
    rw [standing_group]
    split <;> simp [name]
  | _ => simp [name, standing, role]

theorem isClause_iff {kind : OperationKind} :
    kind.name = "CaseClause" ↔ kind.standing = .clause := by
  cases kind with
  | variableDeclarationGroup declarations =>
    rw [standing_group]
    split <;> simp [name]
  | _ => simp [name, standing, role]

theorem isSection_iff {kind : OperationKind} :
    kind.name = "SwitchCase" ↔ kind.standing = .section := by
  cases kind with
  | variableDeclarationGroup declarations =>
    rw [standing_group]
    split <;> simp [name]
  | _ => simp [name, standing, role]

theorem exists_declarators {kind : OperationKind} (known : kind.standing = .declaration) :
    ∃ declarators, kind = .variableDeclaration declarators := by
  cases kind with
  | variableDeclaration declarators => exact ⟨declarators, rfl⟩
  | variableDeclarationGroup declarations =>
    rw [standing_group] at known
    split at known <;> contradiction
  | _ => contradiction

theorem name_of_standing {kind : OperationKind} {known : String}
    (named : kind.standing.name? = some known) : kind.name = known := by
  cases kind with
  | variableDeclarationGroup declarations =>
    rw [standing_group] at named
    split at named <;> simp_all [name, Standing.name?]
  | _ => simp_all [name, standing, role, Standing.name?]

theorem standing_mapChildren (f : OperationId → OperationId) (kind : OperationKind) :
    (kind.mapChildren f).standing = kind.standing := by
  cases kind with
  | variableDeclarationGroup declarations => simp [mapChildren, standing]
  | _ => rfl

theorem length_slotSorts (kind : OperationKind) : kind.slotSorts.length = kind.slots.length := by
  cases kind <;> rfl

section Slots

variable {kind : OperationKind} {n : Nat} {entry : String × Slot} {σ : OperationSort}

/-- Arguments have slots of their own in calls of known members, and nowhere else. -/
theorem sort_eq_argument_iff (stored : kind.slots[n]? = some entry)
    (sort : kind.slotSorts[n]? = some σ) :
    σ = .argument ↔ entry.1 = "Arguments" ∧
      kind.name ∈ ["Invocation", "ObjectCreation", "PropertyReference"] := by
  have each : ∀ pair ∈ kind.slots.zip kind.slotSorts, pair.2 = .argument ↔
      pair.1.1 = "Arguments" ∧
        kind.name ∈ ["Invocation", "ObjectCreation", "PropertyReference"] := by
    cases kind <;> simp [slots, slotSorts, name]
  exact each (entry, σ) (List.mem_of_getElem? (List.getElem?_zip_eq_some.mpr ⟨stored, sort⟩))

theorem sort_eq_clause_iff (stored : kind.slots[n]? = some entry)
    (sort : kind.slotSorts[n]? = some σ) : σ = .clause ↔ entry.1 = "Clauses" := by
  have each : ∀ pair ∈ kind.slots.zip kind.slotSorts, pair.2 = .clause ↔ pair.1.1 = "Clauses" := by
    cases kind <;> simp [slots, slotSorts]
  exact each (entry, σ) (List.mem_of_getElem? (List.getElem?_zip_eq_some.mpr ⟨stored, sort⟩))

theorem sort_eq_entry_iff (stored : kind.slots[n]? = some entry)
    (sort : kind.slotSorts[n]? = some σ) : σ = .entry ↔ entry.1 = "Cases" := by
  have each : ∀ pair ∈ kind.slots.zip kind.slotSorts, pair.2 = .entry ↔ pair.1.1 = "Cases" := by
    cases kind <;> simp [slots, slotSorts]
  exact each (entry, σ) (List.mem_of_getElem? (List.getElem?_zip_eq_some.mpr ⟨stored, sort⟩))

end Slots

end OperationKind

namespace OperationSort

/-- What may stand among other statements. -/
def statements : List Standing := [.block, .placeholder, .group, .declarator, .statement]

/-- What may stand where a sort is expected. -/
def standings : OperationSort → List Standing
  | .expression => [.value]
  | .argument => [.argument]
  | .statement => statements
  | .placeholder => [.placeholder]
  | .functionBody => [.block, .placeholder]
  | .group => [.group]
  | .declaration => [.declaration]
  | .declarator => [.declarator, .placeholder]
  | .fixedVariables => [.group, .placeholder]
  | .resource => [.group, .value]
  | .clause => [.clause]
  | .entry => .section :: statements
  | .part => .value :: statements
  | .top => .root :: statements

/-- Whether an operation may stand where a sort is expected. -/
def admits (σ : OperationSort) (kind : OperationKind) : Bool :=
  decide (kind.standing ∈ σ.standings)

/-- Whatever the first sort admits, the second one admits too. -/
def Within (σ ρ : OperationSort) : Prop := σ.standings ⊆ ρ.standings

/-- The category of whatever stands where a sort is expected. A resource and a part of a statement
that could not be understood may be of either category. -/
def role? : OperationSort → Option Role
  | .expression | .argument => some .expression
  | .resource | .part => none
  | _ => some .statement

instance (σ ρ : OperationSort) : Decidable (σ.Within ρ) :=
  inferInstanceAs (Decidable (σ.standings ⊆ ρ.standings))

variable {σ ρ : OperationSort} {kind : OperationKind}

theorem admits_iff : σ.admits kind = true ↔ kind.standing ∈ σ.standings := decide_eq_true_iff

theorem Within.refl (σ : OperationSort) : σ.Within σ := List.Subset.refl _

theorem Within.admits (within : σ.Within ρ) (admitted : σ.admits kind = true) :
    ρ.admits kind = true :=
  admits_iff.mpr (within (admits_iff.mp admitted))

theorem placeholder_within_statement : placeholder.Within statement := by decide

theorem placeholder_within_declarator : placeholder.Within declarator := by decide

theorem placeholder_within_fixedVariables : placeholder.Within fixedVariables := by decide

theorem placeholder_within_functionBody : placeholder.Within functionBody := by decide

theorem functionBody_within_statement : functionBody.Within statement := by decide

theorem group_within_statement : group.Within statement := by decide

theorem group_within_fixedVariables : group.Within fixedVariables := by decide

theorem group_within_resource : group.Within resource := by decide

theorem declarator_within_statement : declarator.Within statement := by decide

theorem expression_within_resource : expression.Within resource := by decide

theorem expression_within_part : expression.Within part := by decide

theorem statement_within_part : statement.Within part := by decide

theorem statement_within_entry : statement.Within entry := by decide

theorem statement_within_top : statement.Within top := by decide

/-- What stands where a sort is expected is of the category of the sort. -/
theorem role_of_admits (admitted : σ.admits kind = true) {role : Role}
    (expected : σ.role? = some role) : kind.role = role := by
  have each : ∀ standing ∈ σ.standings, ∀ role, σ.role? = some role → standing.role = role := by
    cases σ <;> simp [standings, statements, role?, Standing.role]
  rw [kind.role_eq]
  exact each _ (admits_iff.mp admitted) role expected

theorem argument_mem_iff : .argument ∈ σ.standings ↔ σ = .argument := by
  cases σ <;> decide

theorem clause_mem_iff : .clause ∈ σ.standings ↔ σ = .clause := by
  cases σ <;> decide

theorem section_mem_iff : .section ∈ σ.standings ↔ σ = .entry := by
  cases σ <;> decide

theorem misfit_not_mem : .misfit ∉ σ.standings := by
  cases σ <;> decide

theorem isArgument_iff (admitted : σ.admits kind = true) :
    kind.name = "Argument" ↔ σ = .argument := by
  have listed := admits_iff.mp admitted
  rw [OperationKind.isArgument_iff]
  constructor
  · intro same
    rw [same] at listed
    exact argument_mem_iff.mp listed
  · rintro rfl
    exact List.mem_singleton.mp listed

theorem isClause_iff (admitted : σ.admits kind = true) :
    kind.name = "CaseClause" ↔ σ = .clause := by
  have listed := admits_iff.mp admitted
  rw [OperationKind.isClause_iff]
  constructor
  · intro same
    rw [same] at listed
    exact clause_mem_iff.mp listed
  · rintro rfl
    exact List.mem_singleton.mp listed

/-- What may stand somewhere does not depend on the places of the children. -/
theorem admits_mapChildren (σ : OperationSort) (f : OperationId → OperationId)
    (kind : OperationKind) : σ.admits (kind.mapChildren f) = σ.admits kind := by
  rw [admits, admits, OperationKind.standing_mapChildren]

end OperationSort

end SemanticTrees
