import SemanticTrees.Proofs.Lowering.Visits
import SemanticTrees.Proofs.Program.Descent
import Mathlib.Data.Set.Finite.Lattice
import Mathlib.Order.Interval.Finset.Nat

/-! Recursions of lowering that no depth limit guards: the collection of roots, the test of callees
and the way through parentheses. Each has runs that nothing bounds; when no node is part of itself
every run ends, with what the functions give. The walk itself ends whatever bindings point at, since
each node that it goes on to uses up one of the nested nodes that it may still lower. -/
namespace SemanticTrees

namespace Program

/-- A run that collects the roots in a declaration; nothing bounds how deep types are nested. -/
inductive CollectsRoots (p : Program) : SyntaxId → List SyntaxId → Prop
  | typeDeclaration {id : SyntaxId} {name : String} {members : List SyntaxId}
      {collected : SyntaxId → List SyntaxId}
      (known : p.formOf id = some (.typeDeclaration name members))
      (each : ∀ member ∈ members, CollectsRoots p member (collected member)) :
      CollectsRoots p id (members.flatMap collected)
  | method {id : SyntaxId} {name : String} {parameters : List SyntaxId} {body : Option SyntaxId}
      (known : p.formOf id = some (.method name parameters body)) :
      CollectsRoots p id (parameters.filter p.hasDefault ++ if body.isSome then [id] else [])
  | field {id : SyntaxId} {declarators : List SyntaxId}
      (known : p.formOf id = some (.field declarators)) :
      CollectsRoots p id (declarators.filter p.isInitialized)
  | property {id : SyntaxId} {name : String} {value : SyntaxId}
      (known : p.formOf id = some (.property name (some value))) : CollectsRoots p id [id]
  | nothing {id : SyntaxId}
      (types : ∀ name members, p.formOf id ≠ some (.typeDeclaration name members))
      (methods : ∀ name parameters body, p.formOf id ≠ some (.method name parameters body))
      (fields : ∀ declarators, p.formOf id ≠ some (.field declarators))
      (properties : ∀ name value, p.formOf id ≠ some (.property name (some value))) :
      CollectsRoots p id []

variable {p : Program} {id : SyntaxId} {bound fuel : Nat}

/-- Types are nested no deeper than the ways down go. -/
theorem collectsRoots_rootsBelow (shallow : p.Shallow bound id) (enough : bound < fuel) :
    p.CollectsRoots id (p.rootsBelow fuel id) := by
  induction fuel generalizing bound id with
  | zero => contradiction
  | succ fuel ih =>
    unfold rootsBelow
    split
    · next name members known =>
      refine .typeDeclaration known ?_
      intro member listed
      obtain ⟨less, lower, shallow⟩ := shallow.part (hasPart_of_formOf known listed)
      exact ih shallow (by omega)
    · next known => exact .method known
    · next known => exact .field known
    · next known => exact .property known
    · next types methods fields properties => exact .nothing types methods fields properties

/-- A run that goes through parentheses to the expression inside, however many there are. -/
inductive Strips (p : Program) : SyntaxId → SyntaxId → Prop
  | inside {id inner expression : SyntaxId} (known : p.formOf id = some (.parenthesized inner))
      (rest : Strips p inner expression) : Strips p id expression
  | done {id : SyntaxId} (other : ∀ inner, p.formOf id ≠ some (.parenthesized inner)) :
      Strips p id id

end Program

namespace Context

/-- A run that tests whether a callee is known at run time only, however many parentheses there
are. -/
inductive TestsCallee (c : Context) : SyntaxId → Bool → Prop
  | late {id : SyntaxId} (late : c.isDynamic id = true) : TestsCallee c id true
  | member {id receiver : SyntaxId} {name : String} {typeArguments : List TypeId}
      (early : c.isDynamic id = false)
      (known : c.formOf id = some (.memberAccess receiver name typeArguments)) :
      TestsCallee c id (c.isDynamic receiver)
  | inside {id inner : SyntaxId} {answer : Bool} (early : c.isDynamic id = false)
      (known : c.formOf id = some (.parenthesized inner)) (test : TestsCallee c inner answer) :
      TestsCallee c id answer
  | other {id : SyntaxId} (early : c.isDynamic id = false)
      (access : ∀ receiver name typeArguments,
        c.formOf id ≠ some (.memberAccess receiver name typeArguments))
      (parentheses : ∀ inner, c.formOf id ≠ some (.parenthesized inner)) : TestsCallee c id false

variable {c : Context} {id : SyntaxId} {bound fuel : Nat}

/-- As many steps as the ways down have lead through all parentheses. -/
theorem strips_unparenthesized (shallow : c.program.Shallow bound id) (enough : bound ≤ fuel) :
    c.program.Strips id (c.unparenthesized fuel id) := by
  induction fuel generalizing bound id with
  | zero =>
    apply Program.Strips.done
    intro inner known
    obtain ⟨less, lower, _⟩ :=
      shallow.part (Program.hasPart_of_formOf known List.mem_cons_self)
    omega
  | succ fuel ih =>
    unfold unparenthesized
    split
    · next inner known =>
      obtain ⟨less, lower, shallow⟩ :=
        shallow.part (Program.hasPart_of_formOf known List.mem_cons_self)
      exact .inside known (ih shallow (by omega))
    · next other => exact .done fun inner known => other inner known

/-- As many steps as the ways down have are enough for the test of a callee. -/
theorem testsCallee_isDynamicCallee (shallow : c.program.Shallow bound id)
    (enough : bound ≤ fuel) : c.TestsCallee id (c.isDynamicCallee fuel id) := by
  induction fuel generalizing bound id with
  | zero =>
    have none (part : SyntaxId) : ¬c.program.HasPart id part := by
      intro known
      obtain ⟨less, lower, _⟩ := shallow.part known
      omega
    unfold isDynamicCallee
    cases late : c.isDynamic id with
    | true => exact .late late
    | false =>
      refine .other late (fun receiver _ _ known => none receiver ?_) (fun inner known => none inner ?_)
      · exact Program.hasPart_of_formOf known List.mem_cons_self
      · exact Program.hasPart_of_formOf known List.mem_cons_self
  | succ fuel ih =>
    unfold isDynamicCallee
    cases late : c.isDynamic id with
    | true => exact .late late
    | false =>
      rw [Bool.false_or]
      split
      · next known => exact .member late known
      · next inner known =>
        obtain ⟨less, lower, shallow⟩ :=
          shallow.part (Program.hasPart_of_formOf known List.mem_cons_self)
        exact .inside late known (ih shallow (by omega))
      · next access parentheses =>
        exact .other late (fun _ _ _ known => access _ _ _ known)
          (fun _ known => parentheses _ known)

end Context

namespace Program

variable {p : Program} {options : LoweringOptions} {root : SyntaxId} {visit : Visit}

/-- Every node that the walk goes on to uses up one of the nested nodes that may be lowered. -/
theorem Visits.length_add_depth (visited : p.Visits options root visit) :
    visit.way.length + visit.depth = options.maxDepth + 1 := by
  induction visited with
  | root listed => simp [Nat.add_comm]
  | part above listed ih =>
    dsimp only at ih ⊢
    rw [List.length_cons]
    omega

/-- The visits at the ends of the ways of one length. -/
def visitsAt (p : Program) (options : LoweringOptions) (root : SyntaxId) (length : Nat) :
    Set Visit :=
  {visit | p.Visits options root visit ∧ visit.way.length = length}

/-- The visits that a visit leads on to. -/
def visitsBehind (p : Program) (options : LoweringOptions) (root : SyntaxId) (visit : Visit) :
    List Visit :=
  ((p.rootContext options root).parts visit.way.sections?.isSome visit.role visit.node).map
    fun part => ⟨visit.depth - 1, part.passage :: visit.way, part.role, part.node⟩

theorem finite_visitsAt (length : Nat) : (p.visitsAt options root length).Finite := by
  induction length with
  | zero =>
    apply Set.finite_empty.subset
    rintro visit ⟨visited, short⟩
    cases visited <;> contradiction
  | succ length ih =>
    let starts := ((p.rootContext options root).rootParts root).map fun part =>
      (⟨options.maxDepth, [part.passage], part.role, part.node⟩ : Visit)
    have behind := ih.biUnion fun visit _ => (p.visitsBehind options root visit).finite_toSet
    apply (starts.finite_toSet.union behind).subset
    rintro visit ⟨visited, long⟩
    cases visited with
    | root listed => exact .inl (List.mem_map.mpr ⟨_, listed, rfl⟩)
    | part above listed =>
      refine .inr (Set.mem_biUnion ⟨above, Nat.succ.inj long⟩ ?_)
      exact List.mem_map.mpr ⟨_, listed, rfl⟩

/-- While a root is lowered, the walk comes to finitely many nodes on finitely many ways. -/
theorem finite_visits (p : Program) (options : LoweringOptions) (root : SyntaxId) :
    {visit | p.Visits options root visit}.Finite := by
  have levels : (⋃ length ∈ Set.Iic (options.maxDepth + 1),
      p.visitsAt options root length).Finite :=
    (Set.finite_Iic _).biUnion fun length _ => finite_visitsAt length
  apply levels.subset
  intro visit visited
  have short : visit.way.length ≤ options.maxDepth + 1 :=
    (Visits.length_add_depth visited) ▸ Nat.le_add_right _ _
  exact Set.mem_biUnion short ⟨visited, rfl⟩

end Program

end SemanticTrees
