import SemanticTrees.Proofs.Lowering.StatementTrails
import SemanticTrees.Proofs.Lowering.Tree

/-! Trees are closed. The walk at any depth is a trail over walks that are less deep, so it keeps
what additions keep: operations stay in their places, and they mention only what the program
supplies. The tree of a root of a valid program therefore mentions only places that the tables
have. -/
namespace SemanticTrees.Program

open Lowering

variable {p : Program} {options : LoweringOptions} {v : Vocabulary}

/-- The surroundings of a node that is lowered when its parts may be lowered to a depth. -/
def contextAt (p : Program) (options : LoweringOptions) (depth : Nat) (scope : Scope) : Context :=
  { program := p, options, scope, walk := walk p options depth }

/-- Lowering a node walks its parts, one level less deep. -/
theorem walk_trail (options : LoweringOptions) (h : p.Supplies v) (depth : Nat) (scope : Scope)
    (role : Role) {id : SyntaxId} (known : v.nodes id) (s : Store) :
    let c := p.contextAt options depth scope
    Trail v (walk p options depth) s
      ((c.parts scope.innermostSwitch.isSome role id).map c.call)
      ((walk p options (depth + 1) scope role id).run s).2 := by
  cases role with
  | expression =>
    exact Context.lowerExpression_walks (c := p.contextAt options depth scope) h known s
  | statement => exact Context.lowerStatement_walks (c := p.contextAt options depth scope) h known s

/-- A node below the depth that the options set becomes a placeholder, and nothing is walked. -/
theorem walk_zero_trail (options : LoweringOptions) (h : p.Supplies v) (scope : Scope)
    (role : Role) {id : SyntaxId} (known : v.nodes id) (s : Store) :
    Trail v (fun _ _ _ => pure 0) s [] ((walk p options 0 scope role id).run s).2 := by
  cases role with
  | expression =>
    exact .add ((Vocabulary.Covers.plain known _ (.of_nil rfl rfl)).withType (h.type id)) (.done _)
  | statement => exact .add (.plain known _ (.of_nil rfl rfl)) (.done _)

/-- What additions keep, the walk keeps at any depth. -/
theorem walk_keeps (h : p.Supplies v) {I : Store → Prop}
    (adds : ∀ s o, v.Covers o → I s → I (s.add o))
    (associates : ∀ s node i, I s → I (s.associate node i)) (depth : Nat) :
    ∀ s scope role id, v.nodes id → I s → I ((walk p options depth scope role id).run s).2 := by
  induction depth with
  | zero =>
    intro s scope role id known start
    have trail := walk_zero_trail options h scope role known s
    refine trail.keeps adds associates ?_ start
    exact fun _ _ _ _ _ kept => kept
  | succ depth ih =>
    intro s scope role id known start
    exact (walk_trail options h depth scope role known s).keeps adds associates ih start

/-- The walk only adds operations. -/
theorem walk_extends (p : Program) (options : LoweringOptions) (depth : Nat) :
    WalkExtends (walk p options depth) := by
  intro s scope role node
  have adds (s' : Store) (o : Operation) (_ : Vocabulary.all.Covers o) (older : s.Extends s') :
      s.Extends (s'.add o) :=
    older.trans (s'.extends_add o)
  have associates (s' : Store) (node : SyntaxId) (i : OperationId) (older : s.Extends s') :
      s.Extends (s'.associate node i) :=
    older.trans (s'.extends_associate node i)
  exact walk_keeps p.supplies_all adds associates depth s scope role node trivial (.refl s)

theorem walk_covers (h : p.Supplies v) (depth : Nat) :
    ∀ s scope role id, v.nodes id → v.CoversStore s →
      v.CoversStore ((walk p options depth scope role id).run s).2 :=
  walk_keeps h (fun _ _ covered covers => covers.add covered)
    (fun _ node i covers => covers.associate node i) depth

/-- A tree mentions only what the program supplies. -/
theorem tree?_covers (h : p.Supplies v) {root : SyntaxId} (known : v.nodes root)
    {t : OperationTree} (built : p.tree? options root = some t) : v.CoversTree t := by
  obtain ⟨i, s, run, rfl⟩ := tree?_eq_some built
  have trail := Context.lowerRoot_walks (c := p.rootContext options root) h known Store.empty
  have covers := trail.keeps (fun _ _ covered covers => covers.add covered)
    (fun _ node i covers => covers.associate node i) (walk_covers h options.maxDepth)
    Vocabulary.coversStore_empty
  rw [run] at covers
  exact covers.finish p i

theorem tree?_of_build {request : Request} {root : SyntaxId} {t : OperationTree}
    (built : p.build options request root = .ok (some t)) : p.tree? options root = some t := by
  cases request with
  | pending => exact build_eq_ok built
  | made => contradiction

/-- The tree of a root of a valid program mentions only nodes, types and symbols that the program
has: the node and the type of every operation, and whatever it names. -/
theorem build_closed (valid : p.validate = .ok ()) (options : LoweringOptions) (request : Request)
    {root : SyntaxId} (inside : root < p.nodes.size) {t : OperationTree}
    (built : p.build options request root = .ok (some t)) : p.vocabulary.CoversTree t :=
  tree?_covers (supplies_of_validate valid) inside (tree?_of_build built)

/-- A call that is left to run time: a member of a variable with a type argument, and as its
argument a call of a known member whose only parameter has its default. -/
def lateCall : Program :=
  { empty "late" with
    nodes := #[⟨.zero, .identifier "d"⟩, ⟨.zero, .memberAccess 0 "Run" [1]⟩, ⟨.zero, .this⟩,
      ⟨.zero, .memberAccess 2 "Get" []⟩, ⟨.zero, .invocation 3 []⟩,
      ⟨.zero, .argument (some "n") .outward 4⟩, ⟨.zero, .invocation 1 [5]⟩,
      ⟨.zero, .expressionStatement 6⟩]
    types := #[⟨"dynamic", .dynamic⟩, ⟨"int", .structType⟩, ⟨"C", .classType⟩]
    symbols := #[
      { Symbol.plain "Get" .method (some 1) with containingType := some 2, parameters := [1] },
      { Symbol.plain "count" .parameter (some 1) with default := some (.int 3) },
      .plain "d" .localVariable (some 0)]
    facts := Std.TreeMap.ofList
      [(0, { Facts.unknown with type := some 0, symbol := some 2 }),
        (2, { Facts.unknown with type := some 2 }),
        (4, { Facts.unknown with
          type := some 1, resolution := some (.resolved 0 [⟨1, .default, none⟩]) })] }

theorem lateCall_closed :
    lateCall.validate = .ok () ∧ 7 < lateCall.nodes.size ∧
      ∃ t, lateCall.build {} .pending 7 = .ok (some t) ∧ t.size = 8 ∧
        lateCall.vocabulary.CoversTree t :=
  have valid : lateCall.validate = .ok () := rfl
  ⟨valid, by decide, _, rfl, by decide +kernel,
    build_closed valid {} .pending (show 7 < lateCall.nodes.size by decide)
      (show lateCall.build {} .pending 7 = .ok (some _) from rfl)⟩

end SemanticTrees.Program
