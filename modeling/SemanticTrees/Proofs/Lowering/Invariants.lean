import SemanticTrees.Proofs.Lowering.Dividing
import SemanticTrees.Proofs.Lowering.StatementCourses

/-! Invariants of the walk. Terms that let everything be lowered that a node involves give every run
of the walk a course; what additions and associations on these terms keep, the walk keeps, and so
does the lowering of a root. -/
namespace SemanticTrees.Program

open Lowering

variable {p : Program} {options : LoweringOptions} {t : Terms} {id : SyntaxId} {depth : Nat}
  {scope : Scope} {role : Role}

/-- The terms let a program be lowered. -/
structure Permits (p : Program) (options : LoweringOptions) (t : Terms) : Prop
    extends p.Allows t where
  conversions : ∀ o, p.Records o → t.nodes o.origin → t.adds o
  parentheses : ∀ depth scope id inner s, p.formOf id = some (.parenthesized inner) →
    let lowered := (walk p options depth scope .expression inner).run s
    t.associates lowered.2 id lowered.1

namespace Permits

variable (h : p.Permits options t)
include h

theorem walk_takes (known : t.nodes id) (depth : Nat) (scope : Scope) (role : Role) :
    let c := p.contextAt options depth scope
    c.TakesOne t (c.parts scope.innermostSwitch.isSome role id)
      (walk p options (depth + 1) scope role id) := by
  have own (o : Operation) (records : p.Records o) (same : o.origin = id) : t.adds o :=
    h.conversions o records (same ▸ known)
  refine Program.walk_takes h.toAllows known depth scope role ?_ fun _ => own
  intro _
  exact ⟨fun _ _ _ => own, fun inner found s => h.parentheses depth scope id inner s found⟩

theorem reaches {node : SyntaxId} (known : t.nodes id) (reaches : p.Reaches id node) :
    t.nodes node := by
  induction reaches with
  | refl => exact known
  | tail _ step ih => exact h.involved _ _ ih step

/-- The nodes that the walk comes to are covered by the terms. -/
theorem parts_known (known : t.nodes id) (depth : Nat) (scope : Scope) (role : Role) :
    let c := p.contextAt options depth scope
    ∀ call ∈ (c.parts scope.innermostSwitch.isSome role id).map c.call, t.nodes call.node := by
  intro c call listed
  obtain ⟨part, member, rfl⟩ := List.mem_map.mp listed
  exact h.reaches known ((c.parts_split _ role id).reached (List.mem_map_of_mem member))

variable {I : Store → Prop} (adds : ∀ s o, t.adds o → I s → I (s.add o))
  (associates : ∀ s node i, t.associates s node i → I s → I (s.associate node i))
include adds associates

theorem walk_keeps (depth : Nat) :
    ∀ s scope role id, t.nodes id → I s → I ((walk p options depth scope role id).run s).2 := by
  induction depth with
  | zero =>
    intro s scope role id known
    exact (walk_zero_takes h.toAllows known scope role s []).keeps adds associates (by simp)
  | succ depth ih =>
    intro s scope role id known
    refine (h.walk_takes known depth scope role s []).keeps adds associates ?_
    intro s call listed
    exact ih s call.scope call.role call.node (h.parts_known known depth scope role call listed)

/-- What additions and associations keep holds of the store that lowering a root fills. -/
theorem lowerRoot_keeps (known : t.nodes id) (start : I .empty) :
    I (((p.rootContext options id).lowerRoot id).run Store.empty).2 := by
  refine (rootContext_takes h.toAllows known options Store.empty []).keeps adds associates ?_ start
  intro s call listed
  obtain ⟨part, member, rfl⟩ := List.mem_map.mp listed
  refine h.walk_keeps adds associates options.maxDepth s _ _ _ (h.reaches known ?_)
  exact ((p.rootContext options id).rootParts_split id).reached (List.mem_map_of_mem member)

/-- A tree comes from a store that has what additions and associations keep. -/
theorem tree?_keeps {tree : OperationTree} (known : t.nodes id) (start : I .empty)
    (built : p.tree? options id = some tree) : ∃ root s, I s ∧ tree = s.finish p root := by
  obtain ⟨root, s, run, rfl⟩ := tree?_eq_some built
  have kept := h.lowerRoot_keeps adds associates known start
  rw [run] at kept
  exact ⟨root, s, kept, rfl⟩

end Permits

/-- Operations are made for some nodes only. -/
def within (nodes : SyntaxId → Prop) : Terms where
  nodes := nodes
  adds o := nodes o.origin
  forgoes _ := True
  associates _ _ _ := True

theorem permits_within (options : LoweringOptions) {nodes : SyntaxId → Prop}
    (closed : ∀ id node, nodes id → p.Involves id node → nodes node) :
    p.Permits options (within nodes) where
  involved := closed
  adds _ known _ := known
  forgoes _ _ _ := trivial
  conversions _ _ known := known
  parentheses _ _ _ _ _ _ := trivial

end SemanticTrees.Program
