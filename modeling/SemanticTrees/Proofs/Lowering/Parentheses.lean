import SemanticTrees.Proofs.Lowering.DepthLimits
import SemanticTrees.Proofs.Program.Parentheses

/-! Lowering through parentheses. The run on a node in parentheses is the run on what is inside, one
level deeper, and only associates the node with the operation. So runs in a program with more
parentheses are coupled with those in the program itself, by recursion on the levels that the
former have left, unless one of the two runs out of levels. -/
namespace SemanticTrees

open Lowering

variable {τ : Translation} {w : Stores} {cut : Operation → Operation → Prop}
  {m m' : Lowering OperationId} {σ : OperationSort}

/-- What is only associated with one more node corresponds still. -/
theorem Coupling.Couples.passed_on
    (step : (matching τ cut).Couples w m m' ((matching τ cut).link σ)) (node : SyntaxId) :
    (matching τ cut).Couples w m
      (do
        let i ← m'
        Lowering.associate node i
        return i)
      ((matching τ cut).link σ) := by
  intro v grown holds
  obtain ⟨grown', _, linked⟩ := step v grown holds
  exact ⟨⟨grown'.first, grown'.second.trans (Store.extends_associate _ node _)⟩, trivial, linked⟩

namespace Program

variable {p p' : Program} {o : LoweringOptions} {inner outer root : SyntaxId}

theorem run_parenthesized (known : p.formOf outer = some (.parenthesized inner))
    (plain : p.conversionOf outer = none) (depth : Nat) (scope : Scope) :
    p.run o (depth + 1) ⟨scope, .expression, outer⟩ = do
      let i ← p.run o depth ⟨scope, .expression, inner⟩
      associate outer i
      return i := by
  let c := p.contextAt o depth scope
  have required : c.requiredConversion outer = none := by
    rw [Context.requiredConversion, show c.program.conversionOf outer = none from plain]
    rfl
  have form : c.expressionForm outer (c.formOf outer) = c.parenthesized outer inner := by
    rw [show c.formOf outer = _ from known]
    rfl
  show c.lowerExpression outer = _
  rw [Context.lowerExpression, form]
  unfold Context.converted
  rw [required]
  rfl

theorem callsOf_parenthesized (known : p.formOf outer = some (.parenthesized inner)) (depth : Nat)
    (scope : Scope) :
    p.callsOf o depth ⟨scope, .expression, outer⟩ = [⟨scope, .expression, inner⟩] := by
  let c := p.contextAt o depth scope
  have parts (inSwitch : Bool) : c.parts inSwitch .expression outer = [.expression inner] := by
    rw [Context.parts, show c.formOf outer = _ from known]
    rfl
  exact congrArg (List.map c.call) (parts _)

namespace Parenthesizes

variable (h : p.Parenthesizes inner outer p') (o : LoweringOptions)
  (unreached : ∀ visit, p.Visits o root visit → visit.depth ≠ 0)
  (unreached' : ∀ visit, p'.Visits o root visit → visit.depth ≠ 0)
include h unreached unreached'

/-- Runs that are never out of levels give operations that correspond, however many levels they have
left. -/
theorem run_couples (depth' : Nat) :
    ∀ depth call call', p.Visited o root depth call → p'.Visited o root depth' call' →
      call.Alike (.parenthesizing p inner outer) call' → ∀ w,
      (Coupling.uncut (.parenthesizing p inner outer)).Couples w (p.run o depth call)
        (p'.run o depth' call')
        ((Coupling.uncut (.parenthesizing p inner outer)).link
          (p.resultSort call.role call.node)) := by
  induction depth' with
  | zero => exact fun _ _ _ _ visited' => absurd rfl (visited'.depth_ne_zero unreached')
  | succ depth' ih =>
    intro depth call call' visited visited' alike w
    by_cases entered : call.role = .expression ∧ call'.node = outer
    · obtain ⟨scope, role, id⟩ := call
      obtain ⟨scope', role', id'⟩ := call'
      obtain ⟨rfl, rfl⟩ : role = .expression ∧ id' = outer := entered
      obtain rfl : role' = .expression := alike.role
      have nodes : (id = id' ∧ id ≠ id') ∨ (id = inner ∧ id' = id') := alike.nodes
      obtain rfl : id = inner := (nodes.resolve_left fun same => same.2 same.1).1
      have entering :
          ⟨scope', .expression, id⟩ ∈ p'.callsOf o depth' ⟨scope', .expression, id'⟩ := by
        rw [callsOf_parenthesized h.parenthesized]
        exact List.mem_cons_self
      rw [run_parenthesized h.parenthesized h.conversionOf_outer]
      exact (ih depth _ _ visited (visited'.down entering) ⟨rfl, .inl ⟨rfl, h.apart⟩, nofun⟩
        w).passed_on id'
    · obtain ⟨less, rfl⟩ := Nat.exists_eq_add_one_of_ne_zero (visited.depth_ne_zero unreached)
      refine run_succ_couples h.translates rfl rfl alike (fun expression => ?_) ?_
      · exact alike.nodes.resolve_right fun wrapped => entered ⟨expression, wrapped.2⟩
      · intro part listed part' listed' alike w
        exact ih _ _ _ (visited.down listed) (visited'.down listed') alike w

/-- Roots are lowered to operations that correspond when neither lowering is out of levels. -/
theorem lowerRoot_couples (elsewhere : root ≠ outer) :
    (Coupling.uncut (.parenthesizing p inner outer)).Couples ⟨.empty, .empty⟩
      ((p.rootContext o root).lowerRoot root) ((p'.rootContext o root).lowerRoot root)
      ((Coupling.uncut (.parenthesizing p inner outer)).link? (p.rootSort root)) := by
  have translates : (p.rootContext o root).Translates (.parenthesizing p inner outer)
      (p'.rootContext o root) :=
    ⟨h.translates, rfl, rfl⟩
  have scopes : (p.rootScope root).Alike (p'.rootScope root) :=
    ⟨rfl, fun label => by
      rw [rootScope, rootScope, mem_labelsBelow_iff, mem_labelsBelow_iff, h.hasLabel elsewhere]⟩
  refine Context.lowerRoot_couples translates ?_ scopes ⟨rfl, elsewhere⟩
  intro part listed part' listed' alike w
  exact h.run_couples o unreached unreached' _ _ _ _ (visited_of_root listed)
    (visited_of_root listed') alike w

end Parenthesizes

end Program

end SemanticTrees
