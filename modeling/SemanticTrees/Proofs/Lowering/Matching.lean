import SemanticTrees.Proofs.Lowering.RootCouplings
import SemanticTrees.Proofs.Operation.Correspondence
import SemanticTrees.Proofs.Program.Renumbering

/-! What two runs of lowering build. Runs that are coupled by correspondence build trees whose roots
correspond, and runs that fill the same store build the same tree. -/
namespace SemanticTrees

open Lowering

variable {τ : Translation} {K : Coupling τ} {σ : OperationSort} {id id' : SyntaxId}

theorem Scope.alike_refl (s : Scope) : s.Alike s := ⟨rfl, fun _ => .rfl⟩

namespace Coupling

/-- Operations of the two stores correspond. -/
def matching (τ : Translation) (cut : Operation → Operation → Prop) : Coupling τ where
  holds _ := True
  link σ w := Corresponds τ cut w.first.get? w.second.get? σ
  lasts _ _ _ _ _ grown related := related.mono grown.first grown.second
  weaken within related := related.weaken within
  add := by
    intro w o o' _ alike
    refine ⟨trivial, fun σ fits => ?_⟩
    have grown := w.extends_add o o'
    exact .node (get?_emit w.first o) (get?_emit w.second o') fits alike
      fun ρ _ _ related => related.mono grown.first grown.second
  associate _ _ _ := trivial

/-- Operations of the two stores correspond, and none is cut off. -/
abbrev uncut (τ : Translation) : Coupling τ := matching τ fun _ _ => False

/-- Both runs fill the same store. -/
def lockstep : Coupling .identity where
  holds w := w.first = w.second
  link _ _ i i' := i = i'
  lasts _ _ _ _ _ _ same := same
  weaken _ same := same
  add := by
    rintro ⟨s, s'⟩ o o' (same : s = s') alike
    subst same
    obtain rfl := Operation.eq_of_alike alike
    exact ⟨rfl, fun _ _ => rfl⟩
  associate := by
    rintro ⟨s, s'⟩ node node' i i' (same : s = s') (nodes : node = node') rfl
    subst same nodes
    rfl

end Coupling

namespace Program

variable {p p' : Program} {o o' : LoweringOptions}

/-- Coupled roots have trees on both sides or on neither, and these are made of linked operations of
coupled stores. -/
theorem tree?_rel (coupled : K.Couples ⟨.empty, .empty⟩ ((p.rootContext o id).lowerRoot id)
      ((p'.rootContext o' id').lowerRoot id') (K.link? σ)) (start : K.holds ⟨.empty, .empty⟩) :
    Option.Rel (fun t t' => ∃ (w : Stores) (i i' : OperationId), K.holds w ∧ K.link σ w i i' ∧
      t = w.first.finish p i ∧ t' = w.second.finish p' i') (p.tree? o id) (p'.tree? o' id') := by
  obtain ⟨_, holds, linked⟩ := coupled _ (.refl _) start
  unfold tree?
  generalize ((p.rootContext o id).lowerRoot id).run Store.empty = given at holds linked ⊢
  generalize ((p'.rootContext o' id').lowerRoot id').run Store.empty = given' at holds linked ⊢
  obtain ⟨root, s⟩ := given
  obtain ⟨root', s'⟩ := given'
  cases linked with
  | none => exact .none
  | some linked => exact .some ⟨⟨s, s'⟩, _, _, holds, linked, rfl, rfl⟩

/-- The trees of roots whose operations correspond do so. -/
theorem tree?_corresponds {cut : Operation → Operation → Prop}
    (closed : ∀ a b f g, cut a b → cut (a.mapChildren f) (b.mapChildren g))
    (coupled : (Coupling.matching τ cut).Couples ⟨.empty, .empty⟩
      ((p.rootContext o id).lowerRoot id) ((p'.rootContext o' id').lowerRoot id')
      ((Coupling.matching τ cut).link? σ)) :
    Option.Rel (fun t t' => Corresponds τ cut t.get? t'.get? σ t.root t'.root) (p.tree? o id)
      (p'.tree? o' id') := by
  refine rel_imp ?_ (tree?_rel coupled trivial)
  rintro _ _ ⟨w, i, i', _, related, rfl, rfl⟩
  exact Store.finish_corresponds closed related p p'

/-- Without cuts, the trees of roots whose operations correspond do so as well. -/
theorem tree?_uncut (coupled : (Coupling.uncut τ).Couples ⟨.empty, .empty⟩
      ((p.rootContext o id).lowerRoot id) ((p'.rootContext o' id').lowerRoot id')
      ((Coupling.uncut τ).link? σ)) :
    Option.Rel (fun t t' => Corresponds τ (fun _ _ => False) t.get? t'.get? σ t.root t'.root)
      (p.tree? o id) (p'.tree? o' id') :=
  tree?_corresponds (fun _ _ _ _ never => never) coupled

/-- Runs of one program that fill the same store build the same tree. -/
theorem tree?_eq_of_lockstep (coupled : Coupling.lockstep.Couples ⟨.empty, .empty⟩
    ((p.rootContext o id).lowerRoot id) ((p.rootContext o' id).lowerRoot id)
    (Coupling.lockstep.link? σ)) : p.tree? o id = p.tree? o' id := by
  have trees := tree?_rel coupled rfl
  generalize p.tree? o id = t at trees ⊢
  generalize p.tree? o' id = t' at trees ⊢
  cases trees with
  | none => rfl
  | some same =>
    obtain ⟨⟨s, s'⟩, i, i', (stores : s = s'), (places : i = i'), rfl, rfl⟩ := same
    rw [stores, places]

section Same

variable (h : p.Translates τ p') (lambdas : o'.taintLambdas = o.taintLambdas)
  (typed : o'.flagTypeArguments = o.flagTypeArguments) (depths : o'.maxDepth = o.maxDepth)
include h lambdas typed depths

/-- In a program that translates another one, roots of like forms are lowered alike at the same
depth. -/
theorem lowerRoot_couples_of_same (exact : ∀ {id id'}, τ.nodes id id' → τ.same id id')
    (scopes : (p.rootScope id).Alike (p'.rootScope id')) (nodes : τ.nodes id id') :
    K.Couples ⟨.empty, .empty⟩ ((p.rootContext o id).lowerRoot id)
      ((p'.rootContext o' id').lowerRoot id') (K.link? (p.rootSort id)) :=
  lowerRoot_couples_of_limit h lambdas typed exact
    (show o'.maxDepth = o.maxDepth + 0 from depths) (fun _ _ => trivial)
    (fun _ _ _ (_ : True) _ => trivial)
    (fun _ _ _ alike _ => run_zero_couples h lambdas typed alike) scopes nodes

end Same

end Program

end SemanticTrees
