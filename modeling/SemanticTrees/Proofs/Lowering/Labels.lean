import SemanticTrees.Proofs.Graph.Turns
import SemanticTrees.Proofs.Lowering.Scopes

/-! The labels below a root, by paths. The search for them ends for every table of nodes, whatever
the nodes refer to, and the labels it finds are exactly those on which a path from part to part
ends that enters no lambda on its way. -/
namespace SemanticTrees.Program

variable {p : Program} {root id : SyntaxId}

/-- A path from a root down through parts. None of the nodes that it comes to is a lambda, unless it
comes back to a root that is one. -/
structure OpenPath (p : Program) (root : SyntaxId) where
  visits : List SyntaxId
  parts : (root :: visits).IsChain p.HasPart
  opened : ∀ id ∈ visits, p.IsLambda id → id = root

/-- Where a path ends; a path that goes nowhere ends at its root. -/
def OpenPath.endpoint (path : p.OpenPath root) : SyntaxId :=
  (root :: path.visits).getLast (List.cons_ne_nil _ _)

/-- An open path stays in the region of its root. -/
theorem OpenPath.staysIn (path : p.OpenPath root) :
    Relation.ReflTransGen (p.StaysIn root) root path.endpoint := by
  have steps : (root :: path.visits).IsChain (p.StaysIn root) := by
    apply path.parts.imp_of_mem_imp
    intro node part listed _ known
    obtain rfl | visited := List.mem_cons.mp listed
    · exact ⟨known, .inl rfl⟩
    · refine ⟨known, ?_⟩
      by_cases lambda : p.IsLambda node
      · exact .inl (path.opened node visited lambda)
      · exact .inr lambda
  exact List.relationReflTransGen_of_exists_isChain_cons _ steps rfl

/-- What is reached inside a region is reached on an open path, as long as it is not a lambda. -/
theorem exists_openPath (plain : ¬p.IsLambda id)
    (path : Relation.ReflTransGen (p.StaysIn root) root id) :
    ∃ path : p.OpenPath root, path.endpoint = id := by
  obtain ⟨visits, steps, last⟩ := List.exists_isChain_cons_of_relationReflTransGen path
  -- every node but the last one has a step behind it, and that does not start in a lambda
  have opened : ∀ node ∈ root :: visits, p.IsLambda node → node = root := by
    refine steps.backwards_cons_induction _ _ last ?_ fun lambda => absurd lambda plain
    intro node part step _ lambda
    exact step.2.resolve_right (not_not_intro lambda)
  refine ⟨⟨visits, steps.imp fun _ _ step => step.1, ?_⟩, last⟩
  intro node visited
  exact opened node (List.mem_cons_of_mem root visited)

theorem hasLabel_iff_openPath {label : String} :
    p.HasLabel root label ↔
      ∃ path : p.OpenPath root, ∃ statement,
        p.formOf path.endpoint = some (.labeled label statement) := by
  constructor
  · rintro ⟨id, statement, inside, known⟩
    have plain : ¬p.IsLambda id := by
      rintro ⟨parameters, body, other⟩
      simp [known] at other
    obtain ⟨path, rfl⟩ := exists_openPath plain inside
    exact ⟨path, statement, known⟩
  · rintro ⟨path, statement, known⟩
    exact ⟨path.endpoint, statement, path.staysIn, known⟩

/-- The labels of the nodes with a mark. -/
def markedLabels (p : Program) (marks : Array Bool) : List String :=
  (List.range p.nodes.size).filterMap fun id =>
    if marks.getD id false then p.labelOf id else none

/-- The search for the labels below a root makes one turn for the root and one for each part of a
node that it enters. Then nothing waits any more, and the labels of the nodes that it has marked are
exactly those on which an open path ends. -/
theorem labelSearch_exact (p : Program) (root : SyntaxId) :
    (∃ marks, Graph.Search.EndsAfter (p.labelParts root)
        (1 + Graph.Search.departures (p.labelParts root) marks)
        (Graph.Search.start p.nodes.size root) marks ∧
      p.labelsBelow root = p.markedLabels marks) ∧
    ∀ label, label ∈ p.labelsBelow root ↔
      ∃ path : p.OpenPath root, ∃ statement,
        p.formOf path.endpoint = some (.labeled label statement) := by
  refine ⟨⟨_, Graph.Search.endsAfter_reachable _ _ _, rfl⟩, ?_⟩
  intro label
  rw [mem_labelsBelow_iff, hasLabel_iff_openPath]

/-- A lambda over a block that stands in a cycle, lists a node twice and refers to no node. -/
example :
    let p : Program := { empty "tangle" with
      nodes := #[⟨.zero, .lambda [] 1⟩, ⟨.zero, .block [2, 3, 9, 2]⟩, ⟨.zero, .labeled "outer" 0⟩,
        ⟨.zero, .lambda [] 4⟩, ⟨.zero, .labeled "inner" 4⟩] }
    p.labelsBelow 0 = ["outer"] ∧ p.labelsBelow 3 = ["inner"] ∧ p.labelsBelow 9 = [] := by
  cbv

end SemanticTrees.Program
