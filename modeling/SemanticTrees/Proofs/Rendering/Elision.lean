import SemanticTrees.Rendering.Outline
import SemanticTrees.Rendering.Structured
import SemanticTrees.Proofs.Lowering.DepthLimits
import SemanticTrees.Proofs.Lowering.StatementHeights
import SemanticTrees.Proofs.Rendering.Reading

/-! Elision. Renderings leave out what is too deep, and a tree that was lowered with few enough
levels of syntax has nothing that is. The limit of the renderings is twice the limit of lowering,
while a level of syntax may be four levels of operations. -/
namespace SemanticTrees

namespace OperationTree

variable {t : OperationTree} {options : RenderOptions} {taint : Array Bool} {i : OperationId}
  {depth more : Nat}

/-- More levels do not change the text of an operation when all ways down from it are shown. -/
theorem appendOutline_of_within (within : t.Within depth i) (level : Nat) (out : String) :
    t.appendOutline options taint (depth + more) level out i =
      t.appendOutline options taint depth level out i := by
  induction depth generalizing i level out with
  | zero => exact within.elim
  | succ depth ih =>
    rw [Nat.add_right_comm, appendOutline, appendOutline]
    cases found : t.get? i with
    | none => rfl
    | some o =>
      refine List.foldl_ext _ _ _ fun out entry listed => ?_
      refine List.foldl_ext _ _ _ fun out child held => ?_
      exact ih (within child (isChild_of_slot found listed held)) _ _

theorem structuredSlot_congr {f g : OperationId → Json.Value} {slot : Slot}
    (same : ∀ child ∈ slot.children, f child = g child) :
    structuredSlot f slot = structuredSlot g slot := by
  cases slot with
  | one child =>
    cases child with
    | none => rfl
    | some child => exact same child (by simp)
  | many children => exact congrArg Json.Value.array (List.map_congr_left same)

/-- More levels do not change the object of an operation when all ways down from it are shown. -/
theorem structuredAt_of_within (within : t.Within depth i) :
    t.structuredAt taint (depth + more) i = t.structuredAt taint depth i := by
  induction depth generalizing i with
  | zero => exact within.elim
  | succ depth ih =>
    rw [Nat.add_right_comm, structuredAt, structuredAt]
    cases found : t.get? i with
    | none => rfl
    | some o =>
      refine congrArg (fun children => Json.Value.ofFields
        (t.structuredFields o (taint.getD i false) ++ unlessEmpty "children" children)) ?_
      refine List.map_congr_left fun entry listed => ?_
      refine congrArg (entry.1, ·) (structuredSlot_congr fun child held => ?_)
      exact ih (within child (isChild_of_slot found listed held))

/-- Where a way down is too long, the lines of an outline have an ellipsis. -/
theorem exists_ellipsis (deep : ¬t.Within depth i) (level : Nat) :
    ∃ lower, (lower, "...") ∈ outlineLines t depth level i := by
  induction depth generalizing level i with
  | zero => exact ⟨level, List.mem_singleton_self _⟩
  | succ depth ih =>
    obtain ⟨child, known, deep⟩ : ∃ child, t.IsChild i child ∧ ¬t.Within depth child := by
      by_contra none
      exact deep fun child known => by_contra fun deep => none ⟨child, known, deep⟩
    obtain ⟨o, found, listed⟩ := mem_childrenOf_iff.mp known
    obtain ⟨entry, listed, held⟩ := List.mem_flatMap.mp listed
    obtain ⟨lower, line⟩ := ih deep (level + 2)
    refine ⟨lower, ?_⟩
    rw [outlineLines, found]
    refine List.mem_cons_of_mem _ (List.mem_flatMap.mpr ⟨entry, listed, ?_⟩)
    exact List.mem_cons_of_mem _ (List.mem_flatMap.mpr ⟨child, held, line⟩)

/-- The outline of a tree that is too deep has an ellipsis on a line of its own. -/
theorem outline_of_deep (deep : ¬t.Within Limits.printDepth t.root) :
    ∃ before level after, (t.outline RenderOptions.structural t.structuralTaint).toList =
      before ++ lineChars (level, "...") ++ after := by
  obtain ⟨level, line⟩ := exists_ellipsis deep 0
  obtain ⟨front, back, split⟩ := List.append_of_mem line
  refine ⟨front.flatMap lineChars, level, back.flatMap lineChars, ?_⟩
  rw [outline, outlineAt, toList_appendOutline, split, List.flatMap_append, List.flatMap_cons,
    List.append_assoc]
  rfl

end OperationTree

/-- Trees of fewer than 250 levels of syntax are rendered as a whole: no operation is as deep as
renderings go, and renderings that go deeper are the same. -/
theorem Program.tree?_whole {p : Program} {id : SyntaxId} {t : OperationTree}
    (built : p.tree? {} id = some t)
    (shallow : ∀ visit, p.Visits { maxDepth := 249 } id visit → visit.depth ≠ 0) :
    (∀ i < t.size, t.depth i < Limits.printDepth) ∧
      (∀ options taint more, t.appendOutline options taint (Limits.printDepth + more) 0 "" t.root =
        t.outline options taint) ∧
      ∀ taint more, t.structuredAt taint (Limits.printDepth - 1 + more) t.root =
        t.structured taint := by
  have compact : t.Compact := tree?_compact built
  have unreached := (p.tree?_prunes {} id (show 249 ≤ LoweringOptions.maxDepth {} by decide)).2
  have within : t.Within 998 t.root := tree?_within ((unreached shallow).trans built)
  have objects : t.Within (Limits.printDepth - 1) t.root := within.mono (by decide)
  have lines : t.Within Limits.printDepth t.root := within.mono (by decide)
  refine ⟨compact.within_iff.mp lines, ?_, ?_⟩
  · intro options taint more
    exact OperationTree.appendOutline_of_within lines 0 ""
  · intro taint more
    exact OperationTree.structuredAt_of_within objects

theorem Program.nestedSum_whole :
    ∃ t, nestedSum.tree? {} 4 = some t ∧ t.size = 5 ∧
      ∀ taint more, t.structuredAt taint (Limits.printDepth - 1 + more) t.root =
        t.structured taint := by
  have shallow (visit : Visit) (visited : nestedSum.Visits { maxDepth := 249 } 4 visit) :
      visit.depth ≠ 0 :=
    visited.depth_ne_zero_of_levels
      [(.expression, 4, 249), (.expression, 0, 248), (.expression, 3, 248), (.expression, 1, 247),
        (.expression, 2, 247)] (by decide) (by decide) (by decide)
  obtain ⟨t, built, size⟩ : ∃ t, nestedSum.tree? {} 4 = some t ∧ t.size = 5 := ⟨_, rfl, by cbv⟩
  exact ⟨t, built, size, (tree?_whole built shallow).2.2⟩

/-! ### Towers -/

namespace Store

variable {s s' : Store} {t : OperationTree} {root i : OperationId} {place : Nat → Nat}
  {bound n : Nat}

/-- A way down from an operation has a number of steps. -/
inductive Way (s : Store) : Nat → OperationId → Prop
  | here {i : OperationId} {o : Operation} (found : s.get? i = some o) : Way s 0 i
  | down {n : Nat} {i child : OperationId} {o : Operation} (found : s.get? i = some o)
      (listed : child ∈ o.children) (rest : Way s n child) : Way s (n + 1) i

namespace Way

theorem later (way : s.Way n i) (grows : s.Extends s') : s'.Way n i := by
  induction way with
  | here found => exact .here (grows _ _ found)
  | down found listed _ ih => exact .down (grows _ _ found) listed ih

theorem lt_size (way : s.Way n i) : i < s.size := by
  cases way with
  | here found => exact (Array.getElem?_eq_some_iff.mp found).1
  | down found => exact (Array.getElem?_eq_some_iff.mp found).1

end Way

/-- Closing a store keeps the ways down from its root. -/
theorem Compacts.lt_of_way (c : s.Compacts root t place) (keeps : s.Keeps root i)
    (way : s.Way n i) (within : t.Within bound (place i)) : n < bound := by
  induction way generalizing bound with
  | here =>
    cases bound with
    | zero => exact within.elim
    | succ bound => exact Nat.succ_pos bound
  | @down n i child o found listed rest ih =>
    cases bound with
    | zero => exact within.elim
    | succ bound =>
      have member : child ∈ s.childrenOf i := mem_childrenOf_iff.mpr ⟨o, found, listed⟩
      have known : place child ∈ t.childrenOf (place i) := by
        rw [c.childrenOf_place keeps]
        exact List.mem_map_of_mem member
      exact Nat.succ_lt_succ (ih (keeps.child member rest.lt_size) (within _ known))

end Store

namespace Lowering

variable {m : Lowering OperationId} {n : Nat}

/-- Run on any store, a step gives an operation with a way down from it. -/
def Deepens (m : Lowering OperationId) (n : Nat) : Prop := ∀ s, (m.run s).2.Way n (m.run s).1

/-- An operation around another one has a longer way. -/
theorem Deepens.around {o : OperationId → Operation} (step : Deepens m n)
    (listed : ∀ i, i ∈ (o i).children) : Deepens (m >>= fun i => emit (o i)) (n + 1) := by
  intro s
  exact .down (get?_emit (m.run s).2 _) (listed _) ((step s).later (Store.extends_add _ _))

end Lowering

namespace Context

open Lowering

variable {c : Context} {id body : SyntaxId} {parameters : List SyntaxId} {conversion : Conversion}
  {n : Nat}

/-- A lambda that gives an expression and is converted has four levels above the expression. -/
theorem lambda_deepens (form : c.formOf id = some (.lambda parameters body))
    (expression : ∀ statements, c.formOf body ≠ some (.block statements))
    (required : c.requiredConversion id = some conversion)
    (below : Deepens ((c.within (c.program.rootScope body)).expression body) n) :
    Deepens (c.lowerExpression id) (n + 4) := by
  have inner : Deepens ((c.within (c.program.rootScope body)).lambdaBody body) (n + 2) := by
    unfold lambdaBody
    split
    · next statements found => exact absurd found (expression statements)
    · have returned := below.around
        (o := fun value => (c.plain (.returnValue (some value)) body).implicit)
        (by simp [OperationKind.children])
      have block := returned.around
        (o := fun jump => (c.plain (.block [jump]) body).implicit)
        (by simp [OperationKind.children])
      simp only [bind_assoc] at block
      exact block
  have lambda : Deepens (c.lambda id body) (n + 3) := inner.around fun i => by
    rw [children_valued]
    exact List.mem_singleton_self i
  unfold lowerExpression converted
  rw [form, required]
  exact lambda.around fun i => by simp [OperationKind.children]

end Context

namespace Program

/-- A number, and lambdas that each give the node before them. -/
def storey : Nat → Form
  | 0 => .literal "1"
  | k + 1 => .lambda [] k

/-- The storeys up to one, all lambdas converted. -/
def tower : Nat → Program
  | 0 =>
    { empty "tower" with
      nodes := #[⟨.zero, storey 0⟩]
      types := #[⟨"F", .delegateType⟩] }
  | n + 1 =>
    { tower n with
      nodes := (tower n).nodes.push ⟨.zero, storey (n + 1)⟩
      facts := (tower n).facts.insert (n + 1)
        { Facts.unknown with conversion := some ⟨.anonymousFunction, 0, true⟩ } }

variable {n k : Nat}

theorem size_tower (n : Nat) : (tower n).nodes.size = n + 1 := by
  induction n with
  | zero => rfl
  | succ n ih => rw [tower, Array.size_push, ih]

theorem formOf_tower (below : k ≤ n) : (tower n).formOf k = some (storey k) := by
  induction n with
  | zero =>
    obtain rfl := Nat.le_zero.mp below
    rfl
  | succ n ih =>
    change ((tower n).nodes.push ⟨.zero, storey (n + 1)⟩)[k]?.map SyntaxNode.form = _
    rw [Array.getElem?_push, size_tower]
    split
    · next same =>
      subst same
      rfl
    · exact ih (by omega)

theorem conversionOf_tower (below : k < n) :
    (tower n).conversionOf (k + 1) = some ⟨.anonymousFunction, 0, true⟩ := by
  induction n with
  | zero => contradiction
  | succ n ih =>
    unfold conversionOf factsOf
    rw [tower, Std.TreeMap.getD_insert]
    split
    · rfl
    · next other =>
      have different : k ≠ n := by
        rintro rfl
        exact other (compare_eq_iff_eq.mpr rfl)
      exact ih (by omega)

/-- Lowering a storey of a tower gives four levels for each lambda. -/
theorem tower_deepens (options : LoweringOptions) {depth : Nat} (below : k ≤ n) (enough : k < depth)
    (scope : Scope) :
    Lowering.Deepens (walk (tower n) options depth scope .expression k) (4 * k) := by
  induction k generalizing depth scope with
  | zero =>
    intro s
    obtain ⟨o, found, _⟩ := ((walk_raises (tower n) options depth scope .expression 0) s).2 _
      List.mem_cons_self
    exact .here found
  | succ k ih =>
    obtain ⟨depth, rfl⟩ := Nat.exists_eq_succ_of_ne_zero (Nat.ne_zero_of_lt enough)
    have noBlock (statements : List SyntaxId) : (tower n).formOf k ≠ some (.block statements) := by
      rw [formOf_tower (by omega)]
      cases k <;> simp [storey]
    have required : ((tower n).contextAt options depth scope).requiredConversion (k + 1) =
        some ⟨.anonymousFunction, 0, true⟩ := by
      unfold Context.requiredConversion
      rw [show ((tower n).contextAt options depth scope).program.conversionOf (k + 1) = _ from
        conversionOf_tower below]
      rfl
    exact Context.lambda_deepens (formOf_tower below) noBlock required
      (ih (by omega) (by omega) _)

/-- The tree of a tower has at least four levels for each lambda, and one more. -/
theorem tower_not_within {options : LoweringOptions} (enough : n < options.maxDepth) :
    ∃ t, (tower n).tree? options n = some t ∧ ¬t.Within (4 * n) t.root := by
  have form : (tower n).formOf n = some (storey n) := formOf_tower (Nat.le_refl n)
  have lowered : ((tower n).rootContext options n).lowerRoot n =
      some <$> ((tower n).rootContext options n).expression n := by
    unfold Context.lowerRoot
    rw [show ((tower n).rootContext options n).formOf n = _ from form]
    cases n <;> rfl
  have way := tower_deepens options (Nat.le_refl n) enough ((tower n).rootScope n) Store.empty
  let run := (((tower n).rootContext options n).expression n).run Store.empty
  refine ⟨run.2.finish (tower n) run.1, ?_, ?_⟩
  · unfold tree?
    rw [lowered]
    rfl
  · obtain ⟨place, compacts⟩ := run.2.finish_compacts (tower n) run.1
    rw [compacts.top]
    intro within
    exact Nat.lt_irrefl _ (compacts.lt_of_way (.refl way.lt_size) way within)

/-- The tree of a high tower is deeper than renderings show, and its outline leaves something out. -/
theorem tower_elided : ∃ t, (tower 250).tree? {} 250 = some t ∧
    (∃ i < t.size, Limits.printDepth ≤ t.depth i) ∧
    ∃ before level after, (t.outline RenderOptions.structural t.structuralTaint).toList =
      before ++ lineChars (level, "...") ++ after := by
  obtain ⟨t, built, deep⟩ : ∃ t, (tower 250).tree? {} 250 = some t ∧ ¬t.Within (4 * 250) t.root :=
    tower_not_within (by decide)
  refine ⟨t, built, ?_, OperationTree.outline_of_deep deep⟩
  by_contra shallow
  refine deep ((tree?_compact built).within_iff.mpr fun i inside => ?_)
  by_contra high
  exact shallow ⟨i, inside, Nat.le_of_not_lt high⟩

end Program

end SemanticTrees
