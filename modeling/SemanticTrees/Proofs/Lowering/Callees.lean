import SemanticTrees.Proofs.Lowering.Scopes
import Mathlib.Data.List.Perm.Subperm

/-! What parentheses hide. Callees that are known at run time only and lambdas are found through
parentheses, with as many steps as there are nodes. No more are ever needed, since the nodes on the
shortest way to what is looked for are all different. -/
namespace SemanticTrees

namespace Program

variable (p : Program)

/-- The type of an expression is known at run time only. -/
def HasDynamicType (id : SyntaxId) : Prop :=
  ∃ type info, p.typeOf id = some type ∧ p.types[type]? = some info ∧ info.kind = .dynamic

def HasArrayType (id : SyntaxId) : Prop :=
  ∃ type info element, p.typeOf id = some type ∧ p.types[type]? = some info ∧
    info.kind = .array element

/-- An expression is found by removing some of the outer parentheses of another one. -/
def Unwraps : SyntaxId → SyntaxId → Prop :=
  Relation.ReflTransGen fun id inner => p.formOf id = some (.parenthesized inner)

/-- An expression is known at run time only, or is a member of one that is. -/
def IsLateTarget (id : SyntaxId) : Prop :=
  p.HasDynamicType id ∨ ∃ receiver name typeArguments,
    p.formOf id = some (.memberAccess receiver name typeArguments) ∧ p.HasDynamicType receiver

/-- A callee is known at run time only as it stands or without some of its parentheses. -/
def IsLateCallee (callee : SyntaxId) : Prop := ∃ id, p.Unwraps callee id ∧ p.IsLateTarget id

/-- An expression is a lambda, inside parentheses or not. -/
def HoldsLambda (id : SyntaxId) : Prop := ∃ inner, p.Unwraps id inner ∧ p.IsLambda inner

/-- A test that looks for something through so many pairs of parentheses. A node of which more is
looked at than without any steps exists. -/
structure Searches (test : Nat → SyntaxId → Prop) (hit : SyntaxId → Prop) : Prop where
  start : ∀ {id}, test 0 id → hit id
  step : ∀ {fuel id}, test (fuel + 1) id ↔
    hit id ∨ ∃ inner, p.formOf id = some (.parenthesized inner) ∧ test fuel inner
  known : ∀ {id}, hit id → test 0 id ∨ id < p.nodes.size

namespace Searches

variable {p : Program} {test : Nat → SyntaxId → Prop} {hit : SyntaxId → Prop} {fuel more : Nat}
  {id : SyntaxId} (s : p.Searches test hit)
include s

theorem mono (le : fuel ≤ more) (found : test fuel id) : test more id := by
  induction fuel generalizing more id with
  | zero =>
    cases more with
    | zero => exact found
    | succ more => exact s.step.mpr (.inl (s.start found))
  | succ fuel ih =>
    obtain ⟨more, rfl⟩ : ∃ n, more = n + 1 := Nat.exists_eq_add_one.mpr (by omega)
    obtain here | ⟨inner, form, found⟩ := s.step.mp found
    · exact s.step.mpr (.inl here)
    · exact s.step.mpr (.inr ⟨inner, form, ih (by omega) found⟩)

theorem lt_of_needed (found : test (fuel + 1) id) (needed : ¬test fuel id) :
    id < p.nodes.size := by
  obtain here | ⟨inner, form, _⟩ := s.step.mp found
  · exact (s.known here).resolve_left fun enough => needed (s.mono (Nat.zero_le fuel) enough)
  · exact lt_of_formOf form

/-- When a number of steps is needed, there are as many different nodes on the way. -/
theorem exists_way (found : test (fuel + 1) id) (needed : ¬test fuel id) :
    ∃ way : List SyntaxId, way.length = fuel + 1 ∧ way.Nodup ∧
      ∀ node ∈ way, node < p.nodes.size ∧ test (fuel + 1) node := by
  have bound := s.lt_of_needed found needed
  induction fuel generalizing id with
  | zero => exact ⟨[id], rfl, List.nodup_singleton id, by simp [bound, found]⟩
  | succ fuel ih =>
    obtain here | ⟨inner, form, deeper⟩ := s.step.mp found
    · exact absurd (s.step.mpr (.inl here)) needed
    · have further : ¬test fuel inner := by
        intro sooner
        exact needed (s.step.mpr (.inr ⟨inner, form, sooner⟩))
      obtain ⟨way, length, nodup, each⟩ := ih deeper further (s.lt_of_needed deeper further)
      refine ⟨id :: way, by rw [List.length_cons, length], List.nodup_cons.mpr ⟨?_, nodup⟩, ?_⟩
      · intro again
        exact needed (each id again).2
      · rintro node member
        obtain rfl | later := List.mem_cons.mp member
        · exact ⟨bound, found⟩
        · exact ⟨(each node later).1, s.mono (Nat.le_succ _) (each node later).2⟩

/-- No more steps are needed than there are nodes. -/
theorem enough (found : test fuel id) : test p.nodes.size id := by
  induction fuel with
  | zero => exact s.mono (Nat.zero_le _) found
  | succ fuel ih =>
    by_cases needed : test fuel id
    · exact ih needed
    · obtain ⟨way, length, nodup, each⟩ := s.exists_way found needed
      have inside : way ⊆ List.range p.nodes.size :=
        fun node member => List.mem_range.mpr (each node member).1
      have short := (List.subperm_of_subset nodup inside).length_le
      rw [length, List.length_range] at short
      exact s.mono short found

theorem exists_fuel_iff : (∃ fuel, test fuel id) ↔ ∃ inner, p.Unwraps id inner ∧ hit inner := by
  constructor
  · rintro ⟨fuel, found⟩
    induction fuel generalizing id with
    | zero => exact ⟨id, .refl, s.start found⟩
    | succ fuel ih =>
      obtain here | ⟨inner, form, found⟩ := s.step.mp found
      · exact ⟨id, .refl, here⟩
      · obtain ⟨target, path, here⟩ := ih found
        exact ⟨target, .head form path, here⟩
  · rintro ⟨target, path, here⟩
    induction path using Relation.ReflTransGen.head_induction_on with
    | refl => exact ⟨1, s.step.mpr (.inl here)⟩
    | head form _ ih =>
      obtain ⟨fuel, found⟩ := ih
      exact ⟨fuel + 1, s.step.mpr (.inr ⟨_, form, found⟩)⟩

/-- The test, with as much fuel as there are nodes, finds what parentheses hide. -/
theorem size_iff : test p.nodes.size id ↔ ∃ inner, p.Unwraps id inner ∧ hit inner := by
  rw [← s.exists_fuel_iff]
  exact ⟨fun found => ⟨_, found⟩, fun ⟨_, found⟩ => s.enough found⟩

end Searches

end Program

namespace Context

variable {c : Context} {id callee : SyntaxId} {fuel : Nat}

theorem isDynamic_iff : c.isDynamic id = true ↔ c.program.HasDynamicType id := by
  unfold isDynamic typeOf Program.HasDynamicType TypeTable.isDynamic TypeTable.kindOf
  simp [Option.any_eq_true]

theorem isArray_iff :
    (c.typeOf id).any c.program.types.isArray = true ↔ c.program.HasArrayType id := by
  have kind (type : TypeId) : c.program.types.isArray type = true ↔
      ∃ info element, c.program.types[type]? = some info ∧ info.kind = .array element := by
    unfold TypeTable.isArray TypeTable.kindOf
    cases c.program.types[type]? with
    | none => simp
    | some info => cases info with | mk name kind => cases kind <;> simp
  simp [typeOf, Program.HasArrayType, Option.any_eq_true, kind]

/-- The test of a callee when it may look through one more pair of parentheses. -/
theorem isDynamicCallee_succ_iff :
    c.isDynamicCallee (fuel + 1) id = true ↔ c.program.IsLateTarget id ∨
      ∃ inner, c.formOf id = some (.parenthesized inner) ∧ c.isDynamicCallee fuel inner = true := by
  have form : c.program.formOf id = c.formOf id := rfl
  rw [isDynamicCallee, Bool.or_eq_true, isDynamic_iff, Program.IsLateTarget, form, or_assoc]
  refine or_congr_right ?_
  cases c.formOf id with
  | none => simp
  | some form => cases form <;> simp [isDynamic_iff]

theorem searches_isDynamicCallee :
    c.program.Searches (fun fuel id => c.isDynamicCallee fuel id = true)
      c.program.IsLateTarget where
  start late := .inl (isDynamic_iff.mp late)
  step := isDynamicCallee_succ_iff
  known := by
    rintro id (dynamic | ⟨receiver, name, typeArguments, form, _⟩)
    · exact .inl (isDynamic_iff.mpr dynamic)
    · exact .inr (Program.lt_of_formOf form)

/-- The test of a callee finds what parentheses hide. -/
theorem isDynamicCallee_iff :
    c.isDynamicCallee c.program.nodes.size callee = true ↔ c.program.IsLateCallee callee :=
  searches_isDynamicCallee.size_iff

theorem searches_unparenthesized :
    c.program.Searches (fun fuel id => c.program.IsLambda (c.unparenthesized fuel id))
      c.program.IsLambda where
  start := fun lambda => lambda
  step := by
    intro fuel id
    rw [unparenthesized]
    cases found : c.formOf id with
    | none => simp [Program.IsLambda, show c.program.formOf id = none from found]
    | some form =>
      have known : c.program.formOf id = some form := found
      cases form <;> simp [Program.IsLambda, known]
  known := fun lambda => .inl lambda

/-- The test of a lambda finds what parentheses hide. -/
theorem isLambda_iff : c.isLambda id = true ↔ c.program.HoldsLambda id := by
  refine Iff.trans ?_ searches_unparenthesized.size_iff
  unfold isLambda Program.IsLambda
  rw [show c.program.formOf (c.unparenthesized c.program.nodes.size id) =
    c.formOf (c.unparenthesized c.program.nodes.size id) from rfl]
  cases c.formOf (c.unparenthesized c.program.nodes.size id) with
  | none => simp
  | some form => cases form <;> simp

end Context

end SemanticTrees
