import SemanticTrees.Proofs.Lowering.Closure

/-! Conversions that contexts require. An expression is lowered by its form first; when its context
requires a conversion, this becomes an operation around it that was not written. -/
namespace SemanticTrees.Context

open Lowering

variable (c : Context)

/-- An operation stands for an expression in its context, given the operation of the expression by
itself: they are the same, or the first is the conversion that the context requires. -/
def Converts (s : Store) (id : SyntaxId) (own i : OperationId) : Prop :=
  match c.requiredConversion id with
  | none => i = own
  | some conversion =>
    ∃ o, s.get? i = some o ∧ o.kind = .conversion own conversion.kind ∧ o.origin = id ∧
      o.type = some conversion.target ∧ o.isImplicit = true ∧
      o.isSelfInvalid = !conversion.kind.isValid

variable {c} in
theorem Converts.mono {s t : Store} {id : SyntaxId} {own i : OperationId}
    (converts : c.Converts s id own i) (older : s.Extends t) : c.Converts t id own i := by
  unfold Converts at *
  split
  · next none =>
    rwa [none] at converts
  · next conversion required =>
    rw [required] at converts
    obtain ⟨o, stored, rest⟩ := converts
    exact ⟨o, older i o stored, rest⟩

theorem converted_extends (id : SyntaxId) (i : OperationId) (s : Store) :
    s.Extends ((c.converted id i).run s).2 := by
  unfold converted
  split
  · exact .refl s
  · exact s.extends_add _

theorem converted_converts (id : SyntaxId) (own : OperationId) (s : Store) :
    c.Converts ((c.converted id own).run s).2 id own ((c.converted id own).run s).1 := by
  unfold converted Converts
  cases c.requiredConversion id with
  | none => rfl
  | some conversion => exact ⟨_, get?_emit s _, rfl, rfl, rfl, rfl, Bool.false_or _⟩

/-- The operation of an expression by itself stays in its place below the conversion. -/
theorem lowerExpression_converts (id : SyntaxId) (s : Store) :
    let own := (c.expressionForm id (c.formOf id)).run s
    let lowered := (c.lowerExpression id).run s
    own.2.Extends lowered.2 ∧ c.Converts lowered.2 id own.1 lowered.1 :=
  ⟨c.converted_extends id _ _, c.converted_converts id _ _⟩

end SemanticTrees.Context
