import SemanticTrees.Proofs.Program.Nesting
import SemanticTrees.Proofs.Program.WellFormed
import SemanticTrees.Program.Draft

/-! Programs that are put together by hand. As long as every step names only what is already there,
nodes come after the nodes they are made of. When no node is shared, the finished program has its
spans nested like its nodes. -/
namespace SemanticTrees

namespace Draft

open Program

variable {d : Draft} {a b id whole part : SyntaxId}

/-- The draft behind a step. -/
def after {α : Type} (d : Draft) (step : Drafting α) : Draft := (step.run d).2

/-- Drafts that are put together step by step, where every step names only types, symbols and nodes
that are already there. The other steps are sequences of these. -/
inductive Assembled : Draft → Prop
  | start (fileName : String) : Assembled (start fileName)
  | type {d : Draft} (name : String) (kind : TypeKind) (assembled : Assembled d)
      (issued : ∀ inner ∈ kind.inner, inner < d.program.types.size) :
      Assembled (d.after (Drafting.type name kind))
  | symbol {d : Draft} (s : Symbol) (assembled : Assembled d)
      (issued : d.program.SymbolInRange s) : Assembled (d.after (Drafting.symbol s))
  | changeSymbol {d : Draft} (id : SymbolId) (f : Symbol → Symbol) (assembled : Assembled d)
      (issued : ∀ s, d.program.symbols[id]? = some s → d.program.SymbolInRange (f s)) :
      Assembled (d.after (Drafting.changeSymbol id f))
  | node {d : Draft} (form : Form) (assembled : Assembled d)
      (issued : ∀ part ∈ form.children, part < d.program.nodes.size)
      (named : ∀ type ∈ form.typesNamed, type < d.program.types.size) :
      Assembled (d.after (Drafting.node form))
  | changeFacts {d : Draft} (id : SyntaxId) (f : Facts → Facts) (assembled : Assembled d)
      (issued : id < d.program.nodes.size)
      (known : d.program.FactsInRange (f (d.program.factsOf id))) :
      Assembled (d.after (Drafting.changeFacts id f))
  | addMember {d : Draft} (id : SyntaxId) (assembled : Assembled d)
      (issued : id < d.program.nodes.size) : Assembled (d.after (Drafting.addMember id))
  | report {d : Draft} (diagnostic : Diagnostic) (assembled : Assembled d) :
      Assembled (d.after (Drafting.report diagnostic))
  | reportAt {d : Draft} (id : SyntaxId) (category : Category) (code : Nat) (text : String)
      (assembled : Assembled d) (issued : id < d.program.nodes.size) :
      Assembled (d.after (Drafting.reportAt id category code text))

theorem after_type (name : String) (kind : TypeKind) :
    d.after (Drafting.type name kind) =
      match d.program.types.find name with
      | some _ => d
      | none =>
        { d with program := { d.program with types := d.program.types.push ⟨name, kind⟩ } } := by
  change ((match d.program.types.find name with
    | some id => pure id
    | none => _ : Drafting TypeId).run d).2 = _
  split <;> rfl

theorem formOf_after_node (form : Form) :
    (d.after (Drafting.node form)).program.formOf id =
      if id = d.program.nodes.size then some form else d.program.formOf id := by
  change (d.program.nodes.push ⟨Span.zero, form⟩)[id]?.map SyntaxNode.form = _
  rw [Array.getElem?_push]
  split <;> rfl

/-- Nodes come after the nodes they are made of. -/
theorem Assembled.lt_of_hasPart (assembled : d.Assembled) (known : d.program.HasPart whole part) :
    part < whole := by
  induction assembled with
  | start => exact absurd known (not_hasPart_of_size_le (Nat.zero_le _) _)
  | @type d name kind _ _ ih =>
    rw [after_type] at known
    cases found : d.program.types.find name <;> rw [found] at known <;> exact ih known
  | node form _ issued _ ih =>
    obtain ⟨other, found, listed⟩ := mem_childrenOf_iff.mp known
    rw [formOf_after_node] at found
    split at found
    · next newest =>
      obtain rfl := Option.some.inj found
      exact newest ▸ issued part listed
    · exact ih (hasPart_of_formOf found listed)
  | symbol _ _ _ ih => exact ih known
  | changeSymbol _ _ _ _ ih => exact ih known
  | changeFacts _ _ _ _ _ ih => exact ih known
  | addMember _ _ _ ih => exact ih known
  | report _ _ ih => exact ih known
  | reportAt _ _ _ _ _ _ ih => exact ih known

theorem Assembled.le_of_below (assembled : d.Assembled) (below : d.program.Below a b) : b ≤ a := by
  induction below with
  | refl => exact Nat.le_refl a
  | tail _ known ih => exact (Nat.le_of_lt (assembled.lt_of_hasPart known)).trans ih

theorem Assembled.acyclic (assembled : d.Assembled) : d.program.Acyclic := by
  intro id cycle
  have down {a b : SyntaxId} (below : Relation.TransGen d.program.HasPart a b) : b < a := by
    induction below with
    | single known => exact assembled.lt_of_hasPart known
    | tail _ known ih => exact (assembled.lt_of_hasPart known).trans ih
  exact Nat.lt_irrefl id (down cycle)

theorem Assembled.tidy (assembled : d.Assembled) (unshared : d.program.Unshared) :
    d.program.Tidy :=
  { unshared with acyclic := assembled.acyclic }

section Finish

variable (tidy : d.program.Tidy)
include tidy

/-- Finishing a draft places its nodes and changes nothing else about them. -/
theorem forms_finish :
    d.finish.nodes.map SyntaxNode.form = d.program.nodes.map SyntaxNode.form :=
  tidy.run_layout.forms

theorem hasPart_finish : d.finish.HasPart = d.program.HasPart := hasPart_congr (forms_finish tidy)

theorem below_finish : d.finish.Below = d.program.Below :=
  congrArg Relation.ReflTransGen (hasPart_finish tidy)

theorem size_finish : d.finish.nodes.size = d.program.nodes.size := by
  simpa using congrArg Array.size (forms_finish tidy)

theorem tidy_finish : d.finish.Tidy where
  acyclic := by
    unfold Acyclic
    rw [hasPart_finish tidy]
    exact tidy.acyclic
  once := by
    have listed (p : Program) : p.nodes.toList.flatMap (fun n => n.form.children) =
        (p.nodes.map SyntaxNode.form).toList.flatMap Form.children := by
      rw [Array.toList_map, List.flatMap_map]
    rw [listed, forms_finish tidy, ← listed]
    exact tidy.once
  distinct := tidy.distinct
  free := by
    intro member listed
    unfold Program.IsTop
    rw [hasPart_finish tidy]
    exact tidy.free member listed

theorem nested_finish : d.finish.Nested where
  ordered id inside := (tidy.placed (size_finish tidy ▸ inside)).ordered
  inside a b below inside :=
    tidy.contains_of_below (below_finish tidy ▸ below) (size_finish tidy ▸ inside)
  apart a b ab ba inside inside' := by
    rw [below_finish tidy] at ab ba
    rw [size_finish tidy] at inside inside'
    exact tidy.apart_of_not_below ab ba inside inside'
  strict whole part known inside plain := by
    rw [hasPart_finish tidy] at known
    rw [size_finish tidy] at inside
    simp only [IsArgument, formOf_congr (forms_finish tidy)] at plain
    exact (tidy.placed (lt_of_hasPart known)).strict plain part known inside

end Finish

end Draft

end SemanticTrees
