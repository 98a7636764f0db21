import SemanticTrees.Proofs.Operation.Likeness

/-! Two runs of lowering side by side. A coupling says what the stores of two runs have in common and
which operations of the one are linked to which of the other; adding alike operations keeps it. A
pair of steps is coupled when it keeps the coupling and links what it gives. The rules compose pairs
of steps, and open no store. -/
namespace SemanticTrees

/-- Two stores that are filled side by side. -/
structure Stores where
  first : Store
  second : Store

namespace Stores

variable {w v u : Stores}

/-- Both stores keep what they have, and may have more. -/
structure Extends (w v : Stores) : Prop where
  first : w.first.Extends v.first
  second : w.second.Extends v.second

theorem Extends.refl (w : Stores) : w.Extends w := ⟨.refl _, .refl _⟩

theorem Extends.trans (early : w.Extends v) (late : v.Extends u) : w.Extends u :=
  ⟨early.first.trans late.first, early.second.trans late.second⟩

def add (w : Stores) (o o' : Operation) : Stores := ⟨w.first.add o, w.second.add o'⟩

theorem extends_add (w : Stores) (o o' : Operation) : w.Extends (w.add o o') :=
  ⟨w.first.extends_add o, w.second.extends_add o'⟩

/-- What two runs may give, together with the stores that they leave. -/
abbrev Relation (α β : Type) := Stores → α → β → Prop

/-- Whatever is added later does not matter. -/
def Lasts {α β : Type} (R : Relation α β) : Prop :=
  ∀ {w v : Stores} {a : α} {b : β}, w.Extends v → R w a b → R v a b

end Stores

/-- What two runs of lowering have in common: a property of their stores, and for every sort a link
between operations of the one and operations of the other. Operations that are added on both sides
and are alike, with linked children, are linked for every sort that admits them. -/
structure Coupling (τ : Translation) where
  holds : Stores → Prop
  link : OperationSort → Stores.Relation OperationId OperationId
  lasts : ∀ σ, Stores.Lasts (link σ)
  weaken : ∀ {σ ρ : OperationSort} {w : Stores} {i i' : OperationId}, σ.Within ρ →
    link σ w i i' → link ρ w i i'
  add : ∀ {w : Stores} {o o' : Operation}, holds w → o.Alike τ (fun σ => link σ w) o' →
    holds (w.add o o') ∧
      ∀ σ, σ.admits o.kind = true → link σ (w.add o o') w.first.size w.second.size
  associate : ∀ {w : Stores} {node node' : SyntaxId} {i i' : OperationId}, holds w →
    τ.nodes node node' → link .expression w i i' →
      holds ⟨w.first.associate node i, w.second.associate node' i'⟩

namespace Coupling

open Lowering Stores

variable {τ : Translation} (K : Coupling τ) {w v : Stores} {α β γ δ : Type}

/-- The operations that are given, if any, are linked. -/
abbrev link? (σ : OperationSort) : Relation (Option OperationId) (Option OperationId) :=
  fun w => Option.Rel (K.link σ w)

/-- The operations that are given are linked one by one. -/
abbrev links (σ : OperationSort) : Relation (List OperationId) (List OperationId) :=
  fun w => List.Forall₂ (K.link σ w)

/-- The stores of two runs, from some time on, stay coupled when the runs do a step each, and what the
steps give is related. -/
def Couples (w : Stores) (m : Lowering α) (m' : Lowering β) (R : Relation α β) : Prop :=
  ∀ v : Stores, w.Extends v → K.holds v →
    let u : Stores := ⟨(m.run v.first).2, (m'.run v.second).2⟩
    v.Extends u ∧ K.holds u ∧ R u (m.run v.first).1 (m'.run v.second).1

variable {K} {R : Relation α β} {S : Relation γ δ} {m : Lowering α} {m' : Lowering β}
  {σ ρ : OperationSort} {i i' : OperationId} {o o' : Operation}

theorem lasts_link? (σ : OperationSort) : Lasts (K.link? σ) :=
  fun grown linked => rel_imp (fun _ _ linked => K.lasts σ grown linked) linked

theorem lasts_links (σ : OperationSort) : Lasts (K.links σ) :=
  fun grown linked => linked.imp fun _ _ linked => K.lasts σ grown linked

namespace Couples

theorem pure {a : α} {b : β} (lasts : Lasts R) (known : R w a b) :
    K.Couples w (Pure.pure a) (Pure.pure b) R :=
  fun v grown holds => ⟨.refl v, holds, lasts grown known⟩

/-- The second steps start from stores that have what the first ones gave. -/
theorem bind {f : α → Lowering γ} {f' : β → Lowering δ} (first : K.Couples w m m' R)
    (second : ∀ v, w.Extends v → ∀ a b, R v a b → K.Couples v (f a) (f' b) S) :
    K.Couples w (m >>= f) (m' >>= f') S := by
  intro v grown holds
  obtain ⟨grown', holds', given⟩ := first v grown holds
  obtain ⟨grown'', holds'', given'⟩ :=
    second _ (grown.trans grown') _ _ given _ (.refl _) holds'
  exact ⟨grown'.trans grown'', holds'', given'⟩

theorem imp {R' : Relation α β} (weaker : ∀ v a b, R v a b → R' v a b)
    (step : K.Couples w m m' R) : K.Couples w m m' R' := by
  intro v grown holds
  obtain ⟨grown', holds', given⟩ := step v grown holds
  exact ⟨grown', holds', weaker _ _ _ given⟩

theorem map {f : α → γ} {f' : β → δ} (related : ∀ v a b, R v a b → S v (f a) (f' b))
    (step : K.Couples w m m' R) : K.Couples w (f <$> m) (f' <$> m') S := by
  intro v grown holds
  obtain ⟨grown', holds', given⟩ := step v grown holds
  exact ⟨grown', holds', related _ _ _ given⟩

/-- What is coupled from some time on is coupled later as well. -/
theorem later (grown : w.Extends v) (step : K.Couples w m m' R) : K.Couples v m m' R :=
  fun u grown' => step u (grown.trans grown')

theorem weaken {m m' : Lowering OperationId} (within : σ.Within ρ)
    (step : K.Couples w m m' (K.link σ)) : K.Couples w m m' (K.link ρ) :=
  step.imp fun _ _ _ linked => K.weaken within linked

/-- One given operation. -/
theorem some {m m' : Lowering OperationId} (step : K.Couples w m m' (K.link σ)) :
    K.Couples w (Option.some <$> m) (Option.some <$> m') (K.link? σ) :=
  step.map fun _ _ _ linked => .some linked

theorem none :
    K.Couples w (Pure.pure Option.none) (Pure.pure Option.none) (K.link? σ) :=
  .pure (lasts_link? σ) .none

theorem mapM {f : α → Lowering γ} {f' : β → Lowering δ} {l : List α} {l' : List β}
    (lasts : Lasts S) (steps : List.Forall₂ (fun a b => K.Couples w (f a) (f' b) S) l l') :
    K.Couples w (l.mapM f) (l'.mapM f') (fun v => List.Forall₂ (S v)) := by
  have lasts' : Lasts (fun v => List.Forall₂ (S v)) :=
    fun grown given => given.imp fun _ _ given => lasts grown given
  suffices later : ∀ v, w.Extends v →
      K.Couples v (l.mapM f) (l'.mapM f') fun v => List.Forall₂ (S v) from later w (.refl w)
  induction steps with
  | nil => exact fun v _ => .pure lasts' .nil
  | cons first _ ih =>
    intro v grown
    rw [List.mapM_cons, List.mapM_cons]
    refine (first.later grown).bind fun u grown' c d given => ?_
    refine (ih u (grown.trans grown')).bind fun u' grown'' cs ds rest => ?_
    exact .pure lasts' (.cons (lasts grown'' given) rest)

theorem emit (alike : o.Alike τ (fun σ => K.link σ w) o') (fits : σ.admits o.kind = true) :
    K.Couples w (Lowering.emit o) (Lowering.emit o') (K.link σ) := by
  intro v grown holds
  obtain ⟨holds', linked⟩ := K.add holds (alike.imp fun ρ _ _ => K.lasts ρ grown)
  exact ⟨v.extends_add o o', holds', linked σ fits⟩

theorem associate {node node' : SyntaxId} (nodes : τ.nodes node node')
    (linked : K.link .expression w i i') :
    K.Couples w (Lowering.associate node i) (Lowering.associate node' i')
      (fun v _ _ => K.link .expression v i i') := by
  intro v grown holds
  have linked' := K.lasts _ grown linked
  have grown' : v.Extends ⟨v.first.associate node i, v.second.associate node' i'⟩ :=
    ⟨v.first.extends_associate node i, v.second.extends_associate node' i'⟩
  exact ⟨grown', K.associate holds nodes linked', K.lasts _ grown' linked'⟩

end Couples

end Coupling

end SemanticTrees
