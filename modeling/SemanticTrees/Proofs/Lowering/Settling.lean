import SemanticTrees.Proofs.Lowering.Regions

/-! Steps of lowering that keep to regions. Run on a store that follows the program, such a step adds
operations for regions of its own; the rules compose steps, and one that adds an operation around
others needs their regions to be apart and to fit it. -/
namespace SemanticTrees

variable {p : Program} {o : Operation} {id node : SyntaxId} {regions : List Region}
  {used : List OperationId}

namespace Lowering

open Store

variable {α β : Type} {regions' regions'' : List Region} {given : α → List OperationId}
  {given' : β → List OperationId}

/-- Run on a store that follows the program, a step only adds operations and the store follows the
program still. Given operations for some regions, it gives back operations for others. -/
def Settles (p : Program) (m : Lowering α) (regions : List Region) (used : List OperationId)
    (regions' : List Region) (given : α → List OperationId) : Prop :=
  ∀ s : Store, s.Follows p → s.Over p regions used →
    (m.run s).2.Follows p ∧ s.Extends (m.run s).2 ∧
      (m.run s).2.Over p regions' (given (m.run s).1)

namespace Settles

theorem pure {a : α} (same : given a = used) : Settles p (Pure.pure a) regions used regions given :=
  fun s follows covered => ⟨follows, .refl s, same ▸ covered⟩

theorem none {a : α} (nothing : given a = []) :
    Settles p (Pure.pure a) [] [] regions given :=
  fun s follows _ => ⟨follows, .refl s, nothing ▸ Over.nil⟩

/-- What there was before may be left alone. -/
theorem weaken {m : Lowering α} (step : Settles p m [] [] regions' given) :
    Settles p m regions used regions' given :=
  fun s follows _ => step s follows .nil

/-- What was made for a part was made for the whole. -/
theorem above {m : Lowering α} (inside : p.Below id node)
    (step : Settles p m regions used [.below node] given) :
    Settles p m regions used [.below id] given := by
  intro s follows covered
  obtain ⟨follows, grows, covered'⟩ := step s follows covered
  exact ⟨follows, grows, covered'.above inside⟩

/-- The second step may use what the first one gives, behind what there was before. -/
theorem bind {m : Lowering α} {f : α → Lowering β} (first : Settles p m [] [] regions' given)
    (second : ∀ a, Settles p (f a) (regions ++ regions') (used ++ given a) regions'' given') :
    Settles p (m >>= f) regions used regions'' given' := by
  intro s follows covered
  obtain ⟨follows, grows, covered'⟩ := first s follows .nil
  obtain ⟨follows, grows', covered''⟩ := second _ _ follows ((covered.mono grows).append covered')
  exact ⟨follows, grows.trans grows', covered''⟩

/-- The second step uses what the first one gives, and nothing else was there before. -/
theorem andThen {m : Lowering α} {f : α → Lowering β}
    (first : Settles p m regions used regions' given)
    (second : ∀ a, Settles p (f a) regions' (given a) regions'' given') :
    Settles p (m >>= f) regions used regions'' given' := by
  intro s follows covered
  obtain ⟨follows, grows, covered'⟩ := first s follows covered
  obtain ⟨follows, grows', covered''⟩ := second _ _ follows covered'
  exact ⟨follows, grows.trans grows', covered''⟩

theorem map {m : Lowering α} {f : α → β} (step : Settles p m regions used regions' given)
    (same : ∀ a, given' (f a) = given a) : Settles p (f <$> m) regions used regions' given' := by
  intro s follows covered
  have after := step s follows covered
  rw [← same] at after
  exact after

theorem mapM {f : α → Lowering β} {regionsOf : α → List Region} :
    {l : List α} → (∀ a ∈ l, Settles p (f a) [] [] (regionsOf a) given') →
      Settles p (l.mapM f) [] [] (l.flatMap regionsOf) fun bs => bs.flatMap given'
  | [], _ => pure rfl
  | a :: rest, step => by
    rw [List.mapM_cons, List.flatMap_cons]
    have later : Settles p (rest.mapM f) [] [] (rest.flatMap regionsOf) _ :=
      mapM fun b member => step b (List.mem_cons_of_mem a member)
    exact bind (step a List.mem_cons_self) fun b => bind later fun bs => pure rfl

theorem emit (covers : o.children ⊆ used) (fits : ∀ region ∈ regions, region.Fits p o)
    (apart : regions.Pairwise (Region.Apart p)) (place : o.span = p.nodes.spanOf o.origin) :
    Settles p (Lowering.emit o) regions used [.below o.origin] fun i => [i] := by
  rintro s follows ⟨own, sub, held⟩
  have branches : s.Branches p o own used :=
    ⟨covers, held, fun region listed => fits region (sub.subset listed),
      Region.pairwise_apart_of_subperm sub apart⟩
  refine ⟨follows.add branches place, s.extends_add o, .single ?_⟩
  exact ⟨o, get?_emit s o, .refl⟩

/-- An operation whose children have one region below its node. -/
theorem emit_inside (inside : p.Below id node) (covers : o.children ⊆ used) (same : o.origin = id)
    (place : o.span = p.nodes.spanOf id) :
    Settles p (Lowering.emit o) [.below node] used [.below id] fun i => [i] := by
  subst same
  refine emit covers ?_ (List.pairwise_singleton _ _) place
  intro region listed
  obtain rfl := List.mem_singleton.mp listed
  exact inside

/-- An operation without children and one around it, for a node alone. -/
theorem emit_pair {inner : Operation} {outer : OperationId → Operation}
    (leaf : inner.children = []) (origin : inner.origin = node)
    (place : inner.span = p.nodes.spanOf node) (around : ∀ i, (outer i).children = [i])
    (origin' : ∀ i, (outer i).origin = node)
    (place' : ∀ i, (outer i).span = p.nodes.spanOf node) :
    Settles p (do let i ← Lowering.emit inner; Lowering.emit (outer i)) [] [] [.only node]
      fun i => [i] := by
  intro s follows _
  have first : Settles p (Lowering.emit inner) [] [] [.below node] fun i => [i] := by
    subst origin
    exact emit (by simp [leaf]) (by simp) .nil place
  have last (i : OperationId) :
      Settles p (Lowering.emit (outer i)) [.below node] [i] [.below node] fun i => [i] :=
    emit_inside .refl (by simp [around]) (origin' i) (place' i)
  obtain ⟨follows, grows, _⟩ := (first.andThen last) s follows .nil
  refine ⟨follows, grows, .single ⟨_, get?_emit (s.add inner) _, origin' _, ?_⟩⟩
  intro child listed
  rw [around] at listed
  obtain rfl := List.mem_singleton.mp listed
  exact ⟨inner, (s.add inner).extends_add _ _ _ (get?_emit s inner), origin, leaf⟩

/-- A placeholder behind a declarator that lacks its value, and the operation of the declarator. -/
theorem emit_behind {inner : Operation} {outer : OperationId → Operation} {name : String}
    (form : p.formOf node = some (.variableDeclarator name Option.none)) (leaf : inner.children = [])
    (origin : inner.origin = node) (place : inner.span = Span.point (p.nodes.spanOf node).stop)
    (around : ∀ i, (outer i).children = [i]) (origin' : ∀ i, (outer i).origin = node)
    (place' : ∀ i, (outer i).span = p.nodes.spanOf node)
    (explicit : ∀ i, (outer i).isImplicit = false) :
    Settles p (do let i ← Lowering.emit inner; Lowering.emit (outer i)) [] [] [.below node]
      fun i => [i] := by
  subst origin
  intro s follows _
  have held : (s.add inner).Holds p (.below inner.origin) s.size :=
    ⟨inner, get?_emit s inner, .refl⟩
  have first : s.Branches p inner [] [] := ⟨by simp [leaf], .nil, by simp, .nil⟩
  have last : (s.add inner).Branches p (outer s.size) [.below inner.origin] [s.size] := by
    refine ⟨by simp [around], .cons held .nil, ?_, List.pairwise_singleton _ _⟩
    intro region listed
    obtain rfl := List.mem_singleton.mp listed
    rw [Region.Fits, origin']
    exact .refl
  refine ⟨?_, (s.extends_add inner).trans ((s.add inner).extends_add _), .single ?_⟩
  · exact
      { toIndexed := follows.toIndexed.add_missing (explicit _) (origin' _) (origin' _ ▸ place' _)
        branches := exists_branches_add last (exists_branches_add first follows.branches)
        stands := forall_add (.inl (origin' _ ▸ place' _))
          (forall_add (.inr ⟨place, name, form⟩) follows.stands) }
  · exact ⟨_, get?_emit (s.add inner) _, origin' _ ▸ .refl⟩

end Settles

end Lowering

namespace Operation

variable (o : Operation)

@[simp] theorem span_withType (type : Option TypeId) : (o.withType type).span = o.span := by
  unfold withType
  split <;> rfl

@[simp] theorem span_withConstant (constant : Option Constant) :
    (o.withConstant constant).span = o.span := by
  unfold withConstant
  split <;> rfl

end Operation

namespace Context

open Lowering

variable {c : Context} {kind : OperationKind} {form : Form}

/-- An operation was made for a node, in its place. -/
def At (c : Context) (id : SyntaxId) (o : Operation) : Prop :=
  o.origin = id ∧ o.span = c.program.nodes.spanOf id

theorem at_plain : c.At id (c.plain kind id) := ⟨rfl, rfl⟩

theorem At.withType (place : c.At id o) (type : Option TypeId) : c.At id (o.withType type) :=
  ⟨(o.origin_withType type).trans place.1, (o.span_withType type).trans place.2⟩

theorem At.withConstant (place : c.At id o) (constant : Option Constant) :
    c.At id (o.withConstant constant) :=
  ⟨(o.origin_withConstant constant).trans place.1, (o.span_withConstant constant).trans place.2⟩

theorem At.implicit (place : c.At id o) : c.At id o.implicit := place

theorem At.invalidIf (place : c.At id o) (invalid : Bool) : c.At id (o.invalidIf invalid) := place

theorem at_valued : c.At id (c.valued kind id) := (at_plain.withType _).withConstant _

section Emit

variable (place : c.At id o)
include place

/-- An operation whose children were made for parts of its node. -/
theorem emit_parts_settles (tidy : c.program.Tidy)
    (sub : regions.Subperm ((c.program.nodes.childrenOf id).map .below))
    (covers : o.children ⊆ used) : Settles c.program (emit o) regions used [.below id] fun i => [i] := by
  obtain ⟨rfl, place⟩ := place
  refine .emit covers ?_ (Region.pairwise_apart_of_subperm sub ?_) place
  · intro region listed
    obtain ⟨part, child, rfl⟩ := List.mem_map.mp (sub.subset listed)
    exact .single child
  · exact List.pairwise_map.mpr (tidy.pairwise_disjoint_childrenOf o.origin)

theorem emit_settles (tidy : c.program.Tidy) (known : c.formOf id = some form)
    (sub : regions.Subperm (form.children.map .below)) (covers : o.children ⊆ used) :
    Settles c.program (emit o) regions used [.below id] fun i => [i] := by
  rw [← Program.childrenOf_of_formOf known] at sub
  exact emit_parts_settles place tidy sub covers

theorem emit_leaf_settles (leaf : o.children = []) :
    Settles c.program (emit o) [] [] [.below id] fun i => [i] := by
  obtain ⟨rfl, place⟩ := place
  exact .emit (by simp [leaf]) (by simp) .nil place

theorem emit_inside_settles (inside : c.program.Below id node) (covers : o.children ⊆ used) :
    Settles c.program (emit o) [.below node] used [.below id] fun i => [i] :=
  .emit_inside inside covers place.1 place.2

end Emit

/-- A step is lowered to an operation that was made for a node or below it. -/
def Into (c : Context) (node : SyntaxId) (m : Lowering OperationId) : Prop :=
  Settles c.program m [] [] [.below node] fun i => [i]

/-- A step is lowered to nothing or to an operation that was made for a node or below it. -/
def IntoOption (c : Context) (node : SyntaxId) (m : Lowering (Option OperationId)) : Prop :=
  Settles c.program m [] [] [.below node] Option.toList

/-- A step is lowered to operations that were made for nodes or below them, one for each. -/
def IntoList (c : Context) (nodes : List SyntaxId) (m : Lowering (List OperationId)) : Prop :=
  Settles c.program m [] [] (nodes.map .below) fun is => is

theorem Into.optional {m : Lowering OperationId} (step : c.Into node m) :
    c.IntoOption node (some <$> m) :=
  Settles.map step fun _ => rfl

theorem IntoOption.none : c.IntoOption node (return none) := Settles.none rfl

theorem IntoList.mapM {f : SyntaxId → Lowering OperationId} {ids : List SyntaxId}
    (step : ∀ id ∈ ids, c.Into id (f id)) : c.IntoList ids (ids.mapM f) := by
  have all := Settles.mapM step
  simp only [List.flatMap_singleton', ← List.map_eq_flatMap] at all
  exact all

/-- The parts of a node are lowered into the parts. -/
def WalksInto (c : Context) : Prop := ∀ scope role id, c.Into id (c.walk scope role id)

namespace WalksInto

variable (h : c.WalksInto)
include h

theorem expression (id : SyntaxId) : c.Into id (c.expression id) := h _ _ _

theorem statement (id : SyntaxId) : c.Into id (c.statement id) := h _ _ _

theorem within (scope : Scope) : (c.within scope).WalksInto := h

theorem expression? (id : Option SyntaxId) :
    Settles c.program (c.expression? id) [] [] (id.toList.map .below) Option.toList := by
  cases id with
  | none => exact .none rfl
  | some id => exact (h.expression id).optional

/-- The optional receiver of a member. -/
theorem chosen {id : Option SyntaxId} (only : ∀ other ∈ id, other = node) :
    c.IntoOption node (c.expression? id) := by
  cases id with
  | none => exact .none
  | some id =>
    obtain rfl := only id rfl
    exact (h.expression id).optional

theorem statement? (id : Option SyntaxId) :
    Settles c.program (c.statement? id) [] [] (id.toList.map .below) Option.toList := by
  cases id with
  | none => exact .none rfl
  | some id => exact (h.statement id).optional

theorem expressions (ids : List SyntaxId) : c.IntoList ids (ids.mapM c.expression) :=
  .mapM fun id _ => h.expression id

theorem statements (ids : List SyntaxId) : c.IntoList ids (ids.mapM c.statement) :=
  .mapM fun id _ => h.statement id

end WalksInto

end Context

end SemanticTrees
