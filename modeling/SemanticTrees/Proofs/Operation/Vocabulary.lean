import SemanticTrees.Proofs.Operation.Compaction
import SemanticTrees.Proofs.Operation.Forest

/-! The numbers that operations mention. A vocabulary says which places of nodes, types and symbols
may occur; an operation is covered when it mentions no others, whatever its children are, so
renumbering children when a store is closed changes nothing. -/
namespace SemanticTrees

namespace DynamicAccess

def typesNamed (a : DynamicAccess) : List TypeId := a.containingType.toList ++ a.typeArguments

@[simp] theorem typesNamed_withArguments (a : DynamicAccess) (arguments : List DynamicArgument) :
    (a.withArguments arguments).typesNamed = a.typesNamed := rfl

end DynamicAccess

namespace OperationKind

/-- The symbols that an operation refers to: what it reads, calls, creates, binds or declares. -/
def symbolsNamed : OperationKind → List SymbolId
  | .localReference symbol | .parameterReference symbol | .fieldReference symbol _
  | .propertyReference symbol _ _ | .methodReference symbol _ _ | .invocation symbol _ _ _
  | .argument _ symbol _ | .objectCreation symbol _ | .fieldInitializer symbol _
  | .propertyInitializer symbol _ | .parameterInitializer symbol _ => [symbol]
  | .anonymousFunction symbol _ | .variableDeclarator symbol _ => symbol.toList
  | _ => []

/-- The types that an operation refers to, apart from the type of its value. -/
def typesNamed (kind : OperationKind) : List TypeId :=
  kind.dynamicAccess?.toList.flatMap DynamicAccess.typesNamed

theorem symbolsNamed_mapChildren (f : OperationId → OperationId) (kind : OperationKind) :
    (kind.mapChildren f).symbolsNamed = kind.symbolsNamed := by
  cases kind <;> rfl

theorem typesNamed_mapChildren (f : OperationId → OperationId) (kind : OperationKind) :
    (kind.mapChildren f).typesNamed = kind.typesNamed := by
  cases kind <;> rfl

end OperationKind

namespace Operation

variable (o : Operation)

@[simp] theorem kind_withType (type : Option TypeId) : (o.withType type).kind = o.kind := by
  unfold withType
  split <;> rfl

@[simp] theorem kind_withConstant (constant : Option Constant) :
    (o.withConstant constant).kind = o.kind := by
  unfold withConstant
  split <;> rfl

@[simp] theorem kind_implicit : o.implicit.kind = o.kind := rfl

@[simp] theorem kind_invalidIf (invalid : Bool) : (o.invalidIf invalid).kind = o.kind := rfl

@[simp] theorem origin_withType (type : Option TypeId) : (o.withType type).origin = o.origin := by
  unfold withType
  split <;> rfl

@[simp] theorem origin_withConstant (constant : Option Constant) :
    (o.withConstant constant).origin = o.origin := by
  unfold withConstant
  split <;> rfl

@[simp] theorem origin_implicit : o.implicit.origin = o.origin := rfl

@[simp] theorem origin_invalidIf (invalid : Bool) : (o.invalidIf invalid).origin = o.origin := rfl

end Operation

/-- The places of nodes, types and symbols that may be mentioned. -/
structure Vocabulary where
  nodes : SyntaxId → Prop
  types : TypeId → Prop
  symbols : SymbolId → Prop

namespace Vocabulary

/-- Every place may be mentioned. -/
def all : Vocabulary := ⟨fun _ => True, fun _ => True, fun _ => True⟩

/-- What an operation stands for mentions only what may be mentioned. -/
structure CoversKind (v : Vocabulary) (kind : OperationKind) : Prop where
  types : ∀ type ∈ kind.typesNamed, v.types type
  symbols : ∀ symbol ∈ kind.symbolsNamed, v.symbols symbol

/-- An operation mentions only what may be mentioned: the node that it was made for, the type of
its value, and what its kind names. -/
structure Covers (v : Vocabulary) (o : Operation) : Prop where
  origin : v.nodes o.origin
  type : ∀ type ∈ o.type, v.types type
  kind : v.CoversKind o.kind

variable {v : Vocabulary} {o : Operation} {kind : OperationKind} {id : SyntaxId}

/-- Most kinds name neither types nor symbols. -/
theorem CoversKind.of_nil (types : kind.typesNamed = []) (symbols : kind.symbolsNamed = []) :
    v.CoversKind kind :=
  ⟨by simp [types], by simp [symbols]⟩

/-- Many kinds name one symbol and no type. -/
theorem CoversKind.of_symbol {symbol : SymbolId} (types : kind.typesNamed = [])
    (named : kind.symbolsNamed = [symbol]) (known : v.symbols symbol) : v.CoversKind kind :=
  ⟨by simp [types], by simpa [named] using known⟩

/-- Lambdas and declarators name the symbol that they declare, if there is one. -/
theorem CoversKind.of_declared {symbol : Option SymbolId} (types : kind.typesNamed = [])
    (named : kind.symbolsNamed = symbol.toList) (known : ∀ s ∈ symbol, v.symbols s) :
    v.CoversKind kind :=
  ⟨by simp [types], by simpa [named] using known⟩

/-- Operations that are resolved at run time name types and no symbol. -/
theorem CoversKind.of_access {access : DynamicAccess} (found : kind.dynamicAccess? = some access)
    (symbols : kind.symbolsNamed = []) (known : ∀ type ∈ access.typesNamed, v.types type) :
    v.CoversKind kind :=
  ⟨by simpa [OperationKind.typesNamed, found] using known, by simp [symbols]⟩

namespace Covers

theorem plain (origin : v.nodes id) (span : Span) (covered : v.CoversKind kind) :
    v.Covers (Operation.plain kind id span) :=
  ⟨origin, by simp [Operation.plain], covered⟩

theorem withType (covers : v.Covers o) {type : Option TypeId} (known : ∀ t ∈ type, v.types t) :
    v.Covers (o.withType type) := by
  unfold Operation.withType
  split
  · exact ⟨covers.origin, known, covers.kind⟩
  · exact covers

theorem withConstant (covers : v.Covers o) (constant : Option Constant) :
    v.Covers (o.withConstant constant) := by
  unfold Operation.withConstant
  split
  · exact ⟨covers.origin, covers.type, covers.kind⟩
  · exact covers

theorem implicit (covers : v.Covers o) : v.Covers o.implicit :=
  ⟨covers.origin, covers.type, covers.kind⟩

theorem invalidIf (covers : v.Covers o) (invalid : Bool) : v.Covers (o.invalidIf invalid) :=
  ⟨covers.origin, covers.type, covers.kind⟩

theorem mapChildren (covers : v.Covers o) (f : OperationId → OperationId) :
    v.Covers (o.mapChildren f) where
  origin := covers.origin
  type := covers.type
  kind := by
    have types := OperationKind.typesNamed_mapChildren f o.kind
    have symbols := OperationKind.symbolsNamed_mapChildren f o.kind
    exact ⟨types ▸ covers.kind.types, symbols ▸ covers.kind.symbols⟩

end Covers

/-- Every operation of a store is covered. -/
def CoversStore (v : Vocabulary) (s : Store) : Prop :=
  ∀ i o, s.get? i = some o → v.Covers o

/-- Every operation of a tree is covered. -/
def CoversTree (v : Vocabulary) (t : OperationTree) : Prop :=
  ∀ i o, t.get? i = some o → v.Covers o

theorem coversStore_empty : v.CoversStore Store.empty := by
  intro i o found
  simp [Store.get?, Store.empty] at found

theorem CoversStore.add {s : Store} (covers : v.CoversStore s) (covered : v.Covers o) :
    v.CoversStore (s.add o) := by
  intro i o' found
  rw [Store.get?_add] at found
  split at found
  · exact Option.some.inj found ▸ covered
  · exact covers i o' found

theorem CoversStore.associate {s : Store} (covers : v.CoversStore s) (node : SyntaxId)
    (i : OperationId) : v.CoversStore (s.associate node i) :=
  covers

theorem CoversStore.finish {s : Store} (covers : v.CoversStore s) (program : Program)
    (root : OperationId) : v.CoversTree (s.finish program root) := by
  intro j o found
  obtain ⟨place, compacts⟩ := s.finish_compacts program root
  obtain ⟨i, o', _, _, stored, rfl⟩ := compacts.exists_origin found
  exact (covers i o' stored).mapChildren place

end Vocabulary

end SemanticTrees
