import SemanticTrees.Program.Validity
import SemanticTrees.Proofs.Program.Cycles

/-! What a validity check stands for. A program is well-formed when every reference leads to an
entry of its table, no node is part of itself, spans are in order and inside the source text, facts
belong to nodes and members are declarations. Exactly the well-formed programs pass. -/
namespace SemanticTrees.Program

/-- Every type, symbol and argument that facts mention is there. -/
structure FactsInRange (p : Program) (f : Facts) : Prop where
  type : ∀ type ∈ f.type, type < p.types.size
  target : ∀ conversion ∈ f.conversion, conversion.target < p.types.size
  symbol : ∀ symbol ∈ f.symbol, symbol < p.symbols.size
  candidate : ∀ resolution ∈ f.resolution, ∀ symbol ∈ resolution.candidates,
    symbol < p.symbols.size
  binding : ∀ member bindings, f.resolution = some (.resolved member bindings) →
    ∀ binding ∈ bindings, binding.parameter < p.symbols.size ∧
      ∀ argument ∈ binding.argument, argument < p.nodes.size

/-- Every type and symbol that a symbol mentions is there. -/
structure SymbolInRange (p : Program) (s : Symbol) : Prop where
  type : ∀ type ∈ s.type, type < p.types.size
  containingType : ∀ type ∈ s.containingType, type < p.types.size
  parameter : ∀ parameter ∈ s.parameters, parameter < p.symbols.size

/-- The references of a node lead to entries, and its span is in order and inside the source. -/
structure NodeInRange (p : Program) (n : SyntaxNode) : Prop where
  child : ∀ child ∈ n.form.children, child < p.nodes.size
  typeNamed : ∀ type ∈ n.form.typesNamed, type < p.types.size
  ordered : n.span.start ≤ n.span.stop
  inside : ∀ source ∈ p.sourceText, n.span.stop ≤ source.utf8ByteSize

structure WellFormed (p : Program) : Prop where
  node : ∀ (id : SyntaxId) (node : SyntaxNode), p.nodes[id]? = some node → p.NodeInRange node
  acyclic : p.Acyclic
  diagnostic : ∀ d ∈ p.diagnostics, d.span.start ≤ d.span.stop
  type : ∀ (id : TypeId) (type : TypeInfo), p.types[id]? = some type →
    ∀ inner ∈ type.kind.inner, inner < p.types.size
  symbol : ∀ (id : SymbolId) (symbol : Symbol), p.symbols[id]? = some symbol →
    p.SymbolInRange symbol
  facts : ∀ id facts, p.facts[id]? = some facts → id < p.nodes.size ∧ p.FactsInRange facts
  member : ∀ member ∈ p.members, ∃ form, p.formOf member = some form ∧ form.isMember = true

variable {p : Program} {id : SyntaxId}

theorem validate_eq_ok_iff : p.validate = .ok () ↔ p.fault? = none := by
  unfold validate
  cases p.fault? <;> simp

theorem danglingType?_eq_none_iff {type : TypeId} :
    p.danglingType? type = none ↔ type < p.types.size := by
  simp [danglingType?]

theorem danglingSymbol?_eq_none_iff {symbol : SymbolId} :
    p.danglingSymbol? symbol = none ↔ symbol < p.symbols.size := by
  simp [danglingSymbol?]

theorem childFault?_eq_none_iff {form : Form} {child : SyntaxId} :
    p.childFault? id form child = none ↔ child < p.nodes.size ∧ child ≠ id := by
  unfold childFault?
  split
  · next outside => simp [Nat.not_lt.mpr outside]
  · next inside => simp [Nat.lt_of_not_le inside]

theorem spanFault?_eq_none_iff {span : Span} : p.spanFault? id span = none ↔
    span.start ≤ span.stop ∧ ∀ source ∈ p.sourceText, span.stop ≤ source.utf8ByteSize := by
  unfold spanFault?
  split
  · next inverted => simp [Nat.not_le.mpr inverted]
  · next ordered => cases p.sourceText <;> simp [Nat.le_of_not_lt ordered]

/-- A node by itself is faultless when it is in range and not one of its own parts. -/
theorem nodeFault?_eq_none_iff {node : SyntaxNode} :
    p.nodeFault? id node = none ↔ p.NodeInRange node ∧ id ∉ node.form.children := by
  simp only [nodeFault?, Option.or_eq_none_iff, List.findSome?_eq_none_iff, Option.map_eq_none_iff,
    childFault?_eq_none_iff, danglingType?_eq_none_iff, spanFault?_eq_none_iff]
  constructor
  · rintro ⟨children, types, ordered, inside⟩
    exact ⟨⟨fun child listed => (children child listed).1, types, ordered, inside⟩,
      fun listed => (children id listed).2 rfl⟩
  · rintro ⟨⟨child, types, ordered, inside⟩, other⟩
    exact ⟨fun part listed => ⟨child part listed, fun same => other (same ▸ listed)⟩, types,
      ordered, inside⟩

theorem diagnosticFault?_eq_none_iff {d : Diagnostic} :
    diagnosticFault? d = none ↔ d.span.start ≤ d.span.stop := by
  simp [diagnosticFault?]

theorem typeFault?_eq_none_iff {type : TypeInfo} :
    p.typeFault? type = none ↔ ∀ inner ∈ type.kind.inner, inner < p.types.size := by
  unfold typeFault?
  cases type.kind.inner <;> simp [danglingType?_eq_none_iff]

theorem symbolFault?_eq_none_iff {symbol : SymbolId} {s : Symbol} :
    p.symbolFault? symbol s = none ↔ p.SymbolInRange s := by
  simp only [symbolFault?, Option.map_eq_none_iff, Option.or_eq_none_iff, Option.bind_eq_none_iff,
    List.findSome?_eq_none_iff, danglingType?_eq_none_iff, danglingSymbol?_eq_none_iff]
  constructor
  · rintro ⟨type, containing, parameters⟩
    exact ⟨type, containing, parameters⟩
  · rintro ⟨type, containing, parameters⟩
    exact ⟨type, containing, parameters⟩

theorem bindingFault?_eq_none_iff {binding : Binding} :
    p.bindingFault? id binding = none ↔ binding.parameter < p.symbols.size ∧
      ∀ argument ∈ binding.argument, argument < p.nodes.size := by
  unfold bindingFault?
  cases binding.argument <;> simp [danglingSymbol?_eq_none_iff]

theorem resolutionFault?_eq_none_iff {resolution : Resolution} :
    p.resolutionFault? id resolution = none ↔
      (∀ symbol ∈ resolution.candidates, symbol < p.symbols.size) ∧
        ∀ member bindings, resolution = .resolved member bindings → ∀ binding ∈ bindings,
          binding.parameter < p.symbols.size ∧
            ∀ argument ∈ binding.argument, argument < p.nodes.size := by
  cases resolution <;>
    simp [resolutionFault?, List.findSome?_eq_none_iff, danglingSymbol?_eq_none_iff,
      bindingFault?_eq_none_iff]

theorem factsFault?_eq_none_iff {facts : Facts} :
    p.factsFault? id facts = none ↔ id < p.nodes.size ∧ p.FactsInRange facts := by
  unfold factsFault?
  split
  · next outside => simp [Nat.not_lt.mpr outside]
  · next inside =>
    simp only [Option.or_eq_none_iff, Option.map_eq_none_iff, Option.bind_eq_none_iff,
      danglingType?_eq_none_iff, danglingSymbol?_eq_none_iff, resolutionFault?_eq_none_iff,
      Nat.lt_of_not_le inside, true_and]
    constructor
    · rintro ⟨type, target, symbol, resolution⟩
      exact ⟨type, target, symbol, fun r known => (resolution r known).1,
        fun member bindings known => (resolution _ known).2 member bindings rfl⟩
    · rintro ⟨type, target, symbol, candidate, binding⟩
      refine ⟨type, target, symbol, fun r known => ⟨candidate r known, ?_⟩⟩
      rintro member bindings rfl
      exact binding member bindings known

theorem memberFault?_eq_none_iff {member : SyntaxId} : p.memberFault? member = none ↔
    ∃ form, p.formOf member = some form ∧ form.isMember = true := by
  unfold memberFault?
  cases p.formOf member <;> simp

theorem mem_entries_iff {α : Type} {table : Array α} {i : Nat} {entry : α} :
    (i, entry) ∈ entries table ↔ table[i]? = some entry := by
  simp [entries, List.mem_zipIdx_iff_getElem?]

/-- A program without a fault is well-formed, and no other is. -/
theorem fault?_eq_none_iff : p.fault? = none ↔ p.WellFormed := by
  simp only [fault?, Option.or_eq_none_iff, List.findSome?_eq_none_iff, Prod.forall,
    mem_entries_iff, nodeFault?_eq_none_iff, cycleFault?_eq_none_iff,
    diagnosticFault?_eq_none_iff, typeFault?_eq_none_iff, symbolFault?_eq_none_iff,
    Std.TreeMap.mem_toList_iff_getElem?_eq_some, factsFault?_eq_none_iff,
    memberFault?_eq_none_iff]
  constructor
  · rintro ⟨nodes, acyclic, diagnostics, types, symbols, facts, members⟩
    refine ⟨fun id node found => (nodes id node found).1, acyclic, diagnostics, ?_, symbols, facts,
      members⟩
    intro id type found
    exact types type (Array.mem_toList_iff.mpr (Array.mem_of_getElem? found))
  · rintro ⟨nodes, acyclic, diagnostics, types, symbols, facts, members⟩
    refine ⟨fun id node found => ⟨nodes id node found, ?_⟩, acyclic, diagnostics, ?_, symbols,
      facts, members⟩
    · intro own
      have part : p.HasPart id id := by simpa [HasPart, SyntaxTable.childrenOf, found] using own
      exact acyclic id (.single part)
    · intro type listed
      obtain ⟨id, found⟩ := Array.mem_iff_getElem?.mp (Array.mem_toList_iff.mp listed)
      exact types id type found

/-- A check that reports no cycle, whatever else it may report. -/
def Straight (found : Option Fault) : Prop := ∀ node parent, found ≠ some (.cycle node parent)

namespace Straight

theorem or {first second : Option Fault} (left : Straight first) (right : Straight second) :
    Straight (first.or second) := by
  intro node parent found
  obtain found | ⟨_, found⟩ := Option.or_eq_some_iff.mp found
  · exact left node parent found
  · exact right node parent found

theorem findSome? {α : Type} {check : α → Option Fault} (straight : ∀ entry, Straight (check entry))
    (entries : List α) : Straight (entries.findSome? check) := by
  intro node parent found
  obtain ⟨entry, _, found⟩ := List.exists_of_findSome?_eq_some found
  exact straight entry node parent found

theorem bind {α : Type} {check : α → Option Fault} (straight : ∀ entry, Straight (check entry))
    (entry : Option α) : Straight (entry.bind check) := by
  intro node parent found
  obtain ⟨entry, _, found⟩ := Option.bind_eq_some_iff.mp found
  exact straight entry node parent found

theorem map {α : Type} {report : α → Fault} (straight : ∀ entry, Straight (some (report entry)))
    (entry : Option α) : Straight (entry.map report) := by
  intro node parent found
  obtain ⟨entry, _, found⟩ := Option.map_eq_some_iff.mp found
  exact straight entry node parent (congrArg some found)

end Straight

theorem straight_nodeFault? (node : SyntaxNode) : Straight (p.nodeFault? id node) := by
  refine .or (.findSome? ?_ _) (.or (.findSome? ?_ _) ?_)
  · intro child node parent
    unfold childFault?
    split
    · simp
    · split <;> simp
  · exact fun type => .map (fun _ _ _ => by simp) _
  · intro node parent
    unfold spanFault?
    split
    · simp
    · cases p.sourceText <;> simp

theorem straight_bindingFault? (binding : Binding) : Straight (p.bindingFault? id binding) := by
  refine .or (.map (fun _ _ _ => by simp) _) ?_
  intro node parent
  cases binding.argument <;> simp

theorem straight_factsFault? (facts : Facts) : Straight (p.factsFault? id facts) := by
  unfold factsFault?
  split
  · simp [Straight]
  · refine .or ?_ (.or ?_ (.or ?_ (.bind ?_ _)))
    iterate 3 exact .map (fun _ _ _ => by simp) _
    intro resolution
    refine .or (.map (fun _ _ _ => by simp) _) ?_
    cases resolution with
    | resolved member bindings => exact .findSome? straight_bindingFault? _
    | _ => simp [Straight]

/-- Only the search reports a cycle. -/
theorem cycleFault?_of_fault? {node parent : SyntaxId}
    (found : p.fault? = some (.cycle node parent)) : p.cycleFault? = some (.cycle node parent) := by
  have nodes : Straight ((entries p.nodes).findSome? fun entry => p.nodeFault? entry.1 entry.2) :=
    .findSome? (fun _ => straight_nodeFault? _) _
  have diagnostics : Straight (p.diagnostics.findSome? diagnosticFault?) :=
    .findSome? (fun d _ _ => by simp [diagnosticFault?]) _
  have types : Straight (p.types.toList.findSome? p.typeFault?) := by
    refine .findSome? (fun type => ?_) _
    unfold typeFault?
    cases type.kind.inner with
    | none => simp [Straight]
    | some inner => exact .map (fun _ _ _ => by simp) _
  have symbols : Straight
      ((entries p.symbols).findSome? fun entry => p.symbolFault? entry.1 entry.2) :=
    .findSome? (fun _ => .map (fun _ _ _ => by simp) _) _
  have facts : Straight (p.facts.toList.findSome? fun entry => p.factsFault? entry.1 entry.2) :=
    .findSome? (fun _ => straight_factsFault? _) _
  have members : Straight (p.members.findSome? p.memberFault?) := by
    refine .findSome? (fun member _ _ => ?_) _
    unfold memberFault?
    cases p.formOf member <;> simp
  obtain impossible | ⟨_, found⟩ := Option.or_eq_some_iff.mp found
  · exact absurd impossible (nodes node parent)
  obtain found | ⟨_, impossible⟩ := Option.or_eq_some_iff.mp found
  · exact found
  · exact absurd impossible (diagnostics.or (types.or (symbols.or (facts.or members))) node parent)

/-- The check for validity ends: its only search makes finitely many turns, one after the other,
and comes to a verdict. It accepts exactly the well-formed programs, and a cycle that it reports
is one. -/
theorem validate_decides (p : Program) :
    CycleSearch.ComesTo p (CycleSearch.start p) p.searchAll ∧
      (p.validate = .ok () ↔ p.WellFormed) ∧
      ∀ node parent, p.validate = .error (.cycle node parent) →
        p.HasPart parent node ∧ Relation.ReflTransGen p.HasPart node parent := by
  refine ⟨CycleSearch.comesTo_searchAll p, ?_, ?_⟩
  · exact validate_eq_ok_iff.trans fault?_eq_none_iff
  · intro node parent reported
    have found : p.fault? = some (.cycle node parent) := by
      unfold validate at reported
      split at reported
      · contradiction
      · next found => rw [found, Except.error.inj reported]
    obtain ⟨none, _⟩ | ⟨child, whole, cycle, known, below⟩ := cycleFault?_cases p
    · rw [cycleFault?_of_fault? found] at none
      contradiction
    · rw [cycleFault?_of_fault? found] at cycle
      cases cycle
      exact ⟨known, below⟩

end SemanticTrees.Program
