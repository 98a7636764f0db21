import SemanticTrees.Proofs.Program.Drafting

/-! Sequences of calls. Whoever puts a program together calls the steps one after the other and
passes identifiers that earlier calls have returned. One call after the other leads from a sound
draft to a sound one, so whatever the calls were, the finished program is valid. -/
namespace SemanticTrees

/-- Identifiers of types, symbols and nodes. -/
structure Ids where
  types : List TypeId
  symbols : List SymbolId
  nodes : List SyntaxId
deriving DecidableEq, Repr

namespace Ids

def none : Ids := ⟨[], [], []⟩

instance : Append Ids :=
  ⟨fun a b => ⟨a.types ++ b.types, a.symbols ++ b.symbols, a.nodes ++ b.nodes⟩⟩

/-- All identifiers are among other ones. -/
structure Within (a b : Ids) : Prop where
  types : a.types ⊆ b.types
  symbols : a.symbols ⊆ b.symbols
  nodes : a.nodes ⊆ b.nodes

theorem within_iff {a b : Ids} :
    a.Within b ↔ a.types ⊆ b.types ∧ a.symbols ⊆ b.symbols ∧ a.nodes ⊆ b.nodes :=
  ⟨fun within => ⟨within.types, within.symbols, within.nodes⟩,
    fun ⟨types, symbols, nodes⟩ => ⟨types, symbols, nodes⟩⟩

instance (a b : Ids) : Decidable (a.Within b) := decidable_of_iff' _ within_iff

end Ids

def Symbol.ids (s : Symbol) : Ids :=
  ⟨s.type.toList ++ s.containingType.toList, s.parameters, []⟩

def Form.ids (form : Form) : Ids := ⟨form.typesNamed, [], form.children⟩

def Resolution.ids : Resolution → Ids
  | .resolved member bindings =>
    ⟨[], member :: bindings.map Binding.parameter, bindings.filterMap Binding.argument⟩
  | .lateBound candidates => ⟨[], candidates, []⟩
  | .failed _ candidates => ⟨[], candidates, []⟩

def Facts.ids (f : Facts) : Ids :=
  ⟨f.type.toList ++ (f.conversion.map Conversion.target).toList, f.symbol.toList, []⟩ ++
    f.resolution.elim .none Resolution.ids

namespace Program

variable {p q : Program} {a b : Ids}

/-- The identifiers are in the tables. -/
structure Holds (p : Program) (ids : Ids) : Prop where
  types : ∀ id ∈ ids.types, p.HasType id
  symbols : ∀ id ∈ ids.symbols, p.HasSymbol id
  nodes : ∀ id ∈ ids.nodes, p.HasNode id

namespace Holds

theorem none (p : Program) : p.Holds .none :=
  ⟨List.forall_mem_nil _, List.forall_mem_nil _, List.forall_mem_nil _⟩

theorem mono (holds : p.Holds a) (grown : p.Grows q) : q.Holds a where
  types id listed := (holds.types id listed).mono grown
  symbols id listed := (holds.symbols id listed).mono grown
  nodes id listed := (holds.nodes id listed).mono grown

theorem within (holds : p.Holds b) (within : a.Within b) : p.Holds a where
  types id listed := holds.types id (within.types listed)
  symbols id listed := holds.symbols id (within.symbols listed)
  nodes id listed := holds.nodes id (within.nodes listed)

theorem append (first : p.Holds a) (second : p.Holds b) : p.Holds (a ++ b) where
  types id listed := (List.mem_append.mp listed).elim (first.types id) (second.types id)
  symbols id listed := (List.mem_append.mp listed).elim (first.symbols id) (second.symbols id)
  nodes id listed := (List.mem_append.mp listed).elim (first.nodes id) (second.nodes id)

theorem of_append (holds : p.Holds (a ++ b)) : p.Holds a ∧ p.Holds b :=
  ⟨⟨fun id listed => holds.types id (List.mem_append_left _ listed),
      fun id listed => holds.symbols id (List.mem_append_left _ listed),
      fun id listed => holds.nodes id (List.mem_append_left _ listed)⟩,
    ⟨fun id listed => holds.types id (List.mem_append_right _ listed),
      fun id listed => holds.symbols id (List.mem_append_right _ listed),
      fun id listed => holds.nodes id (List.mem_append_right _ listed)⟩⟩

end Holds

theorem holds_symbol_iff {s : Symbol} : p.Holds s.ids ↔ p.SymbolInRange s := by
  constructor
  · intro holds
    exact ⟨fun t same => holds.types t (List.mem_append_left _ (Option.mem_toList.mpr same)),
      fun t same => holds.types t (List.mem_append_right _ (Option.mem_toList.mpr same)),
      holds.symbols⟩
  · intro known
    refine ⟨fun t listed => ?_, known.parameter, List.forall_mem_nil _⟩
    obtain type | containing := List.mem_append.mp listed
    · exact known.type t (Option.mem_toList.mp type)
    · exact known.containingType t (Option.mem_toList.mp containing)

theorem holds_resolution_iff {r : Resolution} : p.Holds r.ids ↔ p.ResolutionInRange r := by
  cases r with
  | resolved member bindings =>
    constructor
    · intro holds
      refine ⟨fun symbol listed => ?_, ?_⟩
      · obtain rfl := List.mem_singleton.mp listed
        exact holds.symbols symbol List.mem_cons_self
      · rintro _ _ ⟨⟩ binding listed
        refine ⟨holds.symbols _ (List.mem_cons_of_mem _ (List.mem_map_of_mem listed)), ?_⟩
        intro argument given
        exact holds.nodes argument (List.mem_filterMap.mpr ⟨binding, listed, given⟩)
    · intro known
      refine ⟨List.forall_mem_nil _, fun symbol listed => ?_, fun argument listed => ?_⟩
      · obtain rfl | listed := List.mem_cons.mp listed
        · exact known.candidate symbol List.mem_cons_self
        · obtain ⟨binding, bound, rfl⟩ := List.mem_map.mp listed
          exact (known.binding member bindings rfl binding bound).1
      · obtain ⟨binding, listed, given⟩ := List.mem_filterMap.mp listed
        exact (known.binding member bindings rfl binding listed).2 argument given
  | lateBound candidates =>
    exact ⟨fun holds => ⟨holds.symbols, fun _ _ other => nomatch other⟩,
      fun known => ⟨List.forall_mem_nil _, known.candidate, List.forall_mem_nil _⟩⟩
  | failed reason candidates =>
    exact ⟨fun holds => ⟨holds.symbols, fun _ _ other => nomatch other⟩,
      fun known => ⟨List.forall_mem_nil _, known.candidate, List.forall_mem_nil _⟩⟩

theorem holds_facts_iff {f : Facts} : p.Holds f.ids ↔ p.FactsInRange f := by
  constructor
  · intro holds
    obtain ⟨direct, indirect⟩ := holds.of_append
    have resolution : ∀ r ∈ f.resolution, p.ResolutionInRange r := by
      intro r same
      rw [same] at indirect
      exact holds_resolution_iff.mp indirect
    refine ⟨fun t same => ?_, fun conversion same => ?_, fun symbol same => ?_, fun r same => ?_,
      fun member bindings same => ?_⟩
    · exact direct.types t (List.mem_append_left _ (Option.mem_toList.mpr same))
    · refine direct.types _ (List.mem_append_right _ (Option.mem_toList.mpr ?_))
      exact Option.mem_map_of_mem _ same
    · exact direct.symbols symbol (Option.mem_toList.mpr same)
    · exact (resolution r same).candidate
    · exact (resolution _ same).binding member bindings rfl
  · intro known
    refine .append ⟨fun t listed => ?_, fun symbol listed => ?_, List.forall_mem_nil _⟩ ?_
    · obtain type | target := List.mem_append.mp listed
      · exact known.type t (Option.mem_toList.mp type)
      · obtain ⟨conversion, same, rfl⟩ := Option.mem_map.mp (Option.mem_toList.mp target)
        exact known.target conversion same
    · exact known.symbol symbol (Option.mem_toList.mp listed)
    · cases same : f.resolution with
      | none => exact .none p
      | some r =>
        refine holds_resolution_iff.mpr ⟨known.candidate r same, ?_⟩
        rintro member bindings rfl
        exact known.binding member bindings same

end Program

namespace Drafting

/-- A call for a type. The types of the language are types of a name. -/
inductive TypeCall
  | type (name : String) (kind : TypeKind)
  | pointerTo (pointee : TypeId)
  | arrayOf (element : TypeId)

namespace TypeCall

def perform : TypeCall → Drafting TypeId
  | .type name kind => Drafting.type name kind
  | .pointerTo pointee => Drafting.pointerTo pointee
  | .arrayOf element => Drafting.arrayOf element

/-- The identifiers that are passed with a call. -/
def passed : TypeCall → Ids
  | .type _ kind => ⟨kind.inner.toList, [], []⟩
  | .pointerTo pointee => ⟨[pointee], [], []⟩
  | .arrayOf element => ⟨[element], [], []⟩

end TypeCall

/-- A call for a symbol. -/
inductive SymbolCall
  | symbol (s : Symbol)
  | localVariable (name : String) (type : TypeId)
  | parameter (name : String) (type : TypeId)
  | optionalParameter (name : String) (type : TypeId) (default : Constant)
  | collectingParameter (name : String) (type : TypeId)
  | passedParameter (name : String) (type : TypeId) (passing : Passing)
  | field (containing : TypeId) (name : String) (type : TypeId)
  | property (containing : TypeId) (name : String) (type : TypeId)
  | method (containing : TypeId) (name : String) (returned : Option TypeId)
      (parameters : List SymbolId)
  | indexer (containing type : TypeId) (parameters : List SymbolId)
  | constructor (containing : TypeId) (parameters : List SymbolId)
  | typeSymbol (type : TypeId)

namespace SymbolCall

def perform : SymbolCall → Drafting SymbolId
  | .symbol s => Drafting.symbol s
  | .localVariable name type => Drafting.localVariable name type
  | .parameter name type => Drafting.parameter name type
  | .optionalParameter name type default => Drafting.optionalParameter name type default
  | .collectingParameter name type => Drafting.collectingParameter name type
  | .passedParameter name type passing => Drafting.passedParameter name type passing
  | .field containing name type => Drafting.field containing name type
  | .property containing name type => Drafting.property containing name type
  | .method containing name returned parameters =>
    Drafting.method containing name returned parameters
  | .indexer containing type parameters => Drafting.indexer containing type parameters
  | .constructor containing parameters => Drafting.constructor containing parameters
  | .typeSymbol type => Drafting.typeSymbol type

/-- The identifiers that are passed with a call. -/
def passed : SymbolCall → Ids
  | .symbol s => s.ids
  | .localVariable _ type | .parameter _ type | .optionalParameter _ type _
  | .collectingParameter _ type | .passedParameter _ type _ | .typeSymbol type => ⟨[type], [], []⟩
  | .field containing _ type | .property containing _ type => ⟨[type, containing], [], []⟩
  | .method containing _ returned parameters => ⟨returned.toList ++ [containing], parameters, []⟩
  | .indexer containing type parameters => ⟨[type, containing], parameters, []⟩
  | .constructor containing parameters => ⟨[containing], parameters, []⟩

end SymbolCall

/-- A call that returns a node: a new one, or the one whose type or conversion is set. -/
inductive NodeCall
  | setType (id : SyntaxId) (type : TypeId)
  | convert (id : SyntaxId) (kind : ConversionKind) (target : TypeId)
  | node (form : Form)
  | literal (text : String) (constant : Constant) (type : Option TypeId)
  | int (value : Int)
  | bool (value : Bool)
  | string (value : String)
  | null
  | name (symbol : SymbolId)
  | unresolvedName (name : String)
  | this (type : TypeId)
  | member (receiver : SyntaxId) (symbol : SymbolId)
  | dynamicMember (receiver : SyntaxId) (name : String) (types : List TypeId)
  | lateBoundMember (receiver : SyntaxId) (name : String) (candidates : List SymbolId)
  | lateBoundName (name : String) (candidates : List SymbolId)
  | unresolvedMember (receiver : SyntaxId) (name : String)
  | argument (name : Option String) (passing : Passing) (expression : SyntaxId)
  | invoke (callee : SyntaxId) (arguments : List SyntaxId) (outcome : Outcome)
  | element (receiver : SyntaxId) (arguments : List SyntaxId) (outcome : Outcome)
  | arrayElement (receiver : SyntaxId) (arguments : List SyntaxId) (type : TypeId)
  | create (type : TypeId) (arguments : List SyntaxId) (outcome : Outcome)
  | binary (operator : BinaryOperator) (left right : SyntaxId) (type : TypeId)
  | unary (operator : UnaryOperator) (operand : SyntaxId) (type : TypeId)
  | assign (operator : Option BinaryOperator) (target value : SyntaxId)
  | addressOf (operand : SyntaxId)
  | cast (type : TypeId) (operand : SyntaxId) (kind : ConversionKind)
  | parenthesized (expression : SyntaxId)
  | lambda (parameters : List SyntaxId) (body : SyntaxId)
  | declarator (symbol : SymbolId) (initializer : Option SyntaxId)
  | methodDeclaration (symbol : SymbolId) (parameters : List SyntaxId) (body : Option SyntaxId)
  | parameterDeclaration (symbol : SymbolId) (default : Option SyntaxId)
  | propertyDeclaration (symbol : SymbolId) (initializer : Option SyntaxId)
  | typeDeclaration (type : TypeId) (members : List SyntaxId)

namespace NodeCall

def perform : NodeCall → Drafting SyntaxId
  | .setType id type => Drafting.setType id type
  | .convert id kind target => Drafting.convert id kind target
  | .node form => Drafting.node form
  | .literal text constant type => Drafting.literal text constant type
  | .int value => Drafting.int value
  | .bool value => Drafting.bool value
  | .string value => Drafting.string value
  | .null => Drafting.null
  | .name symbol => Drafting.name symbol
  | .unresolvedName text => Drafting.unresolvedName text
  | .this type => Drafting.this type
  | .member receiver symbol => Drafting.member receiver symbol
  | .dynamicMember receiver text types => Drafting.dynamicMember receiver text types
  | .lateBoundMember receiver text candidates => Drafting.lateBoundMember receiver text candidates
  | .lateBoundName text candidates => Drafting.lateBoundName text candidates
  | .unresolvedMember receiver text => Drafting.unresolvedMember receiver text
  | .argument label passing expression => Drafting.argument label passing expression
  | .invoke callee arguments outcome => Drafting.invoke callee arguments outcome
  | .element receiver arguments outcome => Drafting.element receiver arguments outcome
  | .arrayElement receiver arguments type => Drafting.arrayElement receiver arguments type
  | .create type arguments outcome => Drafting.create type arguments outcome
  | .binary operator left right type => Drafting.binary operator left right type
  | .unary operator operand type => Drafting.unary operator operand type
  | .assign operator target value => Drafting.assign operator target value
  | .addressOf operand => Drafting.addressOf operand
  | .cast type operand kind => Drafting.cast type operand kind
  | .parenthesized expression => Drafting.parenthesized expression
  | .lambda parameters body => Drafting.lambda parameters body
  | .declarator symbol initializer => Drafting.declarator symbol initializer
  | .methodDeclaration symbol parameters body => Drafting.methodDeclaration symbol parameters body
  | .parameterDeclaration symbol default => Drafting.parameterDeclaration symbol default
  | .propertyDeclaration symbol initializer => Drafting.propertyDeclaration symbol initializer
  | .typeDeclaration type members => Drafting.typeDeclaration type members

/-- The identifiers that are passed with a call. -/
def passed : NodeCall → Ids
  | .setType id type | .convert id _ type => ⟨[type], [], [id]⟩
  | .node form => form.ids
  | .literal _ _ type => ⟨type.toList, [], []⟩
  | .int _ | .bool _ | .string _ | .null | .unresolvedName _ => .none
  | .name symbol => ⟨[], [symbol], []⟩
  | .this type => ⟨[type], [], []⟩
  | .member receiver symbol => ⟨[], [symbol], [receiver]⟩
  | .dynamicMember receiver _ types => ⟨types, [], [receiver]⟩
  | .lateBoundMember receiver _ candidates => ⟨[], candidates, [receiver]⟩
  | .lateBoundName _ candidates => ⟨[], candidates, []⟩
  | .unresolvedMember receiver _ => ⟨[], [], [receiver]⟩
  | .argument _ _ expression => ⟨[], [], [expression]⟩
  | .invoke callee arguments outcome => ⟨[], outcome.symbols, callee :: arguments⟩
  | .element receiver arguments outcome => ⟨[], outcome.symbols, receiver :: arguments⟩
  | .arrayElement receiver arguments type => ⟨[type], [], receiver :: arguments⟩
  | .create type arguments outcome => ⟨[type], outcome.symbols, arguments⟩
  | .binary _ left right type => ⟨[type], [], [left, right]⟩
  | .unary _ operand type => ⟨[type], [], [operand]⟩
  | .assign _ target value => ⟨[], [], [target, value]⟩
  | .addressOf operand => ⟨[], [], [operand]⟩
  | .cast type operand _ => ⟨[type], [], [operand]⟩
  | .parenthesized expression => ⟨[], [], [expression]⟩
  | .lambda parameters body => ⟨[], [], parameters ++ [body]⟩
  | .declarator symbol initializer => ⟨[], [symbol], initializer.toList⟩
  | .methodDeclaration symbol parameters body => ⟨[], [symbol], parameters ++ body.toList⟩
  | .parameterDeclaration symbol default => ⟨[], [symbol], default.toList⟩
  | .propertyDeclaration symbol initializer => ⟨[], [symbol], initializer.toList⟩
  | .typeDeclaration type members => ⟨[type], [], members⟩

end NodeCall

/-- A call of whoever puts a program together. The program so far can be looked at, and symbols and
facts can be written to freely. -/
inductive Call
  | look
  | type (call : TypeCall)
  | symbol (call : SymbolCall)
  | node (call : NodeCall)
  | changeSymbol (id : SymbolId) (f : Symbol → Symbol)
  | changeFacts (id : SyntaxId) (f : Facts → Facts)
  | addMember (id : SyntaxId)
  | report (diagnostic : Diagnostic)
  | reportAt (id : SyntaxId) (category : Category) (code : Nat) (text : String)

namespace Call

/-- Performs a call and tells the identifiers that it returns. Whoever looks at the program finds
those of all entries. -/
def perform : Call → Drafting Ids
  | .look => Drafting.look fun p =>
    ⟨List.range p.types.size, List.range p.symbols.size, List.range p.nodes.size⟩
  | .type call => do return ⟨[← call.perform], [], []⟩
  | .symbol call => do return ⟨[], [← call.perform], []⟩
  | .node call => do return ⟨[], [], [← call.perform]⟩
  | .changeSymbol id f => do Drafting.changeSymbol id f; return .none
  | .changeFacts id f => do Drafting.changeFacts id f; return .none
  | .addMember id => do Drafting.addMember id; return .none
  | .report diagnostic => do Drafting.report diagnostic; return .none
  | .reportAt id category code text => do Drafting.reportAt id category code text; return .none

/-- A call as it should be: the identifiers that are passed, also those that are written to a symbol
or to facts, were returned before. Members are declarations, and the span of a diagnostic does not
end before it starts. -/
def Proper (d : Draft) (returned : Ids) : Call → Prop
  | .look => True
  | .type call => call.passed.Within returned
  | .symbol call => call.passed.Within returned
  | .node call => call.passed.Within returned
  | .changeSymbol id f => id ∈ returned.symbols ∧
      ∀ s ∈ d.program.symbols[id]?, (f s).ids.Within (s.ids ++ returned)
  | .changeFacts id f => id ∈ returned.nodes ∧
      (f (d.program.factsOf id)).ids.Within ((d.program.factsOf id).ids ++ returned)
  | .addMember id => id ∈ returned.nodes ∧ ∃ form ∈ d.program.formOf id, form.isMember = true
  | .report diagnostic => diagnostic.span.start ≤ diagnostic.span.stop
  | .reportAt id _ _ _ => id ∈ returned.nodes

instance (d : Draft) (returned : Ids) : (call : Call) → Decidable (call.Proper d returned)
  | .look => inferInstanceAs (Decidable True)
  | .type call => inferInstanceAs (Decidable (call.passed.Within returned))
  | .symbol call => inferInstanceAs (Decidable (call.passed.Within returned))
  | .node call => inferInstanceAs (Decidable (call.passed.Within returned))
  | .changeSymbol id f => inferInstanceAs (Decidable (id ∈ returned.symbols ∧
      ∀ s ∈ d.program.symbols[id]?, (f s).ids.Within (s.ids ++ returned)))
  | .changeFacts id f => inferInstanceAs (Decidable (id ∈ returned.nodes ∧
      (f (d.program.factsOf id)).ids.Within ((d.program.factsOf id).ids ++ returned)))
  | .addMember id => inferInstanceAs (Decidable (id ∈ returned.nodes ∧
      ∃ form ∈ d.program.formOf id, form.isMember = true))
  | .report diagnostic =>
    inferInstanceAs (Decidable (diagnostic.span.start ≤ diagnostic.span.stop))
  | .reportAt id _ _ _ => inferInstanceAs (Decidable (id ∈ returned.nodes))

/-- Every call of a sequence is as it should be, at its place in the sequence. -/
def AllProper : Draft → Ids → List Call → Prop
  | _, _, [] => True
  | d, returned, call :: rest =>
    call.Proper d returned ∧
      AllProper (d.after call.perform) (returned ++ d.result call.perform) rest

instance decidableAllProper : (d : Draft) → (returned : Ids) → (calls : List Call) →
    Decidable (AllProper d returned calls)
  | _, _, [] => inferInstanceAs (Decidable True)
  | d, returned, call :: rest =>
    have := decidableAllProper (d.after call.perform) (returned ++ d.result call.perform) rest
    inferInstanceAs (Decidable (call.Proper d returned ∧
      AllProper (d.after call.perform) (returned ++ d.result call.perform) rest))

end Call

end Drafting

namespace Draft

open Program Drafting

variable {d : Draft} {returned : Ids}

/-- The draft behind a sequence of calls. -/
def afterAll (d : Draft) (calls : List Call) : Draft :=
  calls.foldl (fun d call => d.after call.perform) d

theorem TypeCall.leads (sound : d.Sound) (call : TypeCall) (passed : d.program.Holds call.passed) :
    d.Leads call.perform HasType := by
  cases call with
  | type name kind =>
    exact leads_type sound name kind fun t same => passed.types t (Option.mem_toList.mpr same)
  | pointerTo pointee => exact leads_pointerTo sound (passed.types pointee List.mem_cons_self)
  | arrayOf element => exact leads_arrayOf sound (passed.types element List.mem_cons_self)

theorem SymbolCall.leads (sound : d.Sound) (call : SymbolCall)
    (passed : d.program.Holds call.passed) : d.Leads call.perform HasSymbol := by
  cases call with
  | method containing name returned parameters =>
    cases returned with
    | some type => exact leads_symbol sound (holds_symbol_iff.mp passed)
    | none =>
      refine .bind (leads_type sound "void" .void fun _ same => nomatch same) ?_
      intro d' type sound grown there
      have holds := passed.mono grown
      refine leads_symbol sound (holds_symbol_iff.mp ⟨?_, holds.symbols, holds.nodes⟩)
      exact List.forall_mem_cons.mpr ⟨there, holds.types⟩
  | typeSymbol type => exact .read rfl (leads_symbol sound (holds_symbol_iff.mp passed))
  | _ => exact leads_symbol sound (holds_symbol_iff.mp passed)

theorem NodeCall.leads (sound : d.Sound) (call : NodeCall)
    (passed : d.program.Holds call.passed) : d.Leads call.perform HasNode := by
  cases call with
  | setType id type =>
    have there := passed.types type List.mem_cons_self
    exact leads_setType sound (passed.nodes id List.mem_cons_self) there
  | convert id kind target =>
    have there := passed.types target List.mem_cons_self
    exact leads_convert sound (passed.nodes id List.mem_cons_self) kind there
  | node form => exact leads_node sound ⟨passed.nodes, passed.types⟩
  | literal text constant type =>
    refine leads_literal sound text constant ?_
    exact fun t same => passed.types t (Option.mem_toList.mpr same)
  | int value => exact leads_constant sound rfl
  | bool value => exact leads_constant sound rfl
  | string value => exact leads_constant sound rfl
  | null => exact leads_literal sound _ _ (hasType_none _)
  | name symbol =>
    have known := sound.hasType_nameType symbol
    refine .read rfl (.read (after_nameType symbol) ?_)
    refine .named ?_ (passed.symbols symbol List.mem_cons_self)
    exact leads_typed sound (.identifier _) (formInRange_leaf rfl rfl) known
  | unresolvedName text =>
    refine .bind (leads_type sound "?" .error (hasType_none _)) ?_
    intro d' type sound _ there
    exact leads_typed sound (.identifier text) (formInRange_leaf rfl rfl) there.some
  | this type =>
    have there := passed.types type List.mem_cons_self
    exact leads_typed sound .this (formInRange_leaf rfl rfl) there.some
  | member receiver symbol =>
    have known := sound.hasType_nameType symbol
    have parts {text : String} : d.program.FormInRange (.memberAccess receiver text []) :=
      ⟨passed.nodes, passed.types⟩
    refine .read rfl (.read (after_nameType symbol) ?_)
    refine .named ?_ (passed.symbols symbol List.mem_cons_self)
    exact leads_typed sound _ parts known
  | dynamicMember receiver text types =>
    have parts : d.program.FormInRange (.memberAccess receiver text types) :=
      ⟨passed.nodes, passed.types⟩
    refine .bind (leads_type sound "dynamic" .dynamic (hasType_none _)) ?_
    intro d' type sound grown there
    refine .resolved ?_ (holds_resolution_iff.mp (.none _))
    exact leads_typed sound _ (parts.mono grown) there.some
  | lateBoundMember receiver text candidates =>
    refine .resolved ?_ (holds_resolution_iff.mp ⟨passed.types, passed.symbols, ?_⟩)
    · exact leads_node sound ⟨passed.nodes, passed.types⟩
    · exact List.forall_mem_nil _
  | lateBoundName text candidates =>
    refine .resolved ?_ (holds_resolution_iff.mp passed)
    exact leads_node sound (formInRange_leaf rfl rfl)
  | unresolvedMember receiver text =>
    have parts : d.program.FormInRange (.memberAccess receiver text []) :=
      ⟨passed.nodes, passed.types⟩
    refine .bind (leads_type sound "?" .error (hasType_none _)) ?_
    intro d' type sound grown there
    refine .resolved ?_ (holds_resolution_iff.mp (.none _))
    exact leads_typed sound _ (parts.mono grown) there.some
  | argument label passing expression => exact leads_node sound ⟨passed.nodes, passed.types⟩
  | invoke callee arguments outcome =>
    have given := (List.forall_mem_cons.mp passed.nodes).2
    exact leads_call sound (.invocation callee arguments) ⟨passed.nodes, passed.types⟩
      passed.symbols given
  | element receiver arguments outcome =>
    have given := (List.forall_mem_cons.mp passed.nodes).2
    exact leads_call sound (.elementAccess receiver arguments) ⟨passed.nodes, passed.types⟩
      passed.symbols given
  | arrayElement receiver arguments type =>
    have there := passed.types type List.mem_cons_self
    exact leads_typed sound (.elementAccess receiver arguments)
      ⟨passed.nodes, List.forall_mem_nil _⟩ there.some
  | create type arguments outcome =>
    have there := passed.types type List.mem_cons_self
    refine .read (after_resolutionOf outcome arguments) ?_
    refine .resolved ?_ (sound.resolutionInRange passed.symbols passed.nodes)
    exact leads_typed sound (.objectCreation type arguments) ⟨passed.nodes, passed.types⟩
      there.some
  | binary operator left right type =>
    have there := passed.types type List.mem_cons_self
    exact leads_typed sound (.binary operator left right) ⟨passed.nodes, List.forall_mem_nil _⟩
      there.some
  | unary operator operand type =>
    have there := passed.types type List.mem_cons_self
    exact leads_typed sound (.unary operator operand) ⟨passed.nodes, List.forall_mem_nil _⟩
      there.some
  | assign operator target value =>
    refine .read rfl ?_
    exact leads_typed sound (.assignment operator target value) ⟨passed.nodes, passed.types⟩
      (sound.hasType_nodeType target)
  | addressOf operand =>
    have known := sound.hasType_nodeType operand
    have parts : d.program.FormInRange (.addressOf operand) := ⟨passed.nodes, passed.types⟩
    refine .read rfl ?_
    -- The pointer type is added by the call itself, unless there is one.
    cases read : d.result (nodeType operand) with
    | none => exact leads_typed sound (.addressOf operand) parts (hasType_none _)
    | some pointee =>
      refine .bind (leads_pointerTo sound (known pointee read)).some_type ?_
      intro d' type sound grown there
      exact leads_typed sound (.addressOf operand) (parts.mono grown) there
  | cast type operand kind =>
    have there := passed.types type List.mem_cons_self
    have parts : d.program.FormInRange (.cast type operand) := ⟨passed.nodes, passed.types⟩
    refine .bind (leads_typed sound _ parts there.some) ?_
    intro d' id sound grown node
    have recorded := sound.assembled.inRange.factsInRange id
    exact leads_recorded sound node (recorded.withConversion (there.mono grown))
  | parenthesized expression =>
    refine .read rfl ?_
    exact leads_typed sound (.parenthesized expression) ⟨passed.nodes, passed.types⟩
      (sound.hasType_nodeType expression)
  | lambda parameters body =>
    have parts : d.program.FormInRange (.lambda parameters body) := ⟨passed.nodes, passed.types⟩
    refine .bind (leads_symbol sound (symbolInRange_plain (hasType_none _))) ?_
    intro d' symbol sound grown there
    exact .named (leads_node sound (parts.mono grown)) there
  | declarator symbol initializer =>
    refine .read rfl (.named ?_ (passed.symbols symbol List.mem_cons_self))
    exact leads_node sound ⟨passed.nodes, passed.types⟩
  | methodDeclaration symbol parameters body =>
    refine .read rfl (.named ?_ (passed.symbols symbol List.mem_cons_self))
    exact leads_node sound ⟨passed.nodes, passed.types⟩
  | parameterDeclaration symbol default =>
    refine .read rfl (.named ?_ (passed.symbols symbol List.mem_cons_self))
    exact leads_node sound ⟨passed.nodes, passed.types⟩
  | propertyDeclaration symbol initializer =>
    refine .read rfl (.named ?_ (passed.symbols symbol List.mem_cons_self))
    exact leads_node sound ⟨passed.nodes, passed.types⟩
  | typeDeclaration type members =>
    have there := passed.types type List.mem_cons_self
    refine .read rfl ?_
    exact leads_typed sound (.typeDeclaration _ members) ⟨passed.nodes, List.forall_mem_nil _⟩
      there.some

theorem Call.leads (sound : d.Sound) (holds : d.program.Holds returned) (call : Call)
    (proper : call.Proper d returned) : d.Leads call.perform Holds := by
  have silent (d' : Draft) (_ : Unit) (sound : d'.Sound) (_ : d.program.Grows d'.program)
      (_ : True) : d'.Leads (Pure.pure Ids.none) Holds :=
    .pure sound (.none _)
  cases call with
  | look =>
    refine ⟨sound, .refl _, ?_⟩
    exact ⟨fun _ => List.mem_range.mp, fun _ => List.mem_range.mp, fun _ => List.mem_range.mp⟩
  | type call =>
    refine .bind (TypeCall.leads sound call (holds.within proper)) ?_
    intro d' type sound _ there
    exact .pure sound ⟨List.forall_mem_singleton.mpr there, List.forall_mem_nil _,
      List.forall_mem_nil _⟩
  | symbol call =>
    refine .bind (SymbolCall.leads sound call (holds.within proper)) ?_
    intro d' symbol sound _ there
    exact .pure sound ⟨List.forall_mem_nil _, List.forall_mem_singleton.mpr there,
      List.forall_mem_nil _⟩
  | node call =>
    refine .bind (NodeCall.leads sound call (holds.within proper)) ?_
    intro d' id sound _ there
    exact .pure sound ⟨List.forall_mem_nil _, List.forall_mem_nil _,
      List.forall_mem_singleton.mpr there⟩
  | changeSymbol id f =>
    obtain ⟨_, written⟩ := proper
    refine .bind (leads_changeSymbol sound id fun s found => ?_) silent
    have old := sound.assembled.inRange.symbol id s found
    exact holds_symbol_iff.mp (((holds_symbol_iff.mpr old).append holds).within (written s found))
  | changeFacts id f =>
    obtain ⟨there, written⟩ := proper
    refine .bind (leads_changeFacts sound (holds.nodes id there) ?_) silent
    have old := sound.assembled.inRange.factsInRange id
    exact holds_facts_iff.mp (((holds_facts_iff.mpr old).append holds).within written)
  | addMember id =>
    obtain ⟨_, form, found, declaration⟩ := proper
    exact .bind (leads_addMember sound found declaration) silent
  | report diagnostic => exact .bind (leads_report sound proper) silent
  | reportAt id category code text =>
    exact .bind (leads_reportAt sound (holds.nodes id proper) category code text) silent

/-- A run of calls that are as they should be leads from a sound draft to a sound one. -/
theorem sound_afterAll (sound : d.Sound) (holds : d.program.Holds returned) {calls : List Call}
    (proper : Call.AllProper d returned calls) : (d.afterAll calls).Sound := by
  induction calls generalizing d returned with
  | nil => exact sound
  | cons call rest ih =>
    obtain ⟨first, others⟩ := proper
    have step := Call.leads sound holds call first
    exact ih step.sound ((holds.mono step.grown).append step.post) others

theorem sound_start (fileName : String) : (start fileName).Sound where
  assembled := .start fileName
  member := List.forall_mem_nil _
  diagnostic := List.forall_mem_nil _

/-- Whatever calls put a program together, one after the other: when every identifier that is passed
was returned by an earlier call, every member is a declaration and every diagnostic that is reported
with a span has one in order, the finished program passes the check for validity. -/
theorem validate_finish (fileName : String) (calls : List Call)
    (proper : Call.AllProper (start fileName) .none calls) :
    ((start fileName).afterAll calls).finish.validate = .ok () := by
  have sound := sound_afterAll (sound_start fileName) (.none _) proper
  exact validate_eq_ok_iff.mpr (fault?_eq_none_iff.mpr sound.wellFormed_finish)

/-- Calls for a method that calls itself with an address, in a statement that stands twice in the
block, and for two diagnostics. -/
def repeatedCall : List Call :=
  [.type (.type "C" .classType), .type (.type "int" .structType), .symbol (.parameter "x" 1),
    .symbol (.method 0 "F" none [0]), .node (.name 1), .node (.name 0), .node (.addressOf 1),
    .node (.argument none .byValue 2), .node (.invoke 0 [3] (.bound 1)),
    .node (.node (.expressionStatement 4)), .node (.node (.block [5, 5])),
    .node (.parameterDeclaration 0 none), .node (.methodDeclaration 1 [7] (some 6)),
    .changeFacts 4 fun f => { f with type := some 1 }, .addMember 8,
    .report ⟨⟨3, 5⟩, "never used", .warning, 168⟩, .reportAt 4 .error 1503 "no conversion"]

theorem repeatedCall_validate_finish :
    Call.AllProper (start "C") .none repeatedCall ∧
      ((start "C").afterAll repeatedCall).finish.validate = .ok () := by
  have proper : Call.AllProper (start "C") .none repeatedCall := by decide +kernel
  exact ⟨proper, validate_finish "C" repeatedCall proper⟩

end Draft

end SemanticTrees
