import SemanticTrees.Program.Basic

/-!
Validity of checked programs. A program is valid when every reference leads to an entry of its
table, no node is part of itself, spans end after they start and inside the source text, facts
belong to nodes, and members are declarations. The first fault, in a fixed order, is reported.
-/

namespace SemanticTrees

/-- A reference to an entry that its table does not have. -/
inductive Dangling
  | type (id : TypeId)
  | symbol (id : SymbolId)
deriving DecidableEq, Repr

/-- What makes a program invalid. -/
inductive Fault
  /-- A node has a part that does not exist. -/
  | missingChild (form : String) (node child : SyntaxId)
  /-- A node has itself as a part. -/
  | ownChild (form : String) (node : SyntaxId)
  | danglingInNode (form : String) (node : SyntaxId) (reference : Dangling)
  | invertedNode (span : Span) (node : SyntaxId)
  | outsideSource (span : Span) (node : SyntaxId)
  /-- A node is part of one of its own parts. -/
  | cycle (node parent : SyntaxId)
  | invertedDiagnostic (span : Span) (code : Nat)
  | danglingInType (name : String) (reference : Dangling)
  | danglingInSymbol (name : String) (symbol : SymbolId) (reference : Dangling)
  | factsOfMissing (node : SyntaxId)
  | danglingInFacts (reference : Dangling)
  | missingArgument (node argument : SyntaxId)
  | missingMember (member : SyntaxId)
  | notDeclaration (member : SyntaxId) (form : String)
deriving DecidableEq, Repr

def Dangling.message : Dangling → String
  | .type id => s!"reference to missing type TypeId({id})"
  | .symbol id => s!"reference to missing symbol SymbolId({id})"

/-- The wording of a fault: where it is, and what it is. -/
def Fault.message : Fault → String
  | .missingChild form node child =>
    s!"{form} node SyntaxId({node}) references missing child SyntaxId({child})"
  | .ownChild form node => s!"{form} node SyntaxId({node}) references itself"
  | .danglingInNode form node reference =>
    s!"in {form} node SyntaxId({node}): {reference.message}"
  | .invertedNode span node =>
    s!"span {span.shown} of node SyntaxId({node}) ends before it starts"
  | .outsideSource span node =>
    s!"span {span.shown} of node SyntaxId({node}) is outside the source text"
  | .cycle node parent =>
    s!"syntax node SyntaxId({node}) is its own descendant through SyntaxId({parent})"
  | .invertedDiagnostic span code =>
    s!"span {span.shown} of diagnostic {code} ends before it starts"
  | .danglingInType name reference => s!"in type '{name}': {reference.message}"
  | .danglingInSymbol name symbol reference =>
    s!"in symbol '{name}' (SymbolId({symbol})): {reference.message}"
  | .factsOfMissing node => s!"facts recorded for missing syntax node SyntaxId({node})"
  | .danglingInFacts reference => reference.message
  | .missingArgument node argument =>
    s!"argument binding of SyntaxId({node}) references missing syntax SyntaxId({argument})"
  | .missingMember member => s!"member list references missing syntax node SyntaxId({member})"
  | .notDeclaration member form =>
    s!"member list entry SyntaxId({member}) is a {form} node, not a declaration"

namespace Program

def entries {α : Type} (table : Array α) : List (Nat × α) :=
  table.toList.zipIdx.map fun (entry, id) => (id, entry)

def danglingType? (p : Program) (id : TypeId) : Option Dangling :=
  if id < p.types.size then none else some (.type id)

def danglingSymbol? (p : Program) (id : SymbolId) : Option Dangling :=
  if id < p.symbols.size then none else some (.symbol id)

def childFault? (p : Program) (node : SyntaxId) (form : Form) (child : SyntaxId) : Option Fault :=
  if p.nodes.size ≤ child then some (.missingChild form.name node child)
  else if child = node then some (.ownChild form.name node)
  else none

def spanFault? (p : Program) (node : SyntaxId) (span : Span) : Option Fault :=
  if span.stop < span.start then some (.invertedNode span node)
  else
    match p.sourceText with
    | some source =>
      if source.utf8ByteSize < span.stop then some (.outsideSource span node) else none
    | none => none

/-- The first fault of a node by itself: of its parts, its types or its span. -/
def nodeFault? (p : Program) (node : SyntaxId) (n : SyntaxNode) : Option Fault :=
  (n.form.children.findSome? (p.childFault? node n.form)).or <|
    (n.form.typesNamed.findSome? fun type =>
      (p.danglingType? type).map (.danglingInNode n.form.name node)).or <|
      p.spanFault? node n.span

/-- How far the search for cycles has come with a node. -/
inductive Mark
  | unseen
  /-- The node is being searched. -/
  | entered
  | done
deriving DecidableEq, Repr

/-- Searches what lies below a node and marks it, or finds a node that is part of itself. The
fuel bounds the depth; the number of nodes is enough, since no node is entered twice on the way
down. -/
def search (p : Program) : Nat → Array Mark → SyntaxId → Except Fault (Array Mark)
  | 0, marks, _ => .ok marks
  | fuel + 1, marks, node =>
    let step (marks : Array Mark) (child : SyntaxId) : Except Fault (Array Mark) :=
      match marks[child]? with
      | some .unseen => search p fuel marks child
      | some .entered => .error (.cycle child node)
      | _ => .ok marks
    match (p.nodes.childrenOf node).foldlM step (marks.setIfInBounds node .entered) with
    | .ok marks => .ok (marks.setIfInBounds node .done)
    | .error fault => .error fault

def searchAll (p : Program) : Except Fault (Array Mark) :=
  (List.range p.nodes.size).foldlM
    (fun marks node =>
      if marks[node]? = some .unseen then p.search (p.nodes.size + 1) marks node else .ok marks)
    (Array.replicate p.nodes.size .unseen)

def cycleFault? (p : Program) : Option Fault :=
  match p.searchAll with
  | .ok _ => none
  | .error fault => some fault

def diagnosticFault? (d : Diagnostic) : Option Fault :=
  if d.span.stop < d.span.start then some (.invertedDiagnostic d.span d.code) else none

def typeFault? (p : Program) (t : TypeInfo) : Option Fault :=
  match t.kind.inner with
  | some inner => (p.danglingType? inner).map (.danglingInType t.name)
  | none => none

/-- The first fault of a symbol: of its type, the type around it or its parameters. -/
def symbolFault? (p : Program) (id : SymbolId) (s : Symbol) : Option Fault :=
  ((s.type.bind p.danglingType?).or <|
    (s.containingType.bind p.danglingType?).or <|
      s.parameters.findSome? p.danglingSymbol?).map (.danglingInSymbol s.name id)

def bindingFault? (p : Program) (node : SyntaxId) (b : Binding) : Option Fault :=
  ((p.danglingSymbol? b.parameter).map .danglingInFacts).or <|
    match b.argument with
    | some argument =>
      if argument < p.nodes.size then none else some (.missingArgument node argument)
    | none => none

/-- The first fault of a resolution: of its members, or of its bound parameters. -/
def resolutionFault? (p : Program) (node : SyntaxId) (r : Resolution) : Option Fault :=
  ((r.candidates.findSome? p.danglingSymbol?).map .danglingInFacts).or <|
    match r with
    | .resolved _ arguments => arguments.findSome? (p.bindingFault? node)
    | _ => none

def factsFault? (p : Program) (node : SyntaxId) (f : Facts) : Option Fault :=
  if p.nodes.size ≤ node then some (.factsOfMissing node)
  else
    ((f.type.bind p.danglingType?).map .danglingInFacts).or <|
      ((f.conversion.bind fun c => p.danglingType? c.target).map .danglingInFacts).or <|
        ((f.symbol.bind p.danglingSymbol?).map .danglingInFacts).or <|
          f.resolution.bind (p.resolutionFault? node)

def memberFault? (p : Program) (member : SyntaxId) : Option Fault :=
  match p.formOf member with
  | none => some (.missingMember member)
  | some form => if form.isMember then none else some (.notDeclaration member form.name)

/-- The first fault of a program: of its nodes one by one, then of their shape as a whole, then
of diagnostics, types, symbols, facts and members. -/
def fault? (p : Program) : Option Fault :=
  ((entries p.nodes).findSome? fun (id, n) => p.nodeFault? id n).or <|
    p.cycleFault?.or <|
      (p.diagnostics.findSome? diagnosticFault?).or <|
        (p.types.toList.findSome? p.typeFault?).or <|
          ((entries p.symbols).findSome? fun (id, s) => p.symbolFault? id s).or <|
            (p.facts.toList.findSome? fun (id, f) => p.factsFault? id f).or <|
              p.members.findSome? p.memberFault?

/-- Whether a program is valid, or its first fault. -/
def validate (p : Program) : Except Fault Unit :=
  match p.fault? with
  | none => .ok ()
  | some fault => .error fault

end Program

end SemanticTrees
