import SemanticTrees.Proofs.Program.Assembly
import SemanticTrees.Proofs.Program.Excerpts

/-! Finished drafts. In an assembled draft every reference leads to an entry that is already there,
and no node has a place. The layout gives places in the text and changes nothing else, however often
a node is shared or listed; so the finished program is well-formed if its members are declarations
and the diagnostics that were reported with a span have one in order. -/
namespace SemanticTrees

namespace Program

variable {p q : Program}

/-- A type that is in the table of types. -/
def HasType (p : Program) (id : TypeId) : Prop := id < p.types.size

/-- A symbol that is in the table of symbols. -/
def HasSymbol (p : Program) (id : SymbolId) : Prop := id < p.symbols.size

/-- A node that is in the table of nodes. -/
def HasNode (p : Program) (id : SyntaxId) : Prop := id < p.nodes.size

/-- Every node and every type that a form mentions is there. -/
structure FormInRange (p : Program) (form : Form) : Prop where
  child : ∀ child ∈ form.children, p.HasNode child
  typeNamed : ∀ type ∈ form.typesNamed, p.HasType type

/-- No table of a program has more entries than that of another one. -/
structure Grows (p q : Program) : Prop where
  types : p.types.size ≤ q.types.size
  symbols : p.symbols.size ≤ q.symbols.size
  nodes : p.nodes.size ≤ q.nodes.size

theorem Grows.refl (p : Program) : p.Grows p := ⟨Nat.le_refl _, Nat.le_refl _, Nat.le_refl _⟩

theorem Grows.trans {u : Program} (first : p.Grows q) (second : q.Grows u) : p.Grows u :=
  ⟨first.types.trans second.types, first.symbols.trans second.symbols,
    first.nodes.trans second.nodes⟩

theorem HasType.mono {id : TypeId} (known : p.HasType id) (grown : p.Grows q) : q.HasType id :=
  Nat.lt_of_lt_of_le known grown.types

theorem hasType_none (p : Program) : ∀ type ∈ (none : Option TypeId), p.HasType type :=
  fun _ same => nomatch same

theorem HasType.some {id : TypeId} (known : p.HasType id) : ∀ type ∈ some id, p.HasType type :=
  fun _ same => Option.some.inj same ▸ known

theorem HasSymbol.mono {id : SymbolId} (known : p.HasSymbol id) (grown : p.Grows q) :
    q.HasSymbol id :=
  Nat.lt_of_lt_of_le known grown.symbols

theorem HasNode.mono {id : SyntaxId} (known : p.HasNode id) (grown : p.Grows q) : q.HasNode id :=
  Nat.lt_of_lt_of_le known grown.nodes

theorem FormInRange.mono {form : Form} (known : p.FormInRange form) (grown : p.Grows q) :
    q.FormInRange form where
  child c listed := (known.child c listed).mono grown
  typeNamed t listed := (known.typeNamed t listed).mono grown

/-- A form without parts mentions nothing. -/
theorem formInRange_leaf {form : Form} (childless : form.children = [])
    (untyped : form.typesNamed = []) : p.FormInRange form where
  child := by simp [childless]
  typeNamed := by simp [untyped]

theorem SymbolInRange.mono {s : Symbol} (known : p.SymbolInRange s) (grown : p.Grows q) :
    q.SymbolInRange s where
  type t listed := (known.type t listed).trans_le grown.types
  containingType t listed := (known.containingType t listed).trans_le grown.types
  parameter t listed := (known.parameter t listed).trans_le grown.symbols

theorem FactsInRange.mono {f : Facts} (known : p.FactsInRange f) (grown : p.Grows q) :
    q.FactsInRange f where
  type t listed := (known.type t listed).trans_le grown.types
  target c listed := (known.target c listed).trans_le grown.types
  symbol t listed := (known.symbol t listed).trans_le grown.symbols
  candidate r listed t member := (known.candidate r listed t member).trans_le grown.symbols
  binding member bindings resolved b listed := by
    obtain ⟨parameter, argument⟩ := known.binding member bindings resolved b listed
    exact ⟨parameter.trans_le grown.symbols, fun a given => (argument a given).trans_le grown.nodes⟩

theorem factsInRange_unknown (p : Program) : p.FactsInRange Facts.unknown := by
  constructor <;> simp [Facts.unknown]

/-- The layout leaves the forms of nodes alone, however often a node is part of others. -/
theorem forms_layout (p : Program) :
    p.layout.nodes.map SyntaxNode.form = p.nodes.map SyntaxNode.form :=
  foldl_kept (fun page => page.nodes.map SyntaxNode.form)
    (fun page part _ => forms_layoutPart _ page part) _

end Program

namespace Page

variable {p : Program} {page : Page}

/-- The nodes on a page have spans that are in order and end on the page. -/
def Settled (page : Page) : Prop :=
  ∀ (id : SyntaxId) (n : SyntaxNode), page.nodes[id]? = some n →
    n.span.start ≤ n.span.stop ∧ n.span.stop ≤ page.place

theorem Settled.word (settled : Settled page) (text : String) : Settled (page.word text) := by
  intro id n found
  obtain ⟨ordered, inside⟩ := settled id n found
  exact ⟨ordered, inside.trans (place_le_word text)⟩

theorem Settled.mark (settled : Settled page) (id : SyntaxId) {start : Nat}
    (earlier : start ≤ page.place) : Settled (page.mark id (Span.between start page.place)) := by
  intro other n found
  rw [getElem?_mark] at found
  split at found
  · obtain ⟨old, _, rfl⟩ := Option.map_eq_some_iff.mp found
    exact ⟨Nat.le_max_left _ _, Nat.max_le.mpr ⟨earlier, Nat.le_refl _⟩⟩
  · exact settled other n found

/-- Whatever the pieces of a text do to settled pages, a sequence of them does too. -/
theorem Settled.foldl {write : Page → LayoutPart → Page}
    (each : ∀ page part, Settled page → Settled (write page part) ∧
      page.place ≤ (write page part).place)
    (settled : Settled page) (parts : List LayoutPart) :
    Settled (parts.foldl write page) ∧ page.place ≤ (parts.foldl write page).place := by
  induction parts generalizing page with
  | nil => exact ⟨settled, Nat.le_refl _⟩
  | cons part rest ih =>
    obtain ⟨settled, grown⟩ := each page part settled
    obtain ⟨settled, more⟩ := ih settled
    exact ⟨settled, grown.trans more⟩

/-- A piece of text leaves every span in order, also that of a node that already has a place. -/
theorem Settled.layoutPart (fuel : Nat) (part : LayoutPart) (settled : Settled page) :
    Settled (p.layoutPart fuel page part) ∧ page.place ≤ (p.layoutPart fuel page part).place := by
  induction fuel generalizing page part with
  | zero =>
    cases part with
    | word text => exact ⟨settled.word text, place_le_word text⟩
    | node => exact ⟨settled, Nat.le_refl _⟩
  | succ fuel ih =>
    cases part with
    | word text => exact ⟨settled.word text, place_le_word text⟩
    | node id terminated =>
      rw [Program.layoutPart]
      cases p.formOf id with
      | none => exact ⟨settled, Nat.le_refl _⟩
      | some form =>
        -- The parts come first: a node that is written again gets its last place.
        obtain ⟨settled, grown⟩ :=
          settled.foldl (fun _ part settled => ih part settled) (p.layoutParts id terminated form)
        exact ⟨settled.mark id grown, grown⟩

end Page

namespace Draft

open Program

variable {d d' : Draft}

/-- The references of a node lead to entries, and it has no place yet. -/
structure Unplaced (p : Program) (n : SyntaxNode) : Prop where
  form : p.FormInRange n.form
  span : n.span = Span.zero

theorem Unplaced.mono {p q : Program} {n : SyntaxNode} (known : Unplaced p n) (grown : p.Grows q) :
    Unplaced q n where
  form := known.form.mono grown
  span := known.span

/-- Every reference of a draft leads to an entry. -/
structure InRange (d : Draft) : Prop where
  node : ∀ (id : SyntaxId) (n : SyntaxNode), d.program.nodes[id]? = some n →
    Unplaced d.program n
  type : ∀ (id : TypeId) (info : TypeInfo), d.program.types[id]? = some info →
    ∀ inner ∈ info.kind.inner, inner < d.program.types.size
  symbol : ∀ (id : SymbolId) (s : Symbol), d.program.symbols[id]? = some s →
    d.program.SymbolInRange s
  facts : ∀ id f, d.program.facts[id]? = some f →
    id < d.program.nodes.size ∧ d.program.FactsInRange f

/-- A draft stays in range when what is new in a table is. -/
theorem InRange.step (known : d.InRange) (grown : d.program.Grows d'.program)
    (node : ∀ (id : SyntaxId) (n : SyntaxNode), d'.program.nodes[id]? = some n →
      d.program.nodes[id]? = some n ∨ Unplaced d'.program n)
    (type : ∀ (id : TypeId) (info : TypeInfo), d'.program.types[id]? = some info →
      d.program.types[id]? = some info ∨
        ∀ inner ∈ info.kind.inner, inner < d'.program.types.size)
    (symbol : ∀ (id : SymbolId) (s : Symbol), d'.program.symbols[id]? = some s →
      d.program.symbols[id]? = some s ∨ d'.program.SymbolInRange s)
    (facts : ∀ id f, d'.program.facts[id]? = some f → d.program.facts[id]? = some f ∨
      id < d'.program.nodes.size ∧ d'.program.FactsInRange f) : d'.InRange where
  node id n found := by
    obtain old | new := node id n found
    · exact (known.node id n old).mono grown
    · exact new
  type id info found := by
    obtain old | new := type id info found
    · exact fun inner listed => (known.type id info old inner listed).trans_le grown.types
    · exact new
  symbol id s found := by
    obtain old | new := symbol id s found
    · exact (known.symbol id s old).mono grown
    · exact new
  facts id f found := by
    obtain old | new := facts id f found
    · obtain ⟨bound, inRange⟩ := known.facts id f old
      exact ⟨bound.trans_le grown.nodes, inRange.mono grown⟩
    · exact new

theorem InRange.untouched (known : d.InRange) (types : d'.program.types = d.program.types)
    (symbols : d'.program.symbols = d.program.symbols)
    (nodes : d'.program.nodes = d.program.nodes) (facts : d'.program.facts = d.program.facts) :
    d'.InRange := by
  have grown : d.program.Grows d'.program :=
    ⟨by rw [types], by rw [symbols], by rw [nodes]⟩
  exact known.step grown (fun _ _ found => .inl (nodes ▸ found))
    (fun _ _ found => .inl (types ▸ found)) (fun _ _ found => .inl (symbols ▸ found))
    fun _ _ found => .inl (facts ▸ found)

theorem getElem?_push_cases {α : Type} {table : Array α} {entry found : α} {i : Nat}
    (known : (table.push entry)[i]? = some found) : table[i]? = some found ∨ found = entry := by
  rw [Array.getElem?_push] at known
  split at known
  · exact .inr (Option.some.inj known).symm
  · exact .inl known

theorem after_symbol (s : Symbol) : d.after (Drafting.symbol s) =
    { d with program := { d.program with symbols := d.program.symbols.push s } } := rfl

theorem after_changeSymbol (id : SymbolId) (f : Symbol → Symbol) :
    d.after (Drafting.changeSymbol id f) =
      { d with program := { d.program with symbols := d.program.symbols.modify id f } } := rfl

theorem after_node (form : Form) : d.after (Drafting.node form) =
    { d with program := { d.program with nodes := d.program.nodes.push ⟨Span.zero, form⟩ } } := rfl

theorem after_changeFacts (id : SyntaxId) (f : Facts → Facts) :
    d.after (Drafting.changeFacts id f) =
      { d with program := { d.program with
        facts := d.program.facts.insert id (f (d.program.factsOf id)) } } := rfl

theorem Assembled.inRange (assembled : d.Assembled) : d.InRange := by
  -- No step takes an entry away, so only what is new in a table has to be looked at.
  induction assembled with
  | start fileName =>
    have none {α : Type} {i : Nat} {entry : α} : (#[] : Array α)[i]? ≠ some entry := by simp
    have blank {id : SyntaxId} {f : Facts} : ({} : Std.TreeMap SyntaxId Facts)[id]? ≠ some f := by
      simp
    exact ⟨fun _ _ found => absurd found none, fun _ _ found => absurd found none,
      fun _ _ found => absurd found none, fun _ _ found => absurd found blank⟩
  | @type d name kind _ issued ih =>
    rw [after_type]
    cases d.program.types.find name with
    | some id => exact ih
    | none =>
      have grown : d.program.types.size ≤ (d.program.types.push ⟨name, kind⟩).size := by simp
      refine ih.step ⟨grown, Nat.le_refl _, Nat.le_refl _⟩ (fun _ _ => .inl) ?_ (fun _ _ => .inl)
        fun _ _ => .inl
      intro id info found
      obtain old | rfl := getElem?_push_cases found
      · exact .inl old
      · exact .inr fun inner listed => (issued inner listed).trans_le grown
  | @symbol d s _ issued ih =>
    rw [after_symbol]
    have grown : d.program.Grows { d.program with symbols := d.program.symbols.push s } :=
      ⟨Nat.le_refl _, by simp, Nat.le_refl _⟩
    refine ih.step grown (fun _ _ => .inl) (fun _ _ => .inl) ?_ fun _ _ => .inl
    intro id s' found
    obtain old | rfl := getElem?_push_cases found
    · exact .inl old
    · exact .inr (issued.mono grown)
  | @changeSymbol d id f _ issued ih =>
    rw [after_changeSymbol]
    have grown : d.program.Grows { d.program with symbols := d.program.symbols.modify id f } :=
      ⟨Nat.le_refl _, by simp, Nat.le_refl _⟩
    refine ih.step grown (fun _ _ => .inl) (fun _ _ => .inl) ?_ fun _ _ => .inl
    intro other s found
    rw [Array.getElem?_modify] at found
    split at found
    · next same =>
      obtain ⟨s, old, rfl⟩ := Option.map_eq_some_iff.mp found
      exact .inr ((issued s (same ▸ old)).mono grown)
    · exact .inl found
  | @node d form _ issued named ih =>
    rw [after_node]
    have grown : d.program.Grows { d.program with
        nodes := d.program.nodes.push ⟨Span.zero, form⟩ } :=
      ⟨Nat.le_refl _, Nat.le_refl _, by simp⟩
    refine ih.step grown ?_ (fun _ _ => .inl) (fun _ _ => .inl) fun _ _ => .inl
    intro id n found
    obtain old | rfl := getElem?_push_cases found
    · exact .inl old
    · exact .inr (Unplaced.mono ⟨⟨issued, named⟩, rfl⟩ grown)
  | @changeFacts d id f _ issued known ih =>
    rw [after_changeFacts]
    have grown : d.program.Grows { d.program with
        facts := d.program.facts.insert id (f (d.program.factsOf id)) } :=
      ⟨Nat.le_refl _, Nat.le_refl _, Nat.le_refl _⟩
    refine ih.step grown (fun _ _ => .inl) (fun _ _ => .inl) (fun _ _ => .inl) ?_
    intro other g found
    rw [Std.TreeMap.getElem?_insert] at found
    split at found
    · next same =>
      obtain rfl := Option.some.inj found
      obtain rfl := compare_eq_iff_eq.mp same
      exact .inr ⟨issued, known.mono grown⟩
    · exact .inl found
  | addMember _ _ _ ih => exact ih.untouched rfl rfl rfl rfl
  | report _ _ ih => exact ih.untouched rfl rfl rfl rfl
  | reportAt _ _ _ _ _ _ ih => exact ih.untouched rfl rfl rfl rfl

/-- In an assembled draft the nodes have no place yet, so all places come from the layout. -/
theorem InRange.settled_layout (known : d.InRange) : d.program.layout.Settled := by
  have settled : Page.Settled ⟨"", d.program.nodes⟩ := by
    intro id n found
    rw [(known.node id n found).span]
    exact ⟨Nat.le_refl _, Nat.zero_le _⟩
  exact (settled.foldl (fun _ part settled => settled.layoutPart _ part) _).1

/-! ### Finished programs -/

/-- What holds of a draft that is put together as it should be. -/
structure Sound (d : Draft) : Prop where
  assembled : d.Assembled
  member : ∀ id ∈ d.program.members, ∃ form, d.program.formOf id = some form ∧ form.isMember = true
  diagnostic : ∀ x ∈ d.program.diagnostics, x.span.start ≤ x.span.stop

theorem Sound.wellFormed_finish (sound : d.Sound) : d.finish.WellFormed := by
  have known := sound.assembled.inRange
  have forms : d.finish.nodes.map SyntaxNode.form = d.program.nodes.map SyntaxNode.form :=
    forms_layout d.program
  have grown : d.program.Grows d.finish := by
    refine ⟨Nat.le_refl _, Nat.le_refl _, Nat.le_of_eq ?_⟩
    simpa using (congrArg Array.size forms).symm
  constructor
  case node =>
    intro id n found
    obtain ⟨ordered, inside⟩ := known.settled_layout id n found
    have form : d.program.formOf id = some n.form := by
      rw [← formOf_congr forms]
      exact Option.map_eq_some_iff.mpr ⟨n, found, rfl⟩
    obtain ⟨old, listed, same⟩ := Option.map_eq_some_iff.mp form
    have unplaced := (known.node id old listed).mono grown
    refine ⟨same ▸ unplaced.form.child, same ▸ unplaced.form.typeNamed, ordered, ?_⟩
    intro source written
    obtain rfl := Option.some.inj written
    exact inside
  case acyclic =>
    unfold Acyclic
    rw [hasPart_congr forms]
    exact sound.assembled.acyclic
  case diagnostic =>
    intro x listed
    obtain reported | placed := List.mem_append.mp listed
    · exact sound.diagnostic x reported
    · obtain ⟨pending, _, rfl⟩ := List.mem_map.mp placed
      change (d.program.layout.nodes.spanOf pending.node).start ≤ _
      unfold SyntaxTable.spanOf
      cases found : d.program.layout.nodes[pending.node]? with
      | none => exact Nat.le_refl _
      | some n => exact (known.settled_layout pending.node n found).1
  case type => exact known.type
  case symbol => exact fun id s found => (known.symbol id s found).mono grown
  case facts =>
    intro id f found
    obtain ⟨bound, inRange⟩ := known.facts id f found
    exact ⟨bound.trans_le grown.nodes, inRange.mono grown⟩
  case member =>
    intro id listed
    rw [formOf_congr forms]
    exact sound.member id listed

end Draft

end SemanticTrees
