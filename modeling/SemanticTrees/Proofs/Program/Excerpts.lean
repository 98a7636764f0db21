import SemanticTrees.Proofs.Program.Assembly

/-! Excerpts. The text that a node writes does not depend on what stands in front of it, so that in
the finished text of a tidy program the span of a node cuts out what is written for the node by
itself. Declarations in the header of a statement are written without their semicolon. -/
namespace SemanticTrees

namespace Text

variable {before text after : List Char}

theorem byteSize_eq (text : String) : byteSize text.toList = text.utf8ByteSize := by
  have chars (text : List Char) : byteSize text = (String.ofList text).utf8ByteSize := by
    induction text with
    | nil => rfl
    | cons c rest ih =>
      rw [byteSize, ih, ← List.singleton_append, String.ofList_append, String.utf8ByteSize_append,
        ← String.singleton_eq_ofList, String.utf8ByteSize_singleton]
  rw [chars, String.ofList_toList]

/-- A text can be cut behind each of its characters. -/
theorem splitAtByte_append (before after : List Char) :
    splitAtByte (byteSize before) (before ++ after) = some (before, after) := by
  induction before with
  | nil => cases after <;> rfl
  | cons c rest ih =>
    obtain ⟨n, size⟩ : ∃ n, byteSize (c :: rest) = n + 1 :=
      Nat.exists_eq_succ_of_ne_zero (Nat.ne_of_gt (Nat.add_pos_left c.utf8Size_pos _))
    have fits : c.utf8Size ≤ n + 1 := size ▸ Nat.le_add_right _ _
    have others : n + 1 - c.utf8Size = byteSize rest := by
      rw [← size, byteSize, Nat.add_sub_cancel_left]
    rw [size, List.cons_append, splitAtByte, if_pos fits, others, ih]
    rfl

/-- Between the two texts around it a text is cut out. -/
theorem slice_append (before text after : List Char) :
    slice (before ++ text ++ after) (byteSize before) (byteSize (before ++ text)) = some text := by
  have ordered : byteSize before ≤ byteSize (before ++ text) := by
    rw [byteSize_append]
    exact Nat.le_add_right _ _
  rw [slice, if_pos ordered, List.append_assoc, splitAtByte_append, byteSize_append,
    Nat.add_sub_cancel_left]
  simp [splitAtByte_append]

end Text

/-- The nodes that stand in the header of a loop or of a statement with a resource. -/
def Form.heading : Form → List SyntaxId
  | .forLoop initializers _ _ _ => initializers
  | .fixed declaration _ => [declaration]
  | .usingResource resource _ => [resource]
  | _ => []

namespace LayoutPart

variable {separator : String} {terminated flag other : Bool} {id : SyntaxId} {ids : List SyntaxId}
  {parts rest : List LayoutPart}

/-- The nodes among the pieces of a text that are written without a semicolon. -/
def bareOf : List LayoutPart → List SyntaxId :=
  List.filterMap fun
    | .node id false => some id
    | _ => none

@[simp] theorem bareOf_nil : bareOf [] = [] := rfl

@[simp] theorem bareOf_word (text : String) : bareOf (.word text :: rest) = bareOf rest := rfl

@[simp] theorem bareOf_node_true (id : SyntaxId) :
    bareOf (.node id true :: rest) = bareOf rest := rfl

@[simp] theorem bareOf_node_false (id : SyntaxId) :
    bareOf (.node id false :: rest) = id :: bareOf rest := rfl

@[simp] theorem bareOf_append : bareOf (parts ++ rest) = bareOf parts ++ bareOf rest :=
  List.filterMap_append

@[simp] theorem bareOf_separated :
    bareOf (separated separator terminated ids) = if terminated then [] else ids := by
  fun_induction separated separator terminated ids with
  | case1 => simp
  | case2 => cases terminated <;> rfl
  | case3 id rest _ ih => cases terminated <;> simpa using ih

@[simp] theorem bareOf_optional (before : String) (id : Option SyntaxId) :
    bareOf (LayoutPart.optional before id) = [] := by
  cases id <;> rfl

theorem mem_bareOf : id ∈ bareOf parts ↔ .node id false ∈ parts := by
  unfold bareOf
  rw [List.mem_filterMap]
  constructor
  · rintro ⟨part, listed, same⟩
    split at same
    · obtain rfl := Option.some.inj same
      exact listed
    · contradiction
  · intro listed
    exact ⟨_, listed, rfl⟩

/-- A node that stands once among the pieces of a text is written in one way. -/
theorem flag_unique (once : (nodesOf parts).Nodup) (listed : .node id flag ∈ parts)
    (again : .node id other ∈ parts) : flag = other := by
  induction parts with
  | nil => contradiction
  | cons part rest ih =>
    cases part with
    | word text => exact ih once (by simpa using listed) (by simpa using again)
    | node first terminated =>
      obtain ⟨fresh, once⟩ := List.nodup_cons.mp once
      rw [List.mem_cons] at listed again
      obtain same | listed := listed <;> obtain same' | again := again
      · cases same
        cases same'
        rfl
      · cases same
        exact absurd (mem_nodesOf again) fresh
      · cases same'
        exact absurd (mem_nodesOf listed) fresh
      · exact ih once listed again

end LayoutPart

namespace Program

open LayoutPart

variable {p : Program} {page next start : Page} {parts : List LayoutPart} {part : LayoutPart}
  {id child whole : SyntaxId} {form : Form} {fuel bound : Nat} {terminated flag : Bool}

/-- In the text of a form only what stands in its header is written without a semicolon. -/
theorem bareOf_layoutParts (id : SyntaxId) (terminated : Bool) (form : Form) :
    bareOf (p.layoutParts id terminated form) = form.heading := by
  unfold layoutParts
  cases form with
  | goto target => cases target <;> rfl
  | caseLabel value => cases value <;> rfl
  | method name parameters body =>
    cases body <;> simp [expressionParts, statementParts, declarationParts, Form.heading, list]
  | property name initializer => cases initializer <;> rfl
  | _ => simp [expressionParts, statementParts, declarationParts, Form.heading, between, list]

/-- What stands in the header of a form is part of it. -/
theorem mem_children_of_heading (listed : child ∈ form.heading) : child ∈ form.children := by
  cases form with
  | forLoop => simp_all [Form.heading, Form.children]
  | fixed => simp_all [Form.heading, Form.children]
  | usingResource => simp_all [Form.heading, Form.children]
  | _ => contradiction

/-- The node is a declaration of variables. -/
def IsDeclaration (p : Program) (id : SyntaxId) : Prop :=
  ∃ type declarators, p.formOf id = some (.localDeclaration type declarators)

/-- The node stands in the header of the statement that it is part of. -/
def Heads (p : Program) (id : SyntaxId) : Prop :=
  ∃ whole form, p.formOf whole = some form ∧ id ∈ form.heading

/-- The text that a piece writes on an empty page. -/
def written (p : Program) (fuel : Nat) (part : LayoutPart) : String :=
  (p.layoutPart fuel ⟨"", p.nodes⟩ part).text

/-- The text that is written for a node by itself. -/
def ownText (p : Program) (id : SyntaxId) : String :=
  p.written (p.nodes.size + 1) (.node id true)

/-! ### What pieces write -/

@[simp] theorem written_word (fuel : Nat) (text : String) : p.written fuel (.word text) = text := by
  simp [written, Page.word]

theorem text_foldl {write : Page → LayoutPart → Page} {text : LayoutPart → String}
    (each : ∀ page part, (write page part).text = page.text ++ text part) (page : Page) :
    (parts.foldl write page).text = page.text ++ String.join (parts.map text) := by
  induction parts generalizing page with
  | nil => simp
  | cons part rest ih => simp [ih, each, String.append_assoc]

/-- A piece writes the same text wherever it stands. -/
theorem text_layoutPart (fuel : Nat) (page : Page) (part : LayoutPart) :
    (p.layoutPart fuel page part).text = page.text ++ p.written fuel part := by
  induction fuel generalizing page part with
  | zero =>
    cases part with
    | word => simp [Page.word]
    | node => simp [written, layoutPart]
  | succ fuel ih =>
    cases part with
    | word => simp [Page.word]
    | node id terminated =>
      unfold written layoutPart
      cases p.formOf id with
      | none => simp
      | some form => simp [Page.mark, text_foldl ih]

theorem written_node (found : p.formOf id = some form) :
    p.written (fuel + 1) (.node id terminated) =
      String.join ((p.layoutParts id terminated form).map (p.written fuel)) := by
  rw [written, layoutPart, found]
  simp [Page.mark, text_foldl (text_layoutPart fuel)]

/-- Fuel that is enough makes no difference. -/
theorem written_eq_of_shallow {other : Nat} (shallow : p.Shallow bound id) (enough : bound < fuel)
    (enough' : bound < other) :
    p.written fuel (.node id terminated) = p.written other (.node id terminated) := by
  induction fuel generalizing id bound other terminated with
  | zero => exact absurd enough (Nat.not_lt_zero _)
  | succ fuel ih =>
    obtain ⟨other, rfl⟩ := Nat.exists_eq_succ_of_ne_zero (Nat.ne_zero_of_lt enough')
    cases found : p.formOf id with
    | none => simp [written, layoutPart, found]
    | some form =>
      rw [written_node found, written_node found]
      congr 1
      refine List.map_congr_left fun part listed => ?_
      cases part with
      | word => simp
      | node child flag =>
        have known : p.HasPart id child :=
          hasPart_of_formOf found (nodesOf_layoutParts id terminated form ▸ mem_nodesOf listed)
        obtain ⟨less, lower, shallow⟩ := shallow.part known
        exact ih shallow (by omega) (by omega)

theorem Acyclic.written_eq (acyclic : p.Acyclic) (shallow : p.Shallow bound id)
    (enough : bound < fuel) :
    p.written fuel (.node id terminated) = p.written (p.nodes.size + 1) (.node id terminated) := by
  obtain few | many := Nat.lt_or_ge bound (p.nodes.size + 1)
  · exact written_eq_of_shallow shallow enough few
  · exact written_eq_of_shallow (acyclic.shallow id) (by omega) (Nat.lt_succ_self _)

/-- A declaration of variables has a semicolon behind it, unless it is written without one. -/
theorem IsDeclaration.written (declaration : p.IsDeclaration id) :
    p.written (fuel + 1) (.node id true) = p.written (fuel + 1) (.node id false) ++ ";" := by
  obtain ⟨type, declarators, found⟩ := declaration
  rw [written_node found, written_node found]
  simp [layoutParts, expressionParts, statementParts, declarationParts, String.append_assoc]

/-- Only a declaration of variables is written in more than one way. -/
theorem written_of_not_isDeclaration (other : ¬p.IsDeclaration id) :
    p.written (fuel + 1) (.node id true) = p.written (fuel + 1) (.node id false) := by
  cases found : p.formOf id with
  | none => simp [written, layoutPart, found]
  | some form =>
    rw [written_node found, written_node found]
    cases form with
    | localDeclaration type declarators => exact absurd ⟨type, declarators, found⟩ other
    | caseLabel value => cases value <;> rfl
    | goto target => cases target <;> rfl
    | _ => rfl

/-! ### What pieces leave alone -/

/-- What each of the pieces leaves alone, all of them do. -/
theorem foldl_kept {α : Type} (read : Page → α) {write : Page → LayoutPart → Page}
    (each : ∀ page, ∀ part ∈ parts, read (write page part) = read page) (page : Page) :
    read (parts.foldl write page) = read page := by
  induction parts generalizing page with
  | nil => rfl
  | cons part rest ih =>
    rw [List.foldl_cons, ih fun page part listed => each page part (List.mem_cons_of_mem _ listed)]
    exact each page part List.mem_cons_self

theorem forms_layoutPart (fuel : Nat) (page : Page) (part : LayoutPart) :
    (p.layoutPart fuel page part).nodes.map SyntaxNode.form =
      page.nodes.map SyntaxNode.form := by
  induction fuel generalizing page part with
  | zero => cases part <;> rfl
  | succ fuel ih =>
    cases part with
    | word => rfl
    | node id terminated =>
      unfold layoutPart
      cases p.formOf id with
      | none => rfl
      | some form =>
        refine Page.forms_mark.trans ?_
        exact foldl_kept (fun page => page.nodes.map SyntaxNode.form)
          (fun page part _ => ih page part) page

/-- A node that does not lie below what is written keeps its span. -/
theorem spanOf_layoutPart {other : SyntaxId} (outside : ¬p.Below id other) :
    (p.layoutPart fuel page (.node id terminated)).nodes.spanOf other =
      page.nodes.spanOf other := by
  induction fuel generalizing page id terminated with
  | zero => rfl
  | succ fuel ih =>
    unfold layoutPart
    cases found : p.formOf id with
    | none => rfl
    | some form =>
      have different : other ≠ id := by
        rintro rfl
        exact outside .refl
      refine (Page.spanOf_mark_ne different).trans ?_
      refine foldl_kept (fun page => page.nodes.spanOf other) ?_ page
      intro page part listed
      cases part with
      | word => rw [layoutPart_word, Page.word]
      | node child flag =>
        have known : p.HasPart id child :=
          hasPart_of_formOf found (nodesOf_layoutParts id terminated form ▸ mem_nodesOf listed)
        exact ih fun below => outside (.head known below)

/-! ### Where a node stands -/

/-- The span of a node is the place of its text, which stands on the page between two others. -/
def Spelled (p : Program) (page : Page) (id : SyntaxId) (terminated : Bool) : Prop :=
  ∃ before after, let text := p.written (p.nodes.size + 1) (.node id terminated)
    page.text = before ++ text ++ after ∧
      page.nodes.spanOf id = ⟨before.utf8ByteSize, (before ++ text).utf8ByteSize⟩

/-- A node stays where it stands when more is written behind it. -/
theorem Spelled.later {more : String} (spelled : p.Spelled page id terminated)
    (text : next.text = page.text ++ more)
    (own : next.nodes.spanOf id = page.nodes.spanOf id) : p.Spelled next id terminated := by
  obtain ⟨before, after, all, span⟩ := spelled
  refine ⟨before, after ++ more, ?_, own.trans span⟩
  rw [text, all, String.append_assoc, String.append_assoc]

/-- A node stands where it was written among other pieces, if these have nothing in common with
the piece that it lies below. -/
theorem Spelled.foldl (listed : .node child flag ∈ parts) (below : p.Below child id)
    (disjoint : (nodesOf parts).Pairwise p.Disjoint)
    (each : ∀ page, page.nodes.map SyntaxNode.form = start.nodes.map SyntaxNode.form →
      p.Spelled (p.layoutPart fuel page (.node child flag)) id terminated) :
    p.Spelled (parts.foldl (p.layoutPart fuel) start) id terminated := by
  obtain ⟨front, rest, rfl⟩ := List.append_of_mem listed
  rw [nodesOf_append, nodesOf_node] at disjoint
  obtain ⟨_, disjoint, _⟩ := List.pairwise_append.mp disjoint
  rw [List.foldl_append, List.foldl_cons]
  have forms : (front.foldl (p.layoutPart fuel) start).nodes.map SyntaxNode.form =
      start.nodes.map SyntaxNode.form :=
    foldl_kept (fun page => page.nodes.map SyntaxNode.form)
      (fun page part _ => forms_layoutPart fuel page part) start
  refine (each _ forms).later (text_foldl (text_layoutPart fuel) _) ?_
  refine foldl_kept (fun page => page.nodes.spanOf id) ?_ _
  intro page part listed
  cases part with
  | word => rw [layoutPart_word, Page.word]
  | node other flag =>
    have apart := (List.pairwise_cons.mp disjoint).1 other (mem_nodesOf listed)
    exact spanOf_layoutPart (apart id below)

theorem bool_eq_of_iff {a b : Bool} {P : Prop} (left : a = false ↔ P) (right : b = false ↔ P) :
    a = b := by
  cases a <;> cases b <;> simp_all

namespace Tidy

variable (tidy : p.Tidy)
include tidy

theorem heads_iff (found : p.formOf whole = some form) (listed : child ∈ form.children) :
    p.Heads child ↔ child ∈ form.heading := by
  constructor
  · rintro ⟨other, form', found', heading⟩
    obtain rfl := tidy.whole_unique (hasPart_of_formOf found listed)
      (hasPart_of_formOf found' (mem_children_of_heading heading))
    obtain rfl := Option.some.inj (found.symm.trans found')
    exact heading
  · exact fun heading => ⟨whole, form, found, heading⟩

/-- A part of a form is written, without a semicolon when it stands in the header. -/
theorem exists_mem_layoutParts (terminated : Bool) (found : p.formOf whole = some form)
    (listed : child ∈ form.children) :
    ∃ flag, .node child flag ∈ p.layoutParts whole terminated form ∧
      (flag = false ↔ p.Heads child) := by
  have nodes := nodesOf_layoutParts (p := p) whole terminated form
  have once : form.children.Nodup := childrenOf_of_formOf found ▸ tidy.nodup_childrenOf whole
  obtain ⟨part, written, same⟩ := List.mem_filterMap.mp (nodes ▸ listed)
  cases part with
  | word => contradiction
  | node id flag =>
    obtain rfl := Option.some.inj same
    refine ⟨flag, written, ?_⟩
    rw [tidy.heads_iff found listed, ← bareOf_layoutParts (p := p) whole terminated, mem_bareOf]
    constructor
    · rintro rfl
      exact written
    · exact flag_unique (nodes ▸ once) written

/-- A node stands where it was written, and so does everything below it. -/
theorem spelled_below (forms : page.nodes.map SyntaxNode.form = p.nodes.map SyntaxNode.form)
    (shallow : p.Shallow bound id) (enough : bound < fuel) (below : p.Below id child)
    (inside : child < p.nodes.size) (tagged : terminated = false ↔ p.Heads id)
    (flagged : flag = false ↔ p.Heads child) :
    p.Spelled (p.layoutPart fuel page (.node id terminated)) child flag := by
  induction fuel generalizing page id bound terminated with
  | zero => exact absurd enough (Nat.not_lt_zero _)
  | succ fuel ih =>
    obtain rfl | ⟨part, known, below⟩ := Relation.ReflTransGen.cases_head below
    · obtain rfl := bool_eq_of_iff tagged flagged
      have laid : p.Laid page (p.layoutPart (fuel + 1) page (.node id terminated)) id :=
        tidy.laid forms inside shallow enough
      have text := text_layoutPart (p := p) (fuel + 1) page (.node id terminated)
      rw [tidy.acyclic.written_eq shallow enough] at text
      refine ⟨page.text, "", by rw [text, String.append_empty], ?_⟩
      rw [laid.span, Page.place, Page.place, text]
    · obtain ⟨form, found, listed⟩ := mem_childrenOf_iff.mp known
      obtain ⟨less, lower, shallow⟩ := shallow.part known
      obtain ⟨other, written, tag⟩ := tidy.exists_mem_layoutParts terminated found listed
      unfold layoutPart
      rw [found]
      have spelled : p.Spelled
          ((p.layoutParts id terminated form).foldl (p.layoutPart fuel) page) child flag := by
        refine Spelled.foldl written below ?_ fun start same => ?_
        · rw [nodesOf_layoutParts]
          exact tidy.pairwise_disjoint_children found
        · exact ih (same.trans forms) shallow (by omega) below tag
      have different : child ≠ id := by
        intro same
        exact tidy.acyclic.not_below known (same ▸ below)
      exact spelled.later String.append_empty.symm (Page.spanOf_mark_ne different)

/-- In the text of a program every node stands where it was written. -/
theorem spelled_layout (inside : id < p.nodes.size) (flagged : flag = false ↔ p.Heads id) :
    p.Spelled p.layout id flag := by
  obtain ⟨top, below, listed⟩ := tidy.exists_layoutRoot inside
  have nodes : nodesOf (LayoutPart.list "\n" p.layoutRoots) = p.layoutRoots := nodesOf_list
  have root : .node top true ∈ LayoutPart.list "\n" p.layoutRoots := by
    obtain ⟨part, listed, same⟩ :=
      List.mem_filterMap.mp (nodes ▸ List.mem_of_mem_filter listed)
    cases part with
    | word => contradiction
    | node other flag =>
      obtain rfl := Option.some.inj same
      cases flag with
      | true => exact listed
      | false =>
        rw [← mem_bareOf, LayoutPart.list, bareOf_separated] at listed
        contradiction
  have free : ¬p.Heads top := by
    rintro ⟨whole, form, found, heading⟩
    have known := hasPart_of_formOf found (mem_children_of_heading heading)
    exact tidy.isTop_of_mem_layoutRoots (List.mem_of_mem_filter listed) whole known
  refine Spelled.foldl root below ?_ fun start same => ?_
  · rw [nodes]
    exact tidy.pairwise_disjoint_layoutRoots
  · exact tidy.spelled_below same (tidy.acyclic.shallow top) (Nat.lt_succ_self _) below inside
      (by simpa using free) flagged

end Tidy

/-- The span of a node that stands where it was written cuts out its text. -/
theorem Spelled.textOf {q : Program} (spelled : p.Spelled page id terminated)
    (source : q.sourceText = some page.text) :
    q.textOf (page.nodes.spanOf id) =
      some (p.written (p.nodes.size + 1) (.node id terminated)) := by
  obtain ⟨before, after, all, span⟩ := spelled
  unfold Program.textOf
  rw [source, span]
  simp only [Span.slice, all, String.toList_append, ← Text.byteSize_eq]
  rw [Text.slice_append]
  simp

end Program

namespace Draft

open Program

variable {d : Draft}

/-- The finished text of a draft: every span lies in it, parts inside their wholes, and behind a
part and its text there is something before the next one; what a span cuts out is what is written
for its node alone, except that a declaration in a header has no semicolon. Only nodes that exist
have spans. -/
structure Legible (d : Draft) : Prop where
  ordered : ∀ id < d.program.nodes.size,
    (d.finish.nodes.spanOf id).start ≤ (d.finish.nodes.spanOf id).stop
  within : ∃ text, d.finish.sourceText = some text ∧ ∀ id < d.program.nodes.size,
    (d.finish.nodes.spanOf id).stop ≤ text.utf8ByteSize
  inside : ∀ whole part, d.program.HasPart whole part → part < d.program.nodes.size →
    (d.finish.nodes.spanOf whole).contains (d.finish.nodes.spanOf part) = true
  apart : ∀ id, (d.program.existing (d.program.nodes.childrenOf id)).Pairwise fun a b =>
    (d.finish.nodes.spanOf a).stop < (d.finish.nodes.spanOf b).start
  tops : (d.program.existing d.program.layoutRoots).Pairwise fun a b =>
    (d.finish.nodes.spanOf a).stop < (d.finish.nodes.spanOf b).start
  excerpt : ∀ id < d.program.nodes.size, ¬(d.program.IsDeclaration id ∧ d.program.Heads id) →
    d.finish.textOf (d.finish.nodes.spanOf id) = some (d.program.ownText id)
  header : ∀ id < d.program.nodes.size, d.program.IsDeclaration id → d.program.Heads id →
    ∃ text, d.finish.textOf (d.finish.nodes.spanOf id) = some text ∧
      text ++ ";" = d.program.ownText id

/-- Finishing a draft whose nodes are not shared makes its text legible. -/
theorem finish_legible (tidy : d.program.Tidy) : d.Legible := by
  have excerpt {id : SyntaxId} (flag : Bool) (inside : id < d.program.nodes.size)
      (flagged : flag = false ↔ d.program.Heads id) :
      d.finish.textOf (d.finish.nodes.spanOf id) =
        some (d.program.written (d.program.nodes.size + 1) (.node id flag)) :=
    (tidy.spelled_layout inside flagged).textOf rfl
  constructor
  · exact fun id inside => (tidy.placed inside).ordered
  · refine ⟨d.program.layout.text, rfl, fun id inside => ?_⟩
    obtain ⟨top, below, listed⟩ := tidy.exists_layoutRoot inside
    have contained := Span.contains_iff.mp (tidy.contains_of_below below inside)
    exact contained.2.trans (tidy.run_layout.inside top listed).2.2
  · exact fun whole part known inside => (tidy.placed (lt_of_hasPart known)).inside part known inside
  · intro id
    by_cases inside : id < d.program.nodes.size
    · exact (tidy.placed inside).apart
    · simp [SyntaxTable.childrenOf, existing, inside]
  · exact tidy.run_layout.apart
  · intro id inside plain
    by_cases heads : d.program.Heads id
    · rw [excerpt false inside (by simpa using heads), ownText,
        written_of_not_isDeclaration fun declaration => plain ⟨declaration, heads⟩]
    · rw [excerpt true inside (by simpa using heads), ownText]
  · intro id inside declaration heads
    exact ⟨_, excerpt false inside (by simpa using heads), declaration.written.symm⟩

/-- A loop with a declaration in its header, whose variable has no value yet and a name of two
bytes, and an identifier without a name beside it. -/
def loopHeader : Draft :=
  (((((((start "loop").after (Drafting.node .missing)).after
    (Drafting.node (.variableDeclarator "é" (some 0)))).after
    (Drafting.node (.localDeclaration none [1]))).after
    (Drafting.node (.block []))).after
    (Drafting.node (.forLoop [2] none [] 3))).after
    (Drafting.node (.identifier ""))).after
    (Drafting.addMember 4)

theorem tidy_loopHeader : loopHeader.program.Tidy := by
  have missing := Assembled.node .missing (.start "loop") (by decide) (by decide)
  have declarator := missing.node (.variableDeclarator "é" (some 0)) (by decide) (by decide)
  have declaration := declarator.node (.localDeclaration none [1]) (by decide) (by decide)
  have body := declaration.node (.block []) (by decide) (by decide)
  have loop := body.node (.forLoop [2] none [] 3) (by decide) (by decide)
  have name := loop.node (.identifier "") (by decide) (by decide)
  refine (name.addMember 4 (by decide)).tidy ⟨by decide, by decide, ?_⟩
  intro member listed
  obtain rfl := List.mem_singleton.mp listed
  exact isTop_iff.mpr (by decide)

theorem loopHeader_legible :
    loopHeader.finish.sourceText = some "for (var é = ; ; ) \x7b \x7d\n" ∧
    loopHeader.finish.textOf (loopHeader.finish.nodes.spanOf 2) = some "var é = " ∧
    loopHeader.program.ownText 2 = "var é = ;" ∧
    loopHeader.finish.textOf (loopHeader.finish.nodes.spanOf 5) = some "" ∧ loopHeader.Legible :=
  ⟨rfl, rfl, rfl, rfl, finish_legible tidy_loopHeader⟩

end Draft

end SemanticTrees
