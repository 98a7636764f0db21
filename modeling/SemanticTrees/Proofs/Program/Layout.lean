import SemanticTrees.Proofs.Program.Tidy
import SemanticTrees.Proofs.Program.Descent
import SemanticTrees.Proofs.Program.LayoutParts

/-! Layout. In a tidy program that is laid out a node lies inside its whole, parts of one node are
strictly apart, and only an argument may stand where its part stands. -/
namespace SemanticTrees

namespace Program

variable {p : Program}

/-- The nodes of a list that exist. -/
def existing (p : Program) (ids : List SyntaxId) : List SyntaxId :=
  ids.filter (· < p.nodes.size)

/-- The span of a node contains those of its parts, which are apart from one another and, unless the
node is an argument, narrower than the node. -/
structure Placed (p : Program) (nodes : SyntaxTable) (id : SyntaxId) : Prop where
  ordered : (nodes.spanOf id).start ≤ (nodes.spanOf id).stop
  inside : ∀ part, p.HasPart id part → part < p.nodes.size →
    (nodes.spanOf id).contains (nodes.spanOf part) = true
  apart : (p.existing (p.nodes.childrenOf id)).Pairwise fun a b =>
    (nodes.spanOf a).stop < (nodes.spanOf b).start
  strict : ¬p.IsArgument id → ∀ part, p.HasPart id part → part < p.nodes.size →
    (nodes.spanOf part).contains (nodes.spanOf id) = false

end Program

namespace Page

variable {page : Page} {id other : SyntaxId} {span : Span} {text : String}

theorem place_word : (page.word text).place = page.place + text.utf8ByteSize :=
  String.utf8ByteSize_append

theorem place_le_word (text : String) : page.place ≤ (page.word text).place := by
  rw [place_word]
  exact Nat.le_add_right _ _

theorem place_lt_word (written : text ≠ "") : page.place < (page.word text).place := by
  have some : text.utf8ByteSize ≠ 0 := by simpa using written
  rw [place_word]
  omega

@[simp] theorem place_mark : (page.mark id span).place = page.place := rfl

theorem getElem?_mark : (page.mark id span).nodes[other]? =
    if id = other then page.nodes[other]?.map fun node => { node with span } else page.nodes[other]? :=
  Array.getElem?_modify

theorem forms_mark :
    (page.mark id span).nodes.map SyntaxNode.form = page.nodes.map SyntaxNode.form := by
  apply Array.ext_getElem?
  intro other
  rw [Array.getElem?_map, Array.getElem?_map, getElem?_mark]
  split
  · cases page.nodes[other]? <;> rfl
  · rfl

theorem spanOf_mark_self (bound : id < page.nodes.size) :
    (page.mark id span).nodes.spanOf id = span := by
  unfold SyntaxTable.spanOf
  rw [getElem?_mark, if_pos rfl, Array.getElem?_eq_getElem bound]
  rfl

theorem spanOf_mark_ne (ne : other ≠ id) :
    (page.mark id span).nodes.spanOf other = page.nodes.spanOf other := by
  unfold SyntaxTable.spanOf
  rw [getElem?_mark, if_neg ne.symm]

end Page

namespace Program

open LayoutPart

variable {p : Program} {start page next : Page} {ids : List SyntaxId} {id : SyntaxId}

@[simp] theorem layoutPart_word (fuel : Nat) (page : Page) (text : String) :
    p.layoutPart fuel page (.word text) = page.word text := by
  cases fuel <;> rfl

theorem layoutPart_missing (fuel : Nat) (page : Page) (terminated : Bool)
    (outside : p.nodes.size ≤ id) : p.layoutPart fuel page (.node id terminated) = page := by
  have missing : p.formOf id = none := by
    simp [formOf, SyntaxTable.formOf, Array.getElem?_eq_none outside]
  cases fuel with
  | zero => rfl
  | succ fuel => rw [layoutPart, missing]

theorem Placed.congr {nodes others : SyntaxTable} (placed : p.Placed nodes id)
    (own : others.spanOf id = nodes.spanOf id)
    (parts : ∀ part, p.HasPart id part → others.spanOf part = nodes.spanOf part) :
    p.Placed others id := by
  constructor
  · rw [own]
    exact placed.ordered
  · intro part known bound
    rw [own, parts part known]
    exact placed.inside part known bound
  · refine placed.apart.imp_of_mem ?_
    intro a b left right
    rw [parts a (List.mem_filter.mp left).1, parts b (List.mem_filter.mp right).1]
    exact fun before => before
  · intro other part known bound
    rw [own, parts part known]
    exact placed.strict other part known bound

/-- What laying out a node does to a page: it stands where its text stands, everything below it is
in its place, and nothing else is touched. -/
structure Laid (p : Program) (page next : Page) (id : SyntaxId) : Prop where
  forms : next.nodes.map SyntaxNode.form = page.nodes.map SyntaxNode.form
  grows : page.place ≤ next.place
  span : next.nodes.spanOf id = ⟨page.place, next.place⟩
  frame : ∀ other, ¬p.Below id other → next.nodes.spanOf other = page.nodes.spanOf other
  placed : ∀ part, p.Below id part → part < p.nodes.size → p.Placed next.nodes part

/-- What laying out pieces of a text has done to a page: some nodes have their spans, one behind the
other, everything below them is in its place, and nothing else is touched. -/
structure Run (p : Program) (start page : Page) (ids : List SyntaxId) : Prop where
  forms : page.nodes.map SyntaxNode.form = start.nodes.map SyntaxNode.form
  grows : start.place ≤ page.place
  inside : ∀ id ∈ ids, start.place ≤ (page.nodes.spanOf id).start ∧
    (page.nodes.spanOf id).start ≤ (page.nodes.spanOf id).stop ∧
    (page.nodes.spanOf id).stop ≤ page.place
  apart : ids.Pairwise fun a b => (page.nodes.spanOf a).stop < (page.nodes.spanOf b).start
  frame : ∀ other, (∀ id ∈ ids, ¬p.Below id other) →
    page.nodes.spanOf other = start.nodes.spanOf other
  placed : ∀ id ∈ ids, ∀ part, p.Below id part → part < p.nodes.size → p.Placed page.nodes part

/-- There is a gap behind the nodes that were laid out. -/
def Gapped (page : Page) (ids : List SyntaxId) : Prop :=
  ∀ id ∈ ids, (page.nodes.spanOf id).stop < page.place

/-- The text has more than the nodes that were laid out, each by itself. -/
def Exceeds (start page : Page) (ids : List SyntaxId) : Prop :=
  start.place < page.place ∧ ∀ id ∈ ids,
    start.place < (page.nodes.spanOf id).start ∨ (page.nodes.spanOf id).stop < page.place

theorem Gapped.word (gapped : Gapped page ids) (text : String) : Gapped (page.word text) ids := by
  intro id listed
  exact (gapped id listed).trans_le (Page.place_le_word text)

theorem Exceeds.word (exceeds : Exceeds start page ids) (text : String) :
    Exceeds start (page.word text) ids := by
  refine ⟨exceeds.1.trans_le (Page.place_le_word text), fun id listed => ?_⟩
  exact (exceeds.2 id listed).imp_right fun before => before.trans_le (Page.place_le_word text)

namespace Run

theorem refl (page : Page) : p.Run page page [] where
  forms := rfl
  grows := Nat.le_refl _
  inside := by simp
  apart := .nil
  frame := fun _ _ => rfl
  placed := by simp

theorem word (run : p.Run start page ids) (text : String) : p.Run start (page.word text) ids where
  forms := run.forms
  grows := run.grows.trans (Page.place_le_word text)
  inside := by
    intro id listed
    obtain ⟨first, ordered, last⟩ := run.inside id listed
    exact ⟨first, ordered, last.trans (Page.place_le_word text)⟩
  apart := run.apart
  frame := run.frame
  placed := run.placed

theorem gapped_word (run : p.Run start page ids) {text : String} (written : text ≠ "") :
    Gapped (page.word text) ids := by
  intro id listed
  exact (run.inside id listed).2.2.trans_lt (Page.place_lt_word written)

theorem exceeds_word (run : p.Run start page ids) {text : String} (written : text ≠ "") :
    Exceeds start (page.word text) ids :=
  ⟨run.grows.trans_lt (Page.place_lt_word written),
    fun id listed => .inr (run.gapped_word written id listed)⟩

theorem node (run : p.Run start page ids) (gapped : Gapped page ids) (laid : p.Laid page next id)
    (disjoint : ∀ other ∈ ids, p.Disjoint other id) : p.Run start next (ids ++ [id]) := by
  have kept (other : SyntaxId) (listed : other ∈ ids) (part : SyntaxId) (below : p.Below other part) :
      next.nodes.spanOf part = page.nodes.spanOf part :=
    laid.frame part (disjoint other listed part below)
  constructor
  · exact laid.forms.trans run.forms
  · exact run.grows.trans laid.grows
  · intro other listed
    obtain listed | listed := List.mem_append.mp listed
    · obtain ⟨first, ordered, last⟩ := run.inside other listed
      rw [kept other listed other .refl]
      exact ⟨first, ordered, last.trans laid.grows⟩
    · obtain rfl := List.mem_singleton.mp listed
      rw [laid.span]
      exact ⟨run.grows, laid.grows, Nat.le_refl _⟩
  · refine List.pairwise_append.mpr ⟨?_, List.pairwise_singleton _ _, ?_⟩
    · refine run.apart.imp_of_mem ?_
      intro a b left right before
      rwa [kept a left a .refl, kept b right b .refl]
    · intro other listed last same
      obtain rfl := List.mem_singleton.mp same
      rw [kept other listed other .refl, laid.span]
      exact gapped other listed
  · intro other outside
    rw [laid.frame other (outside id (by simp))]
    exact run.frame other fun earlier listed => outside earlier (List.mem_append_left _ listed)
  · intro other listed part below bound
    obtain listed | listed := List.mem_append.mp listed
    · refine (run.placed other listed part below bound).congr (kept other listed part below) ?_
      intro deeper known
      exact kept other listed deeper (below.tail known)
    · obtain rfl := List.mem_singleton.mp listed
      exact laid.placed part below bound

theorem exceeds_node (exceeds : Exceeds start page ids) (laid : p.Laid page next id)
    (disjoint : ∀ other ∈ ids, p.Disjoint other id) : Exceeds start next (ids ++ [id]) := by
  refine ⟨exceeds.1.trans_le laid.grows, ?_⟩
  intro other listed
  obtain listed | listed := List.mem_append.mp listed
  · rw [laid.frame other (disjoint other listed other .refl)]
    exact (exceeds.2 other listed).imp_right fun before => before.trans_le laid.grows
  · obtain rfl := List.mem_singleton.mp listed
    rw [laid.span]
    exact .inl exceeds.1

/-- Pieces with gaps between their nodes are laid out in order, if each of the nodes is. -/
theorem parts {fuel : Nat} {parts : List LayoutPart} {gap : Bool}
    (each : ∀ page id terminated, .node id terminated ∈ parts → id < p.nodes.size →
      page.nodes.map SyntaxNode.form = start.nodes.map SyntaxNode.form →
      p.Laid page (p.layoutPart fuel page (.node id terminated)) id)
    (run : p.Run start page ids) (gapped : gap = true → Gapped page ids)
    (spaced : Spaced gap parts) (disjoint : (ids ++ nodesOf parts).Pairwise p.Disjoint) :
    p.Run start (parts.foldl (p.layoutPart fuel) page) (ids ++ p.existing (nodesOf parts)) ∧
      (Worded parts ∨ Exceeds start page ids →
        Exceeds start (parts.foldl (p.layoutPart fuel) page)
          (ids ++ p.existing (nodesOf parts))) := by
  induction parts generalizing page ids gap with
  | nil =>
    have none : p.existing (nodesOf []) = [] := rfl
    rw [none, List.append_nil]
    refine ⟨run, ?_⟩
    rintro (⟨text, impossible, _⟩ | exceeds)
    · contradiction
    · exact exceeds
  | cons part rest ih =>
    have others : ∀ page id terminated, .node id terminated ∈ rest → id < p.nodes.size →
        page.nodes.map SyntaxNode.form = start.nodes.map SyntaxNode.form →
        p.Laid page (p.layoutPart fuel page (.node id terminated)) id :=
      fun page id terminated listed => each page id terminated (List.mem_cons_of_mem _ listed)
    rw [List.foldl_cons]
    cases part with
    | word text =>
      have later : (gap || text != "") = true → Gapped (page.word text) ids := by
        intro either
        by_cases written : text = ""
        · exact (gapped (by simpa [written] using either)).word text
        · exact run.gapped_word written
      rw [layoutPart_word, nodesOf_word]
      obtain ⟨whole, grown⟩ := ih others (run.word text) later spaced disjoint
      refine ⟨whole, ?_⟩
      rintro (⟨other, listed, written⟩ | exceeds)
      · obtain same | listed := List.mem_cons.mp listed
        · obtain rfl := LayoutPart.word.inj same
          exact grown (.inr (run.exceeds_word written))
        · exact grown (.inl ⟨other, listed, written⟩)
      · exact grown (.inr (exceeds.word text))
    | node id terminated =>
      obtain ⟨gap, spaced⟩ := spaced
      obtain ⟨_, following, apart⟩ := List.pairwise_append.mp disjoint
      have wordless (worded : Worded (.node id terminated :: rest)) : Worded rest := by
        obtain ⟨text, listed, written⟩ := worded
        exact ⟨text, by simpa using listed, written⟩
      by_cases bound : id < p.nodes.size
      · have laid := each page id terminated List.mem_cons_self bound run.forms
        have before (other : SyntaxId) (listed : other ∈ ids) : p.Disjoint other id :=
          apart other listed id (by simp)
        have regrouped (rest : List SyntaxId) : ids ++ id :: rest = ids ++ [id] ++ rest := by simp
        rw [nodesOf_node, regrouped] at disjoint
        obtain ⟨whole, grown⟩ :=
          ih others (run.node (gapped gap) laid before) (by simp) spaced disjoint
        rw [nodesOf_node, existing, List.filter_cons_of_pos (by simpa using bound), regrouped]
        exact ⟨whole, fun grows => grown (grows.imp wordless (exceeds_node · laid before))⟩
      · rw [layoutPart_missing fuel page terminated (Nat.le_of_not_lt bound), nodesOf_node,
          existing, List.filter_cons_of_neg (by simpa using bound)]
        have fewer : (ids ++ nodesOf rest).Pairwise p.Disjoint := by
          refine disjoint.sublist (List.Sublist.append_left ?_ ids)
          exact List.sublist_cons_self _ _
        obtain ⟨whole, grown⟩ := ih others run (fun _ => gapped gap) (spaced_of_false spaced) fewer
        exact ⟨whole, fun grows => grown (grows.imp_left wordless)⟩

end Run

variable (tidy : p.Tidy)
include tidy

/-- When the parts of a node have been laid out as a run, marking the node with the text of the run
lays it out. -/
theorem Tidy.laid_mark {after : Page}
    (forms : page.nodes.map SyntaxNode.form = p.nodes.map SyntaxNode.form)
    (bound : id < p.nodes.size) (run : p.Run page after (p.existing (p.nodes.childrenOf id)))
    (worded : ¬p.IsArgument id → p.nodes.childrenOf id ≠ [] →
      Exceeds page after (p.existing (p.nodes.childrenOf id))) :
    p.Laid page (after.mark id (Span.between page.place after.place)) id := by
  have own : (after.mark id (Span.between page.place after.place)).nodes.spanOf id =
      ⟨page.place, after.place⟩ := by
    have size : after.nodes.size = p.nodes.size := by
      simpa using congrArg Array.size (run.forms.trans forms)
    rw [Page.spanOf_mark_self (size ▸ bound), Span.between, max_eq_right run.grows]
  have other {part : SyntaxId} (known : p.HasPart id part) : part ≠ id := by
    rintro rfl
    exact tidy.acyclic part (.single known)
  have listed {part : SyntaxId} (known : p.HasPart id part) (bound : part < p.nodes.size) :
      part ∈ p.existing (p.nodes.childrenOf id) :=
    List.mem_filter.mpr ⟨known, by simpa using bound⟩
  constructor
  · exact Page.forms_mark.trans run.forms
  · exact run.grows
  · exact own
  · intro part outside
    have different : part ≠ id := by
      rintro rfl
      exact outside .refl
    rw [Page.spanOf_mark_ne different]
    apply run.frame
    intro child listed below
    exact outside (.head (List.mem_of_mem_filter listed) below)
  · intro part below inside
    obtain rfl | ⟨child, known, below⟩ := Relation.ReflTransGen.cases_head below
    · constructor
      · rw [own]
        exact run.grows
      · intro child known inside
        obtain ⟨first, _, last⟩ := run.inside child (listed known inside)
        rw [own, Page.spanOf_mark_ne (other known)]
        simp [Span.contains, first, last]
      · refine run.apart.imp_of_mem ?_
        intro a b left right before
        rwa [Page.spanOf_mark_ne (other (List.mem_of_mem_filter left)),
          Page.spanOf_mark_ne (other (List.mem_of_mem_filter right))]
      · intro plain child known inside
        have exceeds := worded plain (List.ne_nil_of_mem known)
        rw [own, Page.spanOf_mark_ne (other known)]
        have narrower := exceeds.2 child (listed known inside)
        simp only [Span.contains, Bool.and_eq_false_iff, decide_eq_false_iff_not, Nat.not_le]
        exact narrower
    · have strictly {deeper : SyntaxId} (under : p.Below child deeper) : deeper ≠ id := by
        rintro rfl
        exact tidy.acyclic.not_below known under
      refine (run.placed child (listed known (lt_of_below below inside)) part below inside).congr
        ?_ ?_
      · exact Page.spanOf_mark_ne (strictly below)
      · intro deeper known
        exact Page.spanOf_mark_ne (strictly (below.tail known))

/-- A node of a tidy program is laid out, with everything below it. -/
theorem Tidy.laid {fuel bound : Nat} {terminated : Bool}
    (forms : page.nodes.map SyntaxNode.form = p.nodes.map SyntaxNode.form)
    (inside : id < p.nodes.size) (shallow : p.Shallow bound id) (enough : bound < fuel) :
    p.Laid page (p.layoutPart fuel page (.node id terminated)) id := by
  induction fuel generalizing page id bound terminated with
  | zero => exact absurd enough (Nat.not_lt_zero _)
  | succ fuel ih =>
    have found : p.nodes[id]? = some p.nodes[id] := Array.getElem?_eq_getElem inside
    have form : p.formOf id = some p.nodes[id].form := by
      simp [formOf, SyntaxTable.formOf, found]
    have children : p.nodes.childrenOf id = p.nodes[id].form.children := childrenOf_of_formOf form
    rw [layoutPart, form]
    set parts := p.layoutParts id terminated p.nodes[id].form with written
    have nodes : LayoutPart.nodesOf parts = p.nodes.childrenOf id := by
      rw [children]
      exact nodesOf_layoutParts id terminated _
    have each : ∀ start part terminated, .node part terminated ∈ parts → part < p.nodes.size →
        start.nodes.map SyntaxNode.form = page.nodes.map SyntaxNode.form →
        p.Laid start (p.layoutPart fuel start (.node part terminated)) part := by
      intro start part terminated listed inside same
      have known : p.HasPart id part := by
        change part ∈ p.nodes.childrenOf id
        rw [← nodes]
        exact mem_nodesOf listed
      obtain ⟨less, lower, shallow⟩ := shallow.part known
      exact ih (same.trans forms) inside shallow (by omega)
    have disjoint : ([] ++ nodesOf parts).Pairwise p.Disjoint := by
      simpa [nodes] using tidy.pairwise_disjoint_childrenOf id
    obtain ⟨run, exceeds⟩ := (Run.refl page).parts each (by simp [Gapped])
      (spaced_layoutParts id terminated _) disjoint
    rw [List.nil_append, nodes] at run exceeds
    refine tidy.laid_mark forms inside run ?_
    intro plain some
    refine exceeds (.inl (worded_layoutParts id terminated (children ▸ some) ?_))
    intro name passing expression same
    exact plain ⟨name, passing, expression, form.trans (congrArg Option.some same)⟩

end Program

end SemanticTrees
