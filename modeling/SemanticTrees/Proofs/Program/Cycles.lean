import SemanticTrees.Program.Validity
import SemanticTrees.Proofs.Program.Wholes
import Mathlib.Data.List.Chain

/-! The search for cycles, taken turn by turn. A state of the search is what is marked, the way
down from where it started and the nodes that it may still start from; no fuel bounds the turns.
The search of a validity check makes finitely many of them. It ends without a fault exactly when no
node is part of itself, and a fault names a node and one of its wholes that is also below it. -/
namespace SemanticTrees.Program

variable {p : Program} {node child parent id : SyntaxId}

/-- No node is part of itself, neither directly nor through others. -/
def Acyclic (p : Program) : Prop := ∀ node, ¬Relation.TransGen p.HasPart node node

/-- The way down from a node to parts, parts of these and so on ends, whichever way it takes. -/
def Grounded (p : Program) (node : SyntaxId) : Prop :=
  Acc (fun part whole => p.HasPart whole part) node

theorem grounded_of_parts (parts : ∀ part, p.HasPart node part → p.Grounded part) :
    p.Grounded node :=
  Acc.intro node parts

theorem acyclic_of_grounded (grounded : ∀ node, p.Grounded node) : p.Acyclic := by
  intro node cycle
  have down : WellFounded fun part whole => p.HasPart whole part := ⟨grounded⟩
  have turned : Relation.TransGen (fun part whole => p.HasPart whole part) node node :=
    Relation.transGen_swap.mp cycle
  exact down.transGen.asymmetric node node turned turned

namespace CycleSearch

/-- Where a search stands. The nodes on the way down stand with those of their parts that are
still to be looked at, the deepest node first. -/
structure State where
  marks : Array Mark
  path : List (SyntaxId × List SyntaxId)
  waiting : List SyntaxId

def start (p : Program) : State :=
  ⟨Array.replicate p.nodes.size .unseen, [], List.range p.nodes.size⟩

def State.enter (p : Program) (s : State) (node : SyntaxId) : State :=
  { s with
    marks := s.marks.setIfInBounds node .entered
    path := (node, p.nodes.childrenOf node) :: s.path }

/-- One turn of a search: the state behind it, or what the search comes to. -/
def turn (p : Program) : State → State ⊕ Except Fault (Array Mark)
  | ⟨marks, [], []⟩ => .inr (.ok marks)
  | ⟨marks, [], node :: waiting⟩ =>
    .inl (if marks[node]? = some .unseen then State.enter p ⟨marks, [], waiting⟩ node
      else ⟨marks, [], waiting⟩)
  | ⟨marks, (node, []) :: path, waiting⟩ => .inl ⟨marks.setIfInBounds node .done, path, waiting⟩
  | ⟨marks, (node, child :: rest) :: path, waiting⟩ =>
    match marks[child]? with
    | some .unseen => .inl (State.enter p ⟨marks, (node, rest) :: path, waiting⟩ child)
    | some .entered => .inr (.error (.cycle child node))
    | _ => .inl ⟨marks, (node, rest) :: path, waiting⟩

def Turn (p : Program) (s t : State) : Prop := turn p s = .inl t

def Turns (p : Program) : State → State → Prop := Relation.ReflTransGen (Turn p)

/-- After finitely many turns, a search comes to an outcome. -/
def ComesTo (p : Program) (s : State) (outcome : Except Fault (Array Mark)) : Prop :=
  ∃ last, Turns p s last ∧ turn p last = .inr outcome

variable {s t : State} {marks : Array Mark} {path : List (SyntaxId × List SyntaxId)}
  {rest waiting : List SyntaxId} {mark : Mark}

theorem Turns.comesTo {outcome : Except Fault (Array Mark)} (turns : Turns p s t)
    (comes : ComesTo p t outcome) : ComesTo p s outcome := by
  obtain ⟨last, more, ends⟩ := comes
  exact ⟨last, turns.trans more, ends⟩

theorem getElem?_setIfInBounds_iff {value : Mark} :
    (marks.setIfInBounds node mark)[id]? = some value ↔
      (id = node ∧ node < marks.size ∧ mark = value) ∨ (id ≠ node ∧ marks[id]? = some value) := by
  rw [Array.getElem?_setIfInBounds]
  by_cases same : node = id
  · subst same
    by_cases bound : node < marks.size <;> simp [bound]
  · simp [same, Ne.symm same]

/-! ### What every turn keeps -/

/-- A part of a node on the way down is still to be looked at, or was left behind for good. -/
def Treated (p : Program) (rest : List SyntaxId) (part : SyntaxId) : Prop :=
  part ∈ rest ∨ p.Grounded part

/-- A node on the way down and the whole that it was entered from, with what is left of both. -/
def Under (p : Program) (lower upper : SyntaxId × List SyntaxId) : Prop :=
  p.HasPart upper.1 lower.1 ∧
    ∀ part, p.HasPart upper.1 part → part = lower.1 ∨ Treated p upper.2 part

/-- Entered are only nodes on the way down, which leads from wholes to parts; whatever the search
is done with is grounded; and it will come to every node that it has not seen. -/
structure Orderly (p : Program) (s : State) : Prop where
  size : s.marks.size = p.nodes.size
  entered : ∀ id, s.marks[id]? = some .entered → id ∈ s.path.map Prod.fst
  done : ∀ id, s.marks[id]? = some .done → p.Grounded id
  rest : ∀ place ∈ s.path, ∀ part ∈ place.2, p.HasPart place.1 part
  path : s.path.IsChain (Under p)
  waiting : ∀ id, s.marks[id]? = some .unseen → id ∈ s.waiting

/-- Between two turns, every part of the deepest node is dealt with or still to be looked at. -/
structure Coherent (p : Program) (s : State) : Prop extends Orderly p s where
  treated : ∀ place ∈ s.path.head?, ∀ part, p.HasPart place.1 part → Treated p place.2 part

theorem coherent_start (p : Program) : Coherent p (start p) := by
  have unseen (id : SyntaxId) (mark : Mark) (known : (start p).marks[id]? = some mark) :
      id < p.nodes.size ∧ mark = .unseen := by
    rw [start, Array.getElem?_replicate] at known
    split at known
    · next inside => exact ⟨inside, (Option.some.inj known).symm⟩
    · contradiction
  refine ⟨⟨Array.size_replicate, ?_, ?_, ?_, .nil, ?_⟩, ?_⟩
  · intro id known
    cases (unseen id _ known).2
  · intro id known
    cases (unseen id _ known).2
  · simp [start]
  · intro id known
    exact List.mem_range.mpr (unseen id _ known).1
  · simp [start]

/-- Entering a node, from the deepest node on the way down or from the start. -/
theorem Orderly.enter (orderly : Orderly p s)
    (under : ∀ place ∈ s.path.head?, Under p (node, p.nodes.childrenOf node) place) :
    Coherent p (State.enter p s node) := by
  refine ⟨⟨by simpa [State.enter] using orderly.size, ?_, ?_, ?_, ?_, ?_⟩, ?_⟩
  · intro id known
    obtain ⟨rfl, _⟩ | ⟨_, known⟩ := getElem?_setIfInBounds_iff.mp known
    · exact List.mem_cons_self
    · exact List.mem_cons_of_mem _ (orderly.entered id known)
  · intro id known
    obtain ⟨_, _, impossible⟩ | ⟨_, known⟩ := getElem?_setIfInBounds_iff.mp known
    · contradiction
    · exact orderly.done id known
  · intro place listed part left
    obtain rfl | listed := List.mem_cons.mp listed
    · exact left
    · exact orderly.rest place listed part left
  · exact List.isChain_cons.mpr ⟨under, orderly.path⟩
  · intro id known
    obtain ⟨_, _, impossible⟩ | ⟨_, known⟩ := getElem?_setIfInBounds_iff.mp known
    · contradiction
    · exact orderly.waiting id known
  · intro place top part known
    obtain rfl := Option.some.inj top
    exact .inl known

/-- Looking away from a part leaves it alone as not dealt with. -/
theorem Coherent.lookAway (coherent : Coherent p ⟨marks, (node, child :: rest) :: path, waiting⟩) :
    Orderly p ⟨marks, (node, rest) :: path, waiting⟩ ∧ Under p (child, p.nodes.childrenOf child) (node, rest) := by
  have known : p.HasPart node child :=
    coherent.rest _ List.mem_cons_self child List.mem_cons_self
  obtain ⟨below, path⟩ := List.isChain_cons.mp coherent.path
  refine ⟨⟨coherent.size, coherent.entered, coherent.done, ?_, ?_, coherent.waiting⟩, known, ?_⟩
  · intro place listed part left
    obtain rfl | listed := List.mem_cons.mp listed
    · exact coherent.rest _ List.mem_cons_self part (List.mem_cons_of_mem _ left)
    · exact coherent.rest place (List.mem_cons_of_mem _ listed) part left
  · exact List.isChain_cons.mpr ⟨below, path⟩
  · intro part known
    obtain left | grounded := coherent.treated _ rfl part known
    · obtain rfl | left := List.mem_cons.mp left
      · exact .inl rfl
      · exact .inr (.inl left)
    · exact .inr (.inr grounded)

/-- A node all of whose parts are dealt with is done, and grounded. -/
theorem Coherent.leave (coherent : Coherent p ⟨marks, (node, []) :: path, waiting⟩) :
    Coherent p ⟨marks.setIfInBounds node .done, path, waiting⟩ := by
  have grounded : p.Grounded node := by
    apply grounded_of_parts
    intro part known
    exact (coherent.treated _ rfl part known).resolve_left List.not_mem_nil
  obtain ⟨below, path⟩ := List.isChain_cons.mp coherent.path
  refine ⟨⟨by simpa using coherent.size, ?_, ?_, ?_, path, ?_⟩, ?_⟩
  · intro id known
    obtain ⟨_, _, impossible⟩ | ⟨other, known⟩ := getElem?_setIfInBounds_iff.mp known
    · contradiction
    · exact (List.mem_cons.mp (coherent.entered id known)).resolve_left other
  · intro id known
    obtain ⟨rfl, _⟩ | ⟨_, known⟩ := getElem?_setIfInBounds_iff.mp known
    · exact grounded
    · exact coherent.done id known
  · intro place listed
    exact coherent.rest place (List.mem_cons_of_mem _ listed)
  · intro id known
    obtain ⟨_, _, impossible⟩ | ⟨_, known⟩ := getElem?_setIfInBounds_iff.mp known
    · contradiction
    · exact coherent.waiting id known
  · intro place top part known
    obtain rfl | treated := (below place top).2 part known
    · exact .inr grounded
    · exact treated

/-- A part that is done, or no node at all, is grounded. -/
theorem Orderly.grounded_of_marked (orderly : Orderly p s) (seen : s.marks[id]? ≠ some .unseen)
    (left : s.marks[id]? ≠ some .entered) : p.Grounded id := by
  cases known : s.marks[id]? with
  | none =>
    apply grounded_of_parts
    intro part listed
    have outside : p.nodes.size ≤ id := orderly.size ▸ Array.getElem?_eq_none_iff.mp known
    exact absurd listed (not_hasPart_of_size_le outside part)
  | some mark =>
    cases mark with
    | unseen => exact absurd known seen
    | entered => exact absurd known left
    | done => exact orderly.done id known

/-- The search need not come to a node again that it has seen. -/
theorem Coherent.drop (coherent : Coherent p ⟨marks, path, node :: waiting⟩)
    (seen : marks[node]? ≠ some .unseen) : Coherent p ⟨marks, path, waiting⟩ := by
  refine ⟨⟨coherent.size, coherent.entered, coherent.done, coherent.rest, coherent.path, ?_⟩,
    coherent.treated⟩
  intro id known
  apply (List.mem_cons.mp (coherent.waiting id known)).resolve_left
  rintro rfl
  exact seen known

/-- What holds between two turns holds a turn later. -/
theorem Coherent.turn (coherent : Coherent p s) (turn : Turn p s t) : Coherent p t := by
  obtain ⟨marks, path, waiting⟩ := s
  cases path with
  | nil =>
    cases waiting with
    | nil => contradiction
    | cons node waiting =>
      obtain rfl := Sum.inl.inj turn
      split
      · next fresh =>
        have entered : Coherent p (State.enter p ⟨marks, [], node :: waiting⟩ node) :=
          coherent.toOrderly.enter (by simp)
        apply entered.drop
        simp [getElem?_setIfInBounds_iff]
      · next seen => exact coherent.drop seen
  | cons place path =>
    obtain ⟨node, rest⟩ := place
    cases rest with
    | nil =>
      obtain rfl := Sum.inl.inj turn
      exact coherent.leave
    | cons child rest =>
      obtain ⟨orderly, under⟩ := coherent.lookAway
      unfold Turn CycleSearch.turn at turn
      dsimp only at turn
      split at turn
      · obtain rfl := Sum.inl.inj turn
        exact orderly.enter fun place top => Option.some.inj top ▸ under
      · contradiction
      · next seen left =>
        obtain rfl := Sum.inl.inj turn
        refine ⟨orderly, ?_⟩
        intro place top part known
        obtain rfl := Option.some.inj top
        obtain rfl | treated := under.2 part known
        · exact .inr (orderly.grounded_of_marked seen left)
        · exact treated

theorem Coherent.turns (coherent : Coherent p s) (turns : Turns p s t) : Coherent p t := by
  induction turns with
  | refl => exact coherent
  | tail _ turn ih => exact ih.turn turn

/-- The deepest node on the way down is below every node on it. -/
theorem reaches_deepest (chain : ((node, rest) :: path).IsChain (Under p))
    (listed : id ∈ ((node, rest) :: path).map Prod.fst) :
    Relation.ReflTransGen p.HasPart id node := by
  induction path generalizing node rest with
  | nil =>
    obtain rfl := List.mem_singleton.mp listed
    exact .refl
  | cons upper path ih =>
    obtain ⟨under, chain⟩ := List.isChain_cons_cons.mp chain
    obtain rfl | listed := List.mem_cons.mp listed
    · exact .refl
    · exact (ih chain listed).tail under.1

/-- What the outcome of a search says: that the way down ends everywhere, or which node was found
to be below one of its own parts. -/
def Verdict (p : Program) : Except Fault (Array Mark) → Prop
  | .ok _ => ∀ id, p.Grounded id
  | .error fault => ∃ node parent, fault = .cycle node parent ∧ p.HasPart parent node ∧
      Relation.ReflTransGen p.HasPart node parent

theorem Coherent.verdict (coherent : Coherent p s) {outcome : Except Fault (Array Mark)}
    (ends : CycleSearch.turn p s = .inr outcome) : Verdict p outcome := by
  obtain ⟨marks, path, waiting⟩ := s
  cases path with
  | nil =>
    cases waiting with
    | nil =>
      obtain rfl := Sum.inr.inj ends
      intro id
      apply coherent.grounded_of_marked
      · exact fun unseen => List.not_mem_nil (coherent.waiting id unseen)
      · exact fun entered => List.not_mem_nil (coherent.entered id entered)
    | cons node waiting => contradiction
  | cons place path =>
    obtain ⟨node, rest⟩ := place
    cases rest with
    | nil => contradiction
    | cons child rest =>
      unfold CycleSearch.turn at ends
      dsimp only at ends
      split at ends
      · contradiction
      · next entered =>
        obtain rfl := Sum.inr.inj ends
        exact ⟨child, node, rfl, coherent.rest _ List.mem_cons_self child List.mem_cons_self,
          reaches_deepest coherent.path (coherent.entered child entered)⟩
      · contradiction

/-! ### The search of a validity check -/

theorem count_set_lt (fresh : marks[node]? = some .unseen) (other : mark ≠ .unseen) :
    (marks.setIfInBounds node mark).count .unseen < marks.count .unseen := by
  obtain ⟨bound, value⟩ := Array.getElem?_eq_some_iff.mp fresh
  have present : 0 < marks.count .unseen := Array.count_pos_iff.mpr (value ▸ Array.getElem_mem bound)
  rw [Array.setIfInBounds, dif_pos bound, Array.count_set bound, value, if_pos (beq_self_eq_true _),
    if_neg (by simpa using other)]
  omega

theorem count_set_le (other : mark ≠ .unseen) :
    (marks.setIfInBounds node mark).count .unseen ≤ marks.count .unseen := by
  by_cases bound : node < marks.size
  · rw [Array.setIfInBounds, dif_pos bound, Array.count_set bound]
    simp [other]
  · rw [Array.setIfInBounds, dif_neg bound]

/-- No turn forgets a mark. -/
theorem Turn.count_le (turn : Turn p s t) : t.marks.count .unseen ≤ s.marks.count .unseen := by
  obtain ⟨marks, path, waiting⟩ := s
  cases path with
  | nil =>
    cases waiting with
    | nil => contradiction
    | cons node waiting =>
      obtain rfl := Sum.inl.inj turn
      split
      · exact count_set_le (by decide)
      · exact Nat.le_refl _
  | cons place path =>
    obtain ⟨node, rest⟩ := place
    cases rest with
    | nil =>
      obtain rfl := Sum.inl.inj turn
      exact count_set_le (by decide)
    | cons child rest =>
      unfold Turn CycleSearch.turn at turn
      dsimp only at turn
      split at turn
      · obtain rfl := Sum.inl.inj turn
        exact count_set_le (by decide)
      · contradiction
      · obtain rfl := Sum.inl.inj turn
        exact Nat.le_refl _

theorem Turns.count_le (turns : Turns p s t) : t.marks.count .unseen ≤ s.marks.count .unseen := by
  induction turns with
  | refl => exact Nat.le_refl _
  | tail _ turn ih => exact turn.count_le.trans ih

/-- From a state, the turns lead on with the marks that a function gives, or end with its fault. -/
def Leads (p : Program) (s : State) (result : Except Fault (Array Mark))
    (behind : Array Mark → State) : Prop :=
  match result with
  | .ok marks => Turns p s (behind marks)
  | .error fault => ComesTo p s (.error fault)

theorem Turns.leads {result : Except Fault (Array Mark)} {behind : Array Mark → State}
    (turns : Turns p s t) (leads : Leads p t result behind) : Leads p s result behind := by
  cases result with
  | error fault => exact turns.comesTo leads
  | ok marks => exact turns.trans leads

theorem Leads.bind {first : Except Fault (Array Mark)}
    {next : Array Mark → Except Fault (Array Mark)} (between : Array Mark → State)
    {behind : Array Mark → State}
    (leads : Leads p s first between)
    (more : ∀ marks, Turns p s (between marks) → Leads p (between marks) (next marks) behind) :
    Leads p s (first >>= next) behind := by
  cases first with
  | error fault => exact leads
  | ok marks => exact Turns.leads leads (more marks leads)

/-- What the search does with a part of a node. -/
def lookAt (p : Program) (fuel : Nat) (node : SyntaxId) (marks : Array Mark) (child : SyntaxId) :
    Except Fault (Array Mark) :=
  match marks[child]? with
  | some .unseen => p.search fuel marks child
  | some .entered => .error (.cycle child node)
  | _ => .ok marks

theorem search_succ (fuel : Nat) (marks : Array Mark) (node : SyntaxId) :
    p.search (fuel + 1) marks node =
      ((p.nodes.childrenOf node).foldlM (lookAt p fuel node) (marks.setIfInBounds node .entered)
        >>= fun marks => .ok (marks.setIfInBounds node .done)) := by
  change (match (p.nodes.childrenOf node).foldlM (lookAt p fuel node)
    (marks.setIfInBounds node .entered) with
    | .ok marks => _
    | .error fault => _) = _
  cases (p.nodes.childrenOf node).foldlM (lookAt p fuel node) (marks.setIfInBounds node .entered)
  <;> rfl

/-- Looking at a part takes a turn, and the turns below the part if it was not seen. -/
theorem leads_lookAt {fuel : Nat}
    (below : marks[child]? = some .unseen →
      Leads p (State.enter p ⟨marks, (node, rest) :: path, waiting⟩ child)
        (p.search fuel marks child) (⟨·, (node, rest) :: path, waiting⟩)) :
    Leads p ⟨marks, (node, child :: rest) :: path, waiting⟩ (lookAt p fuel node marks child)
      (⟨·, (node, rest) :: path, waiting⟩) := by
  unfold lookAt
  split
  · next fresh =>
    apply Turns.leads (.single _) (below fresh)
    simp only [Turn, turn, fresh]
  · next entered =>
    refine ⟨_, .refl, ?_⟩
    simp only [turn, entered]
  · next seen left =>
    apply Relation.ReflTransGen.single
    unfold Turn turn
    dsimp only
    split <;> first | contradiction | rfl

/-- Looking at all parts that are left takes the turns up to where the node is left. -/
theorem leads_parts {fuel : Nat}
    (below : ∀ marks path child, marks[child]? = some .unseen → marks.count .unseen ≤ fuel →
      Leads p (State.enter p ⟨marks, path, waiting⟩ child) (p.search fuel marks child)
        (⟨·, path, waiting⟩))
    (enough : marks.count .unseen ≤ fuel) :
    Leads p ⟨marks, (node, rest) :: path, waiting⟩ (rest.foldlM (lookAt p fuel node) marks)
      (⟨·, (node, []) :: path, waiting⟩) := by
  induction rest generalizing marks with
  | nil => exact Relation.ReflTransGen.refl
  | cons child rest ih =>
    rw [List.foldlM_cons]
    apply (leads_lookAt fun fresh => below _ _ _ fresh enough).bind
    intro marks turns
    exact ih (turns.count_le.trans enough)

/-- Fuel for every node that was not seen is enough to follow the turns to the end. -/
theorem leads_search {fuel : Nat} (fresh : marks[node]? = some .unseen)
    (enough : marks.count .unseen ≤ fuel) :
    Leads p (State.enter p ⟨marks, path, waiting⟩ node) (p.search fuel marks node)
      (⟨·, path, waiting⟩) := by
  have fewer : (marks.setIfInBounds node .entered).count .unseen < marks.count .unseen :=
    count_set_lt fresh (by decide)
  induction fuel generalizing marks node path with
  | zero => omega
  | succ fuel ih =>
    rw [search_succ]
    have parts : (marks.setIfInBounds node .entered).count .unseen ≤ fuel := by omega
    apply (leads_parts _ parts).bind
    · intro marks _
      exact .single rfl
    · intro marks path child fresh enough
      exact ih fresh enough (count_set_lt fresh (by decide))

/-- The search of a validity check follows the turns from every node that it may start from. -/
theorem leads_waiting (enough : marks.count .unseen ≤ p.nodes.size) :
    Leads p ⟨marks, [], waiting⟩
      (waiting.foldlM (fun marks node =>
        if marks[node]? = some .unseen then p.search (p.nodes.size + 1) marks node
        else .ok marks) marks)
      (⟨·, [], []⟩) := by
  induction waiting generalizing marks with
  | nil => exact Relation.ReflTransGen.refl
  | cons node waiting ih =>
    rw [List.foldlM_cons]
    apply Leads.bind (⟨·, [], waiting⟩)
    · have turn : Turn p ⟨marks, [], node :: waiting⟩ _ := rfl
      apply Turns.leads (.single turn)
      split
      · next fresh => exact leads_search fresh (by omega)
      · exact Relation.ReflTransGen.refl
    · intro marks turns
      exact ih (turns.count_le.trans enough)

/-- The search of a validity check makes finitely many turns and comes to what they come to. -/
theorem comesTo_searchAll (p : Program) : ComesTo p (start p) p.searchAll := by
  have leads : Leads p (start p) p.searchAll (⟨·, [], []⟩) :=
    leads_waiting (Array.count_le_size.trans (by simp))
  cases found : p.searchAll with
  | error fault => rwa [found] at leads
  | ok marks =>
    rw [found] at leads
    exact ⟨_, leads, rfl⟩

end CycleSearch

open CycleSearch in
/-- What the search of a validity check comes to. -/
theorem cycleFault?_cases (p : Program) :
    (p.cycleFault? = none ∧ ∀ id, p.Grounded id) ∨
      ∃ node parent, p.cycleFault? = some (.cycle node parent) ∧ p.HasPart parent node ∧
        Relation.ReflTransGen p.HasPart node parent := by
  obtain ⟨last, turns, ends⟩ := comesTo_searchAll p
  have verdict : Verdict p p.searchAll := ((coherent_start p).turns turns).verdict ends
  unfold cycleFault?
  cases found : p.searchAll with
  | ok marks =>
    rw [found] at verdict
    exact .inl ⟨rfl, verdict⟩
  | error fault =>
    rw [found] at verdict
    obtain ⟨node, parent, rfl, known, below⟩ := verdict
    exact .inr ⟨node, parent, rfl, known, below⟩

/-- The search finds no fault exactly when no node is part of itself. -/
theorem cycleFault?_eq_none_iff : p.cycleFault? = none ↔ p.Acyclic := by
  obtain ⟨found, grounded⟩ | ⟨node, parent, found, known, below⟩ := cycleFault?_cases p
  · exact iff_of_true found (acyclic_of_grounded grounded)
  · refine iff_of_false (by simp [found]) ?_
    intro acyclic
    exact acyclic node (.tail' below known)

end SemanticTrees.Program
