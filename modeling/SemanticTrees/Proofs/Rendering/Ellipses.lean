import SemanticTrees.Proofs.Rendering.Elision

/-! Ellipses. The lines of an outline stand for operations and slots at the ends of paths, and paths
lead through the objects of a structured rendering as well, so that what both renderings leave out
can be compared. An outline leaves out the children of the operations on the last level one by one,
a structured rendering each of their slots, whether there are children in it or not. -/
namespace SemanticTrees

variable {t : OperationTree} {options : RenderOptions} {taint : Array Bool} {i : OperationId}
  {depth k : Nat} {name : String} {slot : Slot} {o : Operation} {path : List SlotPosition}

/-! ### Places of lines -/

/-- What a line of an outline stands for. -/
inductive LineMark
  | operation
  | slot (k : Nat)
  | ellipsis
deriving DecidableEq, Repr

/-- A line of an outline, with the path that leads to its operation, or to the one whose slot it
is. -/
structure PlacedLine where
  path : List SlotPosition
  mark : LineMark
  text : String
deriving DecidableEq, Repr

namespace PlacedLine

/-- The same line, seen from one position above. -/
def below (position : SlotPosition) (line : PlacedLine) : PlacedLine :=
  { line with path := position :: line.path }

/-- Every step down is two levels, and the slots of an operation are one level below it. -/
def level (line : PlacedLine) : Nat :=
  match line.mark with
  | .slot _ => line.path.length * 2 + 1
  | _ => line.path.length * 2

theorem level_below (position : SlotPosition) (line : PlacedLine) :
    (line.below position).level = line.level + 2 := by
  obtain ⟨path, mark, text⟩ := line
  cases mark <;> simp only [level, below, List.length_cons] <;> omega

end PlacedLine

namespace OperationTree

variable (t options taint) in
/-- The lines of an outline with their places, as many levels as are given. -/
def placedLines : Nat → OperationId → List PlacedLine
  | 0, _ => [⟨[], .ellipsis, "..."⟩]
  | depth + 1, i =>
    ⟨[], .operation, t.header options taint i⟩ ::
      match t.get? i with
      | none => []
      | some o => o.kind.slots.zipIdx.flatMap fun ((name, slot), k) =>
          ⟨[], .slot k, slotLine name slot⟩ ::
            slot.children.zipIdx.flatMap fun (child, place) =>
              (placedLines depth child).map (PlacedLine.below ⟨k, place⟩)

theorem foldl_zipIdx {α β : Type} (f : β → α → β) (l : List α) (start : β) :
    l.zipIdx.foldl (fun out entry => f out entry.1) start = l.foldl f start := by
  conv_rhs => rw [← List.zipIdx_map_fst 0 l]
  rw [List.foldl_map]

/-- An outline consists of its placed lines. -/
theorem appendOutline_eq_foldl (level : Nat) (out : String) :
    t.appendOutline options taint depth level out i =
      (t.placedLines options taint depth i).foldl
        (fun out line => appendLine options out (level + line.level) line.text) out := by
  induction depth generalizing level out i with
  | zero => rfl
  | succ depth ih =>
    rw [appendOutline, placedLines, List.foldl_cons]
    cases t.get? i with
    | none => rfl
    | some o =>
      rw [List.foldl_flatMap]
      refine (foldl_zipIdx _ _ _).symm.trans (List.foldl_ext _ _ _ fun out entry _ => ?_)
      obtain ⟨⟨name, slot⟩, k⟩ := entry
      rw [List.foldl_cons, List.foldl_flatMap]
      refine (foldl_zipIdx _ _ _).symm.trans (List.foldl_ext _ _ _ fun out entry _ => ?_)
      obtain ⟨child, place⟩ := entry
      rw [ih, List.foldl_map]
      refine List.foldl_ext _ _ _ fun out line _ => ?_
      rw [PlacedLine.level_below, Nat.add_comm line.level, ← Nat.add_assoc]
      rfl

theorem follow_cons (position : SlotPosition) (path : List SlotPosition) :
    t.follow (position :: path) i = (t.childAt i position).bind (t.follow path) :=
  rfl

/-- The lines behind a step are those of the child there. -/
theorem mem_placedLines_cons {position : SlotPosition} {mark : LineMark} {text : String} :
    ⟨position :: path, mark, text⟩ ∈ t.placedLines options taint (depth + 1) i ↔
      ∃ child, t.childAt i position = some child ∧
        ⟨path, mark, text⟩ ∈ t.placedLines options taint depth child := by
  rw [placedLines]
  cases found : t.get? i with
  | none => simp [childAt, found]
  | some o =>
    simp only [childAt_of_get? found, OperationKind.childAt_eq_some_iff, List.mem_cons,
      List.mem_flatMap, List.mem_map, Prod.exists, List.mk_mem_zipIdx_iff_getElem?,
      PlacedLine.mk.injEq, reduceCtorEq, false_and, false_or]
    constructor
    · rintro ⟨name, slot, k, listed, child, place, held, ⟨path', mark', text'⟩, known, same⟩
      obtain ⟨paths, rfl, rfl⟩ := PlacedLine.mk.inj same
      obtain ⟨rfl, rfl⟩ := List.cons.inj paths
      exact ⟨child, ⟨name, slot, listed, held⟩, known⟩
    · rintro ⟨child, ⟨name, slot, listed, held⟩, known⟩
      exact ⟨name, slot, _, listed, child, _, held, _, known, rfl⟩

/-- The operations that are shown are those on the levels that are given. -/
theorem mem_placedLines_operation {text : String} :
    ⟨path, .operation, text⟩ ∈ t.placedLines options taint depth i ↔
      path.length < depth ∧ ∃ j, t.follow path i = some j ∧ text = t.header options taint j := by
  induction depth generalizing i path with
  | zero => simp [placedLines]
  | succ depth ih =>
    cases path with
    | nil =>
      rw [placedLines]
      cases t.get? i <;> simp [PlacedLine.below, follow]
    | cons position path =>
      rw [mem_placedLines_cons, List.length_cons, Nat.add_lt_add_iff_right, follow_cons]
      simp only [ih, Option.bind_eq_some_iff]
      tauto

/-- Ellipses stand for the operations on the next level. -/
theorem mem_placedLines_ellipsis {text : String} :
    ⟨path, .ellipsis, text⟩ ∈ t.placedLines options taint depth i ↔
      path.length = depth ∧ text = "..." ∧ ∃ j, t.follow path i = some j := by
  induction depth generalizing i path with
  | zero =>
    rw [placedLines, List.mem_singleton, PlacedLine.mk.injEq, List.length_eq_zero_iff]
    refine ⟨?_, ?_⟩
    · rintro ⟨rfl, _, same⟩
      exact ⟨rfl, same, i, rfl⟩
    · rintro ⟨none, same, _⟩
      exact ⟨none, rfl, same⟩
  | succ depth ih =>
    cases path with
    | nil =>
      rw [placedLines]
      cases t.get? i <;> simp [PlacedLine.below]
    | cons position path =>
      rw [mem_placedLines_cons, List.length_cons, Nat.add_right_cancel_iff, follow_cons]
      simp only [ih, Option.bind_eq_some_iff]
      tauto

end OperationTree

/-! ### Places in objects -/

namespace Json.Value

/-- A slot of a rendered operation, with its name. -/
def slotAt? (k : Nat) (object : Value) : Option (Key × Value) :=
  match object.member? "children" with
  | some (.object slots) => slots[k]?
  | _ => none

/-- The child of a rendered operation at a position. -/
def childAt? (object : Value) (position : SlotPosition) : Option Value :=
  match object.slotAt? position.slot with
  | some (_, .array items) => items[position.place]?
  | some (_, child) => if position.place = 0 then some child else none
  | none => none

/-- The rendered operation that a path of positions leads to. -/
def at? (object : Value) (path : List SlotPosition) : Option Value := path.foldlM childAt? object

end Json.Value

namespace OperationTree

open Json

variable (t taint) in
/-- The value of a slot in a structured rendering of its operation with more levels as given. -/
def slotValue : Nat → Slot → Value
  | 0, _ => .string "..."
  | depth + 1, slot => structuredSlot (t.structuredAt taint depth) slot

theorem member?_unlessEmpty {fields inner : List (String × Value)} (some : inner ≠ []) :
    (Value.ofFields (fields ++ unlessEmpty name inner)).member? name =
      Option.some (Value.ofFields inner) := by
  rw [unlessEmpty, if_neg (by simpa using some)]
  simp [Value.ofFields, Value.member?, Key.ofString]

theorem slotAt?_structuredAt (found : t.get? i = some o)
    (listed : o.kind.slots[k]? = some (name, slot)) :
    (t.structuredAt taint depth i).slotAt? k =
      some (Key.ofString name, t.slotValue taint depth slot) := by
  have some : o.kind.slots ≠ [] := by
    intro none
    rw [none] at listed
    contradiction
  rw [structuredAt, found]
  dsimp only
  rw [Value.slotAt?, member?_unlessEmpty (by simpa using some)]
  simp only [Value.ofFields, List.getElem?_map, listed]
  cases depth <;> rfl

/-- Objects are neither null nor lists nor texts. -/
theorem structuredAt_eq_object (t : OperationTree) (taint : Array Bool) (depth : Nat)
    (i : OperationId) :
    ∃ members, t.structuredAt taint depth i = .object members := by
  unfold structuredAt
  split
  · exact ⟨_, rfl⟩
  · exact ⟨_, rfl⟩

theorem childAt?_structuredAt {position : SlotPosition} {child : OperationId}
    (known : t.childAt i position = some child) :
    (t.structuredAt taint (depth + 1) i).childAt? position =
      some (t.structuredAt taint depth child) := by
  obtain ⟨o, found, known⟩ := Option.bind_eq_some_iff.mp known
  obtain ⟨⟨name, slot⟩, listed, held⟩ := OperationKind.childAt_eq_some_iff.mp known
  rw [Value.childAt?, slotAt?_structuredAt found listed]
  cases slot with
  | many children =>
    change (children.map (t.structuredAt taint depth))[position.place]? = _
    rw [List.getElem?_map, show children[position.place]? = some child from held]
    rfl
  | one held' =>
    cases held' with
    | none => simp at held
    | some child' =>
      obtain ⟨first, rfl⟩ : position.place = 0 ∧ child' = child := by
        cases place : position.place <;> simp_all
      obtain ⟨members, object⟩ := structuredAt_eq_object t taint depth child'
      dsimp only [slotValue, structuredSlot]
      rw [object]
      exact if_pos first

/-- Paths lead to the objects of the operations that they lead to. -/
theorem at?_structuredAt {j : OperationId} (leads : t.follow path i = some j) :
    (t.structuredAt taint (path.length + depth) i).at? path =
      some (t.structuredAt taint depth j) := by
  induction path generalizing i with
  | nil =>
    obtain rfl := Option.some.inj leads
    rw [List.length_nil, Nat.zero_add]
    rfl
  | cons position path ih =>
    rw [follow_cons] at leads
    obtain ⟨child, known, leads⟩ := Option.bind_eq_some_iff.mp leads
    rw [List.length_cons, Nat.add_right_comm, Value.at?, List.foldlM_cons,
      childAt?_structuredAt known]
    exact ih leads

/-! ### What is left out -/

section Both

variable (t options taint)

/-- The lines of the outline of a tree with their places. -/
def shownLines : List PlacedLine := t.placedLines options taint Limits.printDepth t.root

theorem outline_eq_foldl : t.outline options taint =
    (t.shownLines options taint).foldl
      (fun out line => appendLine options out line.level line.text) "" := by
  refine (appendOutline_eq_foldl 0 "").trans (List.foldl_ext _ _ _ fun out line _ => ?_)
  rw [Nat.zero_add]

/-- The outline has an ellipsis for a child in a slot of the operation at the end of a path. -/
def Elides (path : List SlotPosition) (k : Nat) : Prop :=
  ∃ place text, ⟨path ++ [⟨k, place⟩], .ellipsis, text⟩ ∈ t.shownLines options taint

end Both

/-- The children that have an ellipsis are those of the operations on the last level. -/
theorem elides_iff (leads : t.follow path t.root = some i) (found : t.get? i = some o)
    (listed : o.kind.slots[k]? = some (name, slot)) : t.Elides options taint path k ↔
      path.length + 1 = Limits.printDepth ∧ slot.children ≠ [] := by
  have child (place : Nat) :
      t.follow (path ++ [⟨k, place⟩]) t.root = slot.children[place]? := by
    rw [Compact.follow_concat, leads, Option.bind_some, childAt_of_get? found,
      OperationKind.childAt, listed]
    rfl
  simp only [Elides, shownLines, mem_placedLines_ellipsis, child, List.length_append,
    List.length_singleton]
  constructor
  · rintro ⟨place, text, last, _, j, held⟩
    exact ⟨last, List.ne_nil_of_mem (List.mem_of_getElem? held)⟩
  · rintro ⟨last, some⟩
    obtain ⟨j, rest, same⟩ := List.exists_cons_of_ne_nil some
    exact ⟨0, _, last, rfl, j, by rw [same]; rfl⟩

variable (taint) in
/-- What a structured rendering has for a slot of an operation that it shows. -/
theorem slot_at?_structured (leads : t.follow path t.root = some i)
    (shown : path.length < Limits.printDepth) (found : t.get? i = some o)
    (listed : o.kind.slots[k]? = some (name, slot)) :
    ∃ object, (t.structured taint).at? path = some object ∧ object.slotAt? k =
      some (Key.ofString name, t.slotValue taint (Limits.printDepth - 1 - path.length) slot) := by
  refine ⟨_, ?_, slotAt?_structuredAt found listed⟩
  have split : Limits.printDepth - 1 = path.length + (Limits.printDepth - 1 - path.length) := by
    omega
  rw [structured, split]
  simpa using at?_structuredAt leads

theorem slotValue_eq_ellipsis_iff : t.slotValue taint depth slot = .string "..." ↔ depth = 0 := by
  cases depth with
  | zero => exact iff_of_true rfl rfl
  | succ depth =>
    refine iff_of_false ?_ (Nat.succ_ne_zero depth)
    cases slot with
    | many children => exact Value.noConfusion
    | one child =>
      cases child with
      | none => exact Value.noConfusion
      | some child =>
        obtain ⟨members, object⟩ := structuredAt_eq_object t taint depth child
        rw [slotValue, structuredSlot, object]
        exact Value.noConfusion

end OperationTree

/-! ### Nested blocks -/

/-- A way down through blocks that each hold the next one, to one that is empty. -/
inductive Store.Nests (s : Store) : Nat → OperationId → Prop
  | here {i : OperationId} {o : Operation} (found : s.get? i = some o) (kind : o.kind = .block []) :
      Nests s 0 i
  | down {n : Nat} {i child : OperationId} {o : Operation} (found : s.get? i = some o)
      (kind : o.kind = .block [child]) (rest : Nests s n child) : Nests s (n + 1) i

namespace Store.Nests

variable {s s' : Store} {n root : Nat} {place : Nat → Nat}

theorem later (nests : s.Nests n i) (grows : s.Extends s') : s'.Nests n i := by
  induction nests with
  | here found kind => exact .here (grows _ _ found) kind
  | down found kind _ ih => exact .down (grows _ _ found) kind ih

theorem lt_size (nests : s.Nests n i) : i < s.size := by
  cases nests with
  | here found => exact (Array.getElem?_eq_some_iff.mp found).1
  | down found => exact (Array.getElem?_eq_some_iff.mp found).1

/-- The path through the blocks leads to the empty one, also when the store is closed. -/
theorem follow (nests : s.Nests n i) (c : s.Compacts root t place) (keeps : s.Keeps root i) :
    ∃ j o, t.follow (List.replicate n ⟨0, 0⟩) (place i) = some j ∧ t.get? j = some o ∧
      o.kind = .block [] := by
  induction nests with
  | @here i o found kind =>
    refine ⟨place i, _, rfl, c.kept i o keeps found, ?_⟩
    rw [Operation.mapChildren, kind]
    rfl
  | @down n i child o found kind rest ih =>
    have member : child ∈ s.childrenOf i := by
      refine mem_childrenOf_iff.mpr ⟨o, found, ?_⟩
      rw [Operation.children, kind]
      exact List.mem_singleton_self child
    obtain ⟨j, o', leads, bottom⟩ := ih (keeps.child member rest.lt_size)
    refine ⟨j, o', ?_, bottom⟩
    rw [List.replicate_succ, OperationTree.follow_cons,
      OperationTree.childAt_of_get? (c.kept i o keeps found), Operation.mapChildren, kind]
    exact leads

end Store.Nests

namespace Program

/-- An empty block, and blocks that each hold the one before them. -/
def nestedBlock : Nat → Form
  | 0 => .block []
  | k + 1 => .block [k]

/-- The nested blocks up to one. -/
def nestedBlocks (n : Nat) : Program :=
  { empty "blocks" with
    nodes := ((List.range (n + 1)).map fun k => ⟨.zero, nestedBlock k⟩).toArray }

variable {n : Nat}

theorem formOf_nestedBlocks (below : k ≤ n) :
    (nestedBlocks n).formOf k = some (nestedBlock k) := by
  have inside : k < n + 1 := Nat.lt_succ_of_le below
  simp [formOf, SyntaxTable.formOf, nestedBlocks, inside]

/-- Nested blocks are lowered to nested blocks. -/
theorem nestedBlocks_nests (options : LoweringOptions) {depth : Nat} (below : k ≤ n)
    (enough : k < depth) (scope : Scope) (s : Store) :
    ((walk (nestedBlocks n) options depth scope .statement k).run s).2.Nests k
      ((walk (nestedBlocks n) options depth scope .statement k).run s).1 := by
  induction k generalizing depth scope s with
  | zero =>
    obtain ⟨depth, rfl⟩ := Nat.exists_eq_add_one_of_ne_zero (Nat.ne_zero_of_lt enough)
    have lowered : walk (nestedBlocks n) options (depth + 1) scope .statement 0 =
        ((nestedBlocks n).contextAt options depth scope).emitPlain (.block []) 0 :=
      congrArg (Context.statementForm _ 0) (formOf_nestedBlocks below)
    rw [lowered]
    exact .here (Lowering.get?_emit s _) rfl
  | succ k ih =>
    obtain ⟨depth, rfl⟩ := Nat.exists_eq_add_one_of_ne_zero (Nat.ne_zero_of_lt enough)
    let c := (nestedBlocks n).contextAt options depth scope
    have lowered : walk (nestedBlocks n) options (depth + 1) scope .statement (k + 1) =
        c.statement k >>= fun child => c.emitPlain (.block [child]) (k + 1) := by
      refine (congrArg (Context.statementForm _ (k + 1)) (formOf_nestedBlocks below)).trans ?_
      change ([k].mapM c.statement >>= fun children => c.emitPlain (.block children) (k + 1)) = _
      simp
    rw [lowered]
    have inner := ih (by omega) (Nat.lt_of_succ_lt_succ enough) scope s
    exact .down (Lowering.get?_emit (c.statement k |>.run s).2 _) rfl
      (inner.later (Store.extends_add _ _))

/-- The tree of nested blocks has the empty one at the end of its path. -/
theorem nestedBlocks_follow (n : Nat) (options : LoweringOptions) (enough : n < options.maxDepth) :
    ∃ t i o, (nestedBlocks n).tree? options n = some t ∧
      t.follow (List.replicate n ⟨0, 0⟩) t.root = some i ∧ t.get? i = some o ∧
      o.kind = .block [] := by
  let c := (nestedBlocks n).rootContext options n
  let run := (c.statement n).run Store.empty
  have nests : run.2.Nests n run.1 :=
    nestedBlocks_nests options (Nat.le_refl n) enough c.scope Store.empty
  have lowered : c.lowerRoot n = some <$> c.statement n := by
    unfold Context.lowerRoot
    rw [show c.formOf n = _ from formOf_nestedBlocks (Nat.le_refl n)]
    cases n <;> rfl
  obtain ⟨place, compacts⟩ := run.2.finish_compacts (nestedBlocks n) run.1
  obtain ⟨i, o, leads, found, kind⟩ := nests.follow compacts (.refl nests.lt_size)
  refine ⟨run.2.finish (nestedBlocks n) run.1, i, o, ?_, ?_, found, kind⟩
  · unfold tree?
    rw [lowered]
    rfl
  · rw [compacts.top]
    exact leads

end Program

/-! ### Both renderings -/

variable (options taint) in
open Json in
/-- An outline, which consists of its placed lines, and a structured rendering show the same
operations, and a slot of one of them is an ellipsis in the structured rendering when the outline
has one for a child in the slot. Apart from that, so are the slots without children on the last
level; above it an absent child is null, and a list without children is empty. -/
theorem OperationTree.ellipses_agree (leads : t.follow path t.root = some i)
    (shown : path.length < Limits.printDepth) (found : t.get? i = some o)
    (listed : o.kind.slots[k]? = some (name, slot)) :
    t.outline options taint = (t.shownLines options taint).foldl
        (fun out line => appendLine options out line.level line.text) "" ∧
      ⟨path, .operation, t.header options taint i⟩ ∈ t.shownLines options taint ∧
      ∃ object value, (t.structured taint).at? path = some object ∧
        object.slotAt? k = some (Key.ofString name, value) ∧
        (value = .string "..." ↔ t.Elides options taint path k ∨
          path.length + 1 = Limits.printDepth ∧ slot.children = []) ∧
        (path.length + 1 < Limits.printDepth →
          (slot = .one none → value = .null) ∧ (slot = .many [] → value = .array [])) := by
  obtain ⟨object, known, value⟩ := slot_at?_structured taint leads shown found listed
  refine ⟨t.outline_eq_foldl options taint,
    mem_placedLines_operation.mpr ⟨shown, i, leads, rfl⟩, object, _, known, value, ?_, ?_⟩
  · rw [slotValue_eq_ellipsis_iff, elides_iff leads found listed]
    have last : Limits.printDepth - 1 - path.length = 0 ↔
        path.length + 1 = Limits.printDepth := by omega
    tauto
  · intro inner
    obtain ⟨depth, levels⟩ :=
      Nat.exists_eq_add_one_of_ne_zero (n := Limits.printDepth - 1 - path.length) (by omega)
    rw [levels]
    refine ⟨?_, ?_⟩
    · rintro rfl
      rfl
    · rintro rfl
      rfl

namespace Program

theorem nestedBlocks_ellipses_agree :
    ∃ t i object value, (nestedBlocks 1).tree? {} 1 = some t ∧
      t.follow [⟨0, 0⟩] t.root = some i ∧
      (t.structured t.structuralTaint).at? [⟨0, 0⟩] = some object ∧
      object.slotAt? 0 = some (Json.Key.ofString "Statements", value) ∧ value = .array [] := by
  obtain ⟨t, i, o, built, leads, found, kind⟩ :=
    nestedBlocks_follow 1 {} (by decide)
  have listed : o.kind.slots[0]? = some ("Statements", .many []) := by
    rw [kind]
    rfl
  obtain ⟨_, _, object, value, known, slot, _, inner⟩ := OperationTree.ellipses_agree
    {} t.structuralTaint leads (by decide) found listed
  exact ⟨t, i, object, value, built, leads, known, slot, (inner (by decide)).2 rfl⟩

/-- The tree of nested blocks that reach the last level of renderings. The innermost one is empty:
its outline has no ellipsis, and the structured rendering has one for its list of statements. -/
theorem nestedBlocks_disagree :
    ∃ t i o object, (nestedBlocks 999).tree? { maxDepth := 1000 } 999 = some t ∧
      t.follow (List.replicate 999 ⟨0, 0⟩) t.root = some i ∧ t.get? i = some o ∧
      o.kind = .block [] ∧
      (∀ options, ¬t.Elides options t.structuralTaint (List.replicate 999 ⟨0, 0⟩) 0) ∧
      (t.structured t.structuralTaint).at? (List.replicate 999 ⟨0, 0⟩) = some object ∧
      object.slotAt? 0 = some (Json.Key.ofString "Statements", .string "...") := by
  obtain ⟨t, i, o, built, leads, found, kind⟩ :=
    nestedBlocks_follow 999 { maxDepth := 1000 } (by decide)
  have listed : o.kind.slots[0]? = some ("Statements", .many []) := by
    rw [kind]
    rfl
  obtain ⟨object, known, value⟩ := OperationTree.slot_at?_structured t.structuralTaint
    leads (by rw [List.length_replicate]; decide) found listed
  refine ⟨t, i, o, object, built, leads, found, kind, ?_, known, ?_⟩
  · intro options elides
    exact ((OperationTree.elides_iff leads found listed).mp elides).2 rfl
  · rw [value, List.length_replicate]
    rfl

end Program

end SemanticTrees
