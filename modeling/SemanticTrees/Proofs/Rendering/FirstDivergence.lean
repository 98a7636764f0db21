import SemanticTrees.Proofs.Lowering.Tree
import SemanticTrees.Proofs.Rendering.Congruence
import Std.Data.String.ToNat

/-! First divergences. A walk over a tree stops at an operation, then at each of its slots with the
children of the slot behind it. A comparison reports the first stop at which the walks over two
trees see something else, by the path that leads there, and it reports the same stop when the trees
are compared the other way round. -/
namespace SemanticTrees

variable {t t' : OperationTree} {i i' : OperationId}

/-! ### Walks -/

/-- What is seen at one stop of a walk: the line of an operation, or what a slot holds. -/
inductive Sight
  | line (text : String)
  | absent
  | present
  | list (length : Nat)
deriving DecidableEq, Repr

/-- A stop of a walk, with the steps that lead to it. -/
structure Stop where
  path : List String
  sight : Sight
deriving DecidableEq, Repr

/-- The same stop, seen from one slot above. -/
def Stop.below (step : String) (stop : Stop) : Stop := { stop with path := step :: stop.path }

/-- The same divergence, seen by the other tree. -/
def Divergence.swap (d : Divergence) : Divergence := ⟨d.path, d.actual, d.expected⟩

namespace Slot

def sight : Slot → Sight
  | .one none => .absent
  | .one (some _) => .present
  | .many children => .list children.length

/-- The children of a list with the steps that lead to them, counted from the given place. -/
def placed (name : String) (place : Nat) (children : List OperationId) :
    List (String × OperationId) :=
  (children.zipIdx place).map fun (child, place) => (s!"{name}[{place}]", child)

/-- The children of a slot with the steps that lead to them. -/
def steps (name : String) : Slot → List (String × OperationId)
  | .one child => child.toList.map (name, ·)
  | .many children => placed name 0 children

theorem mem_children_of_steps {name step : String} {slot : Slot} {child : OperationId}
    (led : (step, child) ∈ slot.steps name) : child ∈ slot.children := by
  cases slot with
  | one held =>
    obtain ⟨_, listed, same⟩ := List.mem_map.mp led
    exact (Prod.mk.inj same).2 ▸ listed
  | many held =>
    obtain ⟨⟨_, place⟩, listed, same⟩ := List.mem_map.mp led
    obtain ⟨_, rfl⟩ := Prod.mk.inj same
    exact (List.mem_zipIdx listed).2.2 ▸ List.getElem_mem _

/-- The stops behind steps. -/
def stopsAlong (walk : OperationId → List Stop) (steps : List (String × OperationId)) : List Stop :=
  steps.flatMap fun (step, child) => (walk child).map (Stop.below step)

/-- The stops of a slot, itself first. -/
def stops (walk : OperationId → List Stop) (name : String) (slot : Slot) : List Stop :=
  ⟨[name], slot.sight⟩ :: stopsAlong walk (slot.steps name)

end Slot

namespace OperationTree

/-- The line of an operation as comparisons have it. -/
def line (t : OperationTree) (i : OperationId) : String :=
  t.header RenderOptions.structural t.structuralTaint i

/-- The stops of a walk from an operation. The fuel bounds the depth. -/
def walkAt (t : OperationTree) : Nat → OperationId → List Stop
  | 0, _ => []
  | fuel + 1, i =>
    ⟨[], .line (t.line i)⟩ ::
      match t.get? i with
      | none => []
      | some o => o.kind.slots.flatMap fun (name, slot) => slot.stops (t.walkAt fuel) name

theorem walkAt_succ {o : Operation} {fuel : Nat} (found : t.get? i = some o) :
    t.walkAt (fuel + 1) i = ⟨[], .line (t.line i)⟩ ::
      o.kind.slots.flatMap fun (name, slot) => slot.stops (t.walkAt fuel) name := by
  rw [walkAt, found]

/-- The stops of a walk from an operation: itself, then each of its slots with the walks from the
children in it, in order. -/
def walk (t : OperationTree) (i : OperationId) : List Stop := t.walkAt (t.size + 1) i

/-- The steps of a path lead from an operation to a stop, and a text describes what is seen there:
the line of the operation, or of the child in a slot, or the length of a list. -/
inductive Describes (t : OperationTree) : OperationId → List String → Sight → String → Prop
  | line (i : OperationId) : Describes t i [] (.line (t.line i)) (t.line i)
  | absent {i : OperationId} {o : Operation} {name : String} (found : t.get? i = some o)
      (listed : (name, .one none) ∈ o.kind.slots) : Describes t i [name] .absent "none"
  | present {i child : OperationId} {o : Operation} {name : String} (found : t.get? i = some o)
      (listed : (name, .one (some child)) ∈ o.kind.slots) :
      Describes t i [name] .present (t.line child)
  | list {i : OperationId} {o : Operation} {name : String} {children : List OperationId}
      (found : t.get? i = some o) (listed : (name, .many children) ∈ o.kind.slots) :
      Describes t i [name] (.list children.length) s!"{name}({children.length})"
  | deeper {i child : OperationId} {o : Operation} {name step text : String} {slot : Slot}
      {path : List String} {sight : Sight} (found : t.get? i = some o)
      (listed : (name, slot) ∈ o.kind.slots) (led : (step, child) ∈ slot.steps name)
      (inner : Describes t child path sight text) : Describes t i (step :: path) sight text

end OperationTree

/-- Two sights of one kind that differ: two lines, a child and none, or lists of two lengths. -/
inductive Sight.Differs : Sight → Sight → Prop
  | lines {text text' : String} (differ : text ≠ text') : Differs (.line text) (.line text')
  | appears : Differs .absent .present
  | vanishes : Differs .present .absent
  | lengths {length length' : Nat} (differ : length ≠ length') :
      Differs (.list length) (.list length')

/-- Two walks are equal up to a stop, where different things are seen. -/
def PartAt (walk walk' : List Stop) (path : List String) (sight sight' : Sight) : Prop :=
  ∃ before after after', walk = before ++ ⟨path, sight⟩ :: after ∧
    walk' = before ++ ⟨path, sight'⟩ :: after' ∧ sight.Differs sight'

namespace PartAt

variable {walk walk' : List Stop} {path : List String} {sight sight' : Sight}

theorem append (before after after' : List Stop) (part : PartAt walk walk' path sight sight') :
    PartAt (before ++ walk ++ after) (before ++ walk' ++ after') path sight sight' := by
  obtain ⟨same, rest, rest', rfl, rfl, differs⟩ := part
  exact ⟨before ++ same, rest ++ after, rest' ++ after', by simp, by simp, differs⟩

theorem below (step : String) (part : PartAt walk walk' path sight sight') :
    PartAt (walk.map (Stop.below step)) (walk'.map (Stop.below step)) (step :: path)
      sight sight' := by
  obtain ⟨same, rest, rest', rfl, rfl, differs⟩ := part
  exact ⟨same.map (Stop.below step), rest.map (Stop.below step), rest'.map (Stop.below step),
    by simp [Stop.below], by simp [Stop.below], differs⟩

end PartAt

/-! ### Answers -/

/-- What is said of stops. -/
abbrev Telling := List String → Sight → String → Prop

/-- What a comparison answers for two walks: nothing if they are equal, and otherwise where they
part, with what is told of the stop on both sides. -/
def Answers (tells tells' : Telling) (walk walk' : List Stop) : Option Divergence → Prop
  | none => walk = walk'
  | some d => d.expected ≠ d.actual ∧ ∃ sight sight', PartAt walk walk' d.path sight sight' ∧
      tells d.path sight d.expected ∧ tells' d.path sight' d.actual

namespace Answers

variable {tells tells' tells₁ tells₁' : Telling} {walk walk' rest rest' : List Stop}
  {answer answer' : Option Divergence}

theorem cons (stop : Stop) (answers : Answers tells tells' walk walk' answer) :
    Answers tells tells' (stop :: walk) (stop :: walk') answer := by
  cases answer with
  | none => exact congrArg (stop :: ·) answers
  | some d =>
    obtain ⟨differ, sight, sight', part, told, told'⟩ := answers
    refine ⟨differ, sight, sight', ?_, told, told'⟩
    simpa using part.append [stop] [] []

/-- Walks one after the other: what is answered for the first ones comes first. -/
theorem append (answers : Answers tells tells' walk walk' answer)
    (others : Answers tells tells' rest rest' answer') :
    Answers tells tells' (walk ++ rest) (walk' ++ rest') (answer.or answer') := by
  cases answer with
  | some d =>
    obtain ⟨differ, sight, sight', part, told, told'⟩ := answers
    exact ⟨differ, sight, sight', part.append [] rest rest', told, told'⟩
  | none =>
    obtain rfl : walk = walk' := answers
    cases answer' with
    | none => exact congrArg (walk ++ ·) others
    | some d =>
      obtain ⟨differ, sight, sight', part, told, told'⟩ := others
      refine ⟨differ, sight, sight', ?_, told, told'⟩
      simpa using part.append walk [] []

/-- Walks from the children at one step. -/
theorem below (step : String)
    (led : ∀ {path sight text}, tells₁ path sight text → tells (step :: path) sight text)
    (led' : ∀ {path sight text}, tells₁' path sight text → tells' (step :: path) sight text)
    (answers : Answers tells₁ tells₁' walk walk' answer) :
    Answers tells tells' (walk.map (Stop.below step)) (walk'.map (Stop.below step))
      (answer.map (Divergence.below step)) := by
  cases answer with
  | none => exact congrArg (List.map (Stop.below step)) answers
  | some d =>
    obtain ⟨differ, sight, sight', part, told, told'⟩ := answers
    exact ⟨differ, sight, sight', part.below step, led told, led' told'⟩

/-- Walks that part at their first stop. -/
theorem here {path : List String} {sight sight' : Sight} {expected actual : String}
    (differ : expected ≠ actual) (differs : sight.Differs sight') (told : tells path sight expected)
    (told' : tells' path sight' actual) :
    Answers tells tells' (⟨path, sight⟩ :: rest) (⟨path, sight'⟩ :: rest')
      (some ⟨path, expected, actual⟩) :=
  ⟨differ, sight, sight', ⟨[], rest, rest', rfl, rfl, differs⟩, told, told'⟩

end Answers

/-! ### Texts of reports -/

/-- No operation has the line that stands for an absent child. -/
theorem Operation.header_ne_none (o : Operation) (p : Program) (isInvalid : Bool) :
    o.header p RenderOptions.structural isInvalid ≠ "none" := by
  have capital : ∀ s ∈ Signature.catalogue, s.name.toList.head?.any (· != 'n') = true := by
    decide +kernel
  obtain ⟨c, first, other⟩ := (Option.any_eq_true _ _).mp (capital _ (p.signature_mem o.kind))
  intro same
  have chars := congrArg String.toList same
  rw [toList_header] at chars
  have front : (o.kind.name.toList ++ grouped (o.groups p isInvalid)).head? = some c := by
    rw [List.head?_append, show o.kind.name.toList.head? = some c from first]
    rfl
  rw [chars] at front
  exact bne_iff_ne.mp other (Option.some.inj front).symm

theorem OperationTree.line_ne_none (inside : i < t.size) : t.line i ≠ "none" := by
  have found : t.get? i = some t.operations[i] := Array.getElem?_eq_getElem inside
  rw [line, header, found]
  exact Operation.header_ne_none _ _ _

theorem lengthText_inj {name : String} {n m : Nat} (same : s!"{name}({n})" = s!"{name}({m})") :
    n = m := by
  refine Nat.repr_inj.mp ?_
  simpa [toString, String.append_left_inj, String.append_right_inj] using same

namespace Comparison

/-! ### Comparisons and walks -/

theorem divergenceAt_of_ne {fuel : Nat} (different : t.line i ≠ t'.line i') :
    (Comparison.of t t').divergenceAt (fuel + 1) i i' = some ⟨[], t.line i, t'.line i'⟩ :=
  if_pos different

theorem divergenceAt_of_eq {o o' : Operation} {fuel : Nat} (found : t.get? i = some o)
    (found' : t'.get? i' = some o') (same : t.line i = t'.line i') :
    (Comparison.of t t').divergenceAt (fuel + 1) i i' = (Comparison.of t t').slotsDivergence
      ((Comparison.of t t').divergenceAt fuel) o.kind.slots o'.kind.slots := by
  refine (if_neg (not_not.mpr same)).trans ?_
  rw [show (Comparison.of t t').expected.get? i = some o from found,
    show (Comparison.of t t').actual.get? i' = some o' from found']

section Steps

variable {tells tells' : Telling} {walk walk' : OperationId → List Stop}
  {compare : OperationId → OperationId → Option Divergence}

/-- The children of two lists of one length. -/
theorem listDivergence_answers (name : String) {es as : List OperationId} (place : Nat)
    (length : es.length = as.length)
    (each : ∀ step e a, (step, e) ∈ Slot.placed name place es →
      (step, a) ∈ Slot.placed name place as →
      Answers tells tells' ((walk e).map (Stop.below step)) ((walk' a).map (Stop.below step))
        ((compare e a).map (Divergence.below step))) :
    Answers tells tells' (Slot.stopsAlong walk (Slot.placed name place es))
      (Slot.stopsAlong walk' (Slot.placed name place as))
      (listDivergence compare name place es as) := by
  induction es generalizing as place with
  | nil =>
    obtain rfl := List.length_eq_zero_iff.mp length.symm
    exact rfl
  | cons e es ih =>
    cases as with
    | nil => contradiction
    | cons a as =>
      have first := each _ e a List.mem_cons_self List.mem_cons_self
      refine first.append (ih (place + 1) (Nat.succ.inj length) fun step e a listed listed' => ?_)
      exact each step e a (List.mem_cons_of_mem _ listed) (List.mem_cons_of_mem _ listed')

end Steps

section Trees

variable {o o' : Operation} {walk walk' : OperationId → List Stop}
  {compare : OperationId → OperationId → Option Divergence} {name : String} {e a : Slot}

/-- The answer for children is one for the operations that hold them, behind the step. -/
theorem below_answers {step : String} {j j' : OperationId} (found : t.get? i = some o)
    (found' : t'.get? i' = some o') (listed : (name, e) ∈ o.kind.slots)
    (listed' : (name, a) ∈ o'.kind.slots) (led : (step, j) ∈ e.steps name)
    (led' : (step, j') ∈ a.steps name)
    (answers : Answers (t.Describes j) (t'.Describes j') (walk j) (walk' j') (compare j j')) :
    Answers (t.Describes i) (t'.Describes i') ((walk j).map (Stop.below step))
      ((walk' j').map (Stop.below step)) ((compare j j').map (Divergence.below step)) :=
  answers.below step (fun told => .deeper found listed led told)
    (fun told => .deeper found' listed' led' told)

/-- The answer for one slot. A child of one side only, and lists of different lengths, are told
before any child is looked at. -/
theorem slotDivergence_answers (compact : t.Compact) (compact' : t'.Compact)
    (found : t.get? i = some o) (found' : t'.get? i' = some o') (listed : (name, e) ∈ o.kind.slots)
    (listed' : (name, a) ∈ o'.kind.slots) (shape : e.shape = a.shape)
    (each : ∀ j ∈ e.children, ∀ j' ∈ a.children,
      Answers (t.Describes j) (t'.Describes j') (walk j) (walk' j') (compare j j')) :
    Answers (t.Describes i) (t'.Describes i') (e.stops walk name) (a.stops walk' name)
      ((Comparison.of t t').slotDivergence compare name e a) := by
  have inside {j : OperationId} (held : j ∈ e.children) : j < t.size :=
    compact.child_lt_size (OperationTree.isChild_of_slot found listed held)
  have inside' {j : OperationId} (held : j ∈ a.children) : j < t'.size :=
    compact'.child_lt_size (OperationTree.isChild_of_slot found' listed' held)
  cases e with
  | one child =>
    cases a with
    | many => contradiction
    | one child' =>
      cases child with
      | none =>
        cases child' with
        | none => exact rfl
        | some j' =>
          exact .here (OperationTree.line_ne_none (inside' List.mem_cons_self)).symm .appears
            (.absent found listed) (.present found' listed')
      | some j =>
        cases child' with
        | none =>
          exact .here (OperationTree.line_ne_none (inside List.mem_cons_self)) .vanishes
            (.present found listed) (.absent found' listed')
        | some j' =>
          have below := below_answers found found' listed listed' List.mem_cons_self
            List.mem_cons_self (each j List.mem_cons_self j' List.mem_cons_self)
          simpa [Slot.stops, Slot.stopsAlong, Slot.steps, slotDivergence, Slot.sight]
            using below.cons ⟨[name], .present⟩
  | many children =>
    cases a with
    | one => contradiction
    | many children' =>
      by_cases length : children.length = children'.length
      · rw [slotDivergence, if_pos length, Slot.stops, Slot.stops, Slot.sight, Slot.sight, length]
        refine (listDivergence_answers name 0 length fun step j j' led led' => ?_).cons _
        have held : j ∈ (Slot.many children).children := Slot.mem_children_of_steps led
        have held' : j' ∈ (Slot.many children').children := Slot.mem_children_of_steps led'
        exact below_answers found found' listed listed' led led' (each j held j' held')
      · rw [slotDivergence, if_neg length]
        exact .here (fun same => length (lengthText_inj same)) (.lengths length)
          (.list found listed) (.list found' listed')

/-- The answers for slots, one after the other. -/
theorem slotsDivergence_answers {tells tells' : Telling} (c : Comparison)
    {slots slots' : List (String × Slot)}
    (alike : List.Forall₂ (fun entry entry' : String × Slot => entry.1 = entry'.1 ∧
      Answers tells tells' (entry.2.stops walk entry.1) (entry'.2.stops walk' entry.1)
        (c.slotDivergence compare entry.1 entry.2 entry'.2)) slots slots') :
    Answers tells tells' (slots.flatMap fun (name, slot) => slot.stops walk name)
      (slots'.flatMap fun (name, slot) => slot.stops walk' name)
      (c.slotsDivergence compare slots slots') := by
  induction alike with
  | nil => exact rfl
  | @cons entry entry' rest rest' first _ ih =>
    obtain ⟨name, slot⟩ := entry
    obtain ⟨name', slot'⟩ := entry'
    obtain ⟨rfl, answers⟩ := first
    exact answers.append ih

/-- Comparing two operations answers for the walks from them. -/
theorem divergenceAt_answers (compact : t.Compact) (compact' : t'.Compact) {fuel fuel' : Nat}
    (inside : i < t.size) (inside' : i' < t'.size) (enough : i < fuel) (enough' : i' < fuel') :
    Answers (t.Describes i) (t'.Describes i') (t.walkAt fuel i) (t'.walkAt fuel' i')
      ((Comparison.of t t').divergenceAt fuel i i') := by
  induction fuel generalizing fuel' i i' with
  | zero => contradiction
  | succ fuel ih =>
    obtain ⟨fuel', rfl⟩ := Nat.exists_eq_add_one_of_ne_zero (Nat.ne_zero_of_lt enough')
    have found : t.get? i = some t.operations[i] := Array.getElem?_eq_getElem inside
    have found' : t'.get? i' = some t'.operations[i'] := Array.getElem?_eq_getElem inside'
    rw [OperationTree.walkAt_succ found, OperationTree.walkAt_succ found']
    by_cases same : t.line i = t'.line i'
    · rw [divergenceAt_of_eq found found' same, same]
      refine (slotsDivergence_answers _ ?_).cons _
      have names := SameLine.name_eq same found found'
      refine (forall₂_mem (OperationKind.slots_of_name names)).imp ?_
      rintro ⟨name, slot⟩ ⟨name', slot'⟩ ⟨listed, listed', rfl, shape⟩
      refine ⟨rfl, slotDivergence_answers compact compact' found found' listed listed' shape ?_⟩
      intro j held j' held'
      have child := OperationTree.isChild_of_slot found listed held
      have child' := OperationTree.isChild_of_slot found' listed' held'
      exact ih (compact.child_lt_size child) (compact'.child_lt_size child')
        (Nat.lt_of_lt_of_le (compact.before i j child) (Nat.le_of_lt_succ enough))
        (Nat.lt_of_lt_of_le (compact'.before i' j' child') (Nat.le_of_lt_succ enough'))
    · rw [divergenceAt_of_ne same]
      exact .here same (.lines same) (.line i) (.line i')

end Trees

/-! ### The other way round -/

section Swap

variable {compare compare' : OperationId → OperationId → Option Divergence}

theorem map_below_swap (step : String) (answer : Option Divergence) :
    (answer.map Divergence.swap).map (Divergence.below step) =
      (answer.map (Divergence.below step)).map Divergence.swap := by
  cases answer <;> rfl

theorem listDivergence_swap (name : String) {es as : List OperationId} (place : Nat)
    (each : ∀ e ∈ es, ∀ a ∈ as, compare' a e = (compare e a).map Divergence.swap) :
    listDivergence compare' name place as es =
      (listDivergence compare name place es as).map Divergence.swap := by
  induction es generalizing as place with
  | nil => cases as <;> rfl
  | cons e es ih =>
    cases as with
    | nil => rfl
    | cons a as =>
      rw [listDivergence, listDivergence, each e List.mem_cons_self a List.mem_cons_self,
        map_below_swap, Option.map_or, ih (place + 1) fun e listed a listed' =>
          each e (List.mem_cons_of_mem _ listed) a (List.mem_cons_of_mem _ listed')]

theorem slotDivergence_swap (name : String) {e a : Slot}
    (each : ∀ j ∈ e.children, ∀ j' ∈ a.children,
      compare' j' j = (compare j j').map Divergence.swap) :
    (Comparison.of t' t).slotDivergence compare' name a e =
      ((Comparison.of t t').slotDivergence compare name e a).map Divergence.swap := by
  cases e with
  | one child =>
    cases a with
    | many => cases child <;> rfl
    | one child' =>
      cases child with
      | none => cases child' <;> rfl
      | some j =>
        cases child' with
        | none => rfl
        | some j' =>
          rw [slotDivergence, slotDivergence, ← map_below_swap]
          exact congrArg _ (each j List.mem_cons_self j' List.mem_cons_self)
  | many children =>
    cases a with
    | one child' => cases child' <;> rfl
    | many children' =>
      by_cases length : children.length = children'.length
      · rw [slotDivergence, slotDivergence, if_pos length, if_pos length.symm]
        exact listDivergence_swap name 0 each
      · rw [slotDivergence, slotDivergence, if_neg length, if_neg (Ne.symm length)]
        rfl

theorem slotsDivergence_swap {slots slots' : List (String × Slot)}
    (alike : List.Forall₂ (fun entry entry' : String × Slot => entry.1 = entry'.1 ∧
      ∀ j ∈ entry.2.children, ∀ j' ∈ entry'.2.children,
        compare' j' j = (compare j j').map Divergence.swap) slots slots') :
    (Comparison.of t' t).slotsDivergence compare' slots' slots =
      ((Comparison.of t t').slotsDivergence compare slots slots').map Divergence.swap := by
  induction alike with
  | nil => rfl
  | @cons entry entry' rest rest' first _ ih =>
    obtain ⟨name, slot⟩ := entry
    obtain ⟨name', slot'⟩ := entry'
    obtain ⟨rfl, each⟩ := first
    rw [slotsDivergence, slotsDivergence, slotDivergence_swap name each, ih, Option.map_or]

/-- A comparison the other way round diverges at the same place. -/
theorem divergenceAt_swap (compact : t.Compact) (compact' : t'.Compact) {fuel fuel' : Nat}
    (inside : i < t.size) (inside' : i' < t'.size) (enough : i < fuel) (enough' : i' < fuel') :
    (Comparison.of t' t).divergenceAt fuel' i' i =
      ((Comparison.of t t').divergenceAt fuel i i').map Divergence.swap := by
  induction fuel generalizing fuel' i i' with
  | zero => contradiction
  | succ fuel ih =>
    obtain ⟨fuel', rfl⟩ := Nat.exists_eq_add_one_of_ne_zero (Nat.ne_zero_of_lt enough')
    have found : t.get? i = some t.operations[i] := Array.getElem?_eq_getElem inside
    have found' : t'.get? i' = some t'.operations[i'] := Array.getElem?_eq_getElem inside'
    by_cases same : t.line i = t'.line i'
    · rw [divergenceAt_of_eq found found' same, divergenceAt_of_eq found' found same.symm]
      have names := SameLine.name_eq same found found'
      refine slotsDivergence_swap ((forall₂_mem (OperationKind.slots_of_name names)).imp ?_)
      rintro ⟨name, slot⟩ ⟨name', slot'⟩ ⟨listed, listed', rfl, _⟩
      refine ⟨rfl, fun j held j' held' => ?_⟩
      have child := OperationTree.isChild_of_slot found listed held
      have child' := OperationTree.isChild_of_slot found' listed' held'
      exact ih (compact.child_lt_size child) (compact'.child_lt_size child')
        (Nat.lt_of_lt_of_le (compact.before i j child) (Nat.le_of_lt_succ enough))
        (Nat.lt_of_lt_of_le (compact'.before i' j' child') (Nat.le_of_lt_succ enough'))
    · rw [divergenceAt_of_ne same, divergenceAt_of_ne (Ne.symm same)]
      rfl

end Swap

section Whole

variable (compact : t.Compact) (compact' : t'.Compact) (inside : i < t.size)
  (inside' : i' < t'.size)
include compact compact' inside inside'

theorem divergence_answers {d : Divergence}
    (found : (Comparison.of t t').divergence i i' = some d) :
    ∃ path sight sight', d.path = (Comparison.of t t').rootName i :: path ∧
      d.expected ≠ d.actual ∧ PartAt (t.walk i) (t'.walk i') path sight sight' ∧
      t.Describes i path sight d.expected ∧ t'.Describes i' path sight' d.actual ∧
      (Comparison.of t' t).divergence i' i =
        some ⟨(Comparison.of t' t).rootName i' :: path, d.actual, d.expected⟩ := by
  have answers := divergenceAt_answers compact compact' inside inside' (Nat.lt_succ_of_lt inside)
    (Nat.lt_succ_of_lt inside')
  have swap := divergenceAt_swap compact compact' inside inside' (Nat.lt_succ_of_lt inside)
    (Nat.lt_succ_of_lt inside')
  obtain ⟨inner, answer, rfl⟩ := Option.map_eq_some_iff.mp found
  rw [show (Comparison.of t t').divergenceAt (t.size + 1) i i' = some inner from answer]
    at answers swap
  obtain ⟨differ, sight, sight', part, told, told'⟩ := answers
  refine ⟨inner.path, sight, sight', rfl, differ, part, told, told', ?_⟩
  exact congrArg (Option.map (Divergence.below _)) swap

end Whole

end Comparison

namespace Program

variable {p p' : Program} {o o' : LoweringOptions} {id id' : SyntaxId}

/-- A comparison of operations of two trees reports the first stop at which the walks from them
see something else. Its path leads there from both operations, and the texts are different and say
what is there: two lines, the presence of a child, or the lengths of two lists. A comparison the
other way round reports the same stop with the texts exchanged. -/
theorem first_divergence (built : p.tree? o id = some t) (built' : p'.tree? o' id' = some t')
    (inside : i < t.size) (inside' : i' < t'.size) {d : Divergence}
    (found : (Comparison.of t t').divergence i i' = some d) :
    ∃ path sight sight', d.path = (Comparison.of t t').rootName i :: path ∧
      d.expected ≠ d.actual ∧ PartAt (t.walk i) (t'.walk i') path sight sight' ∧
      t.Describes i path sight d.expected ∧ t'.Describes i' path sight' d.actual ∧
      (Comparison.of t' t).divergence i' i =
        some ⟨(Comparison.of t' t).rootName i' :: path, d.actual, d.expected⟩ :=
  Comparison.divergence_answers (tree?_compact built) (tree?_compact built') inside inside' found

/-- A block that returns, perhaps with a value. -/
def returning (value : Option SyntaxId) : Program :=
  { empty "return" with
    nodes := #[⟨.zero, .literal "1"⟩, ⟨.zero, .returnJump value⟩, ⟨.zero, .block [1]⟩] }

theorem returning_first_divergence :
    ∃ t t' d path sight sight', (returning none).tree? {} 2 = some t ∧
      (returning (some 0)).tree? {} 2 = some t' ∧ t.root < t.size ∧ t'.root < t'.size ∧
      (Comparison.of t t').divergence t.root t'.root = some d ∧ d.expected = "none" ∧
      d.path = ["Block", "Statements[0]", "ReturnedValue"] ∧
      d.path = (Comparison.of t t').rootName t.root :: path ∧
      PartAt (t.walk t.root) (t'.walk t'.root) path sight sight' ∧
      (Comparison.of t' t).divergence t'.root t.root =
        some ⟨(Comparison.of t' t).rootName t'.root :: path, d.actual, d.expected⟩ := by
  obtain ⟨t, built⟩ : ∃ t, (returning none).tree? {} 2 = some t := ⟨_, rfl⟩
  obtain ⟨t', built'⟩ : ∃ t, (returning (some 0)).tree? {} 2 = some t := ⟨_, rfl⟩
  have inside := (tree?_compact built).root_lt_size
  have inside' := (tree?_compact built').root_lt_size
  have found : ∃ actual, (Comparison.of t t').divergence t.root t'.root =
      some ⟨["Block", "Statements[0]", "ReturnedValue"], "none", actual⟩ := by
    obtain rfl := Option.some.inj built
    obtain rfl := Option.some.inj built'
    exact ⟨_, by cbv⟩
  obtain ⟨actual, found⟩ := found
  obtain ⟨path, sight, sight', named, _, part, _, _, swapped⟩ :=
    first_divergence built built' inside inside' found
  exact ⟨t, t', _, path, sight, sight', built, built', inside, inside', found, rfl, rfl, named,
    part, swapped⟩

end Program

end SemanticTrees
