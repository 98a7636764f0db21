import SemanticTrees.Proofs.Lowering.Tree
import SemanticTrees.Proofs.Operation.Heights
import SemanticTrees.Proofs.Rendering.Congruence
import SemanticTrees.Proofs.Rendering.LineBreaks
import Std.Data.String.ToNat

/-! Reading outlines. When no name has a line break, the lines of an outline can be told apart. The
line of an operation says which slots follow, and the line of a slot says how many children do, so
operations with equal outlines are congruent unless something is left out for its depth. -/
namespace SemanticTrees

open OperationTree

/-! ### Lines of a text -/

/-- A line at a level. -/
abbrev LevelLine := Nat × String

/-- A line that can be told from the ones around it: it has no break and starts with no blank. -/
def Separate (line : String) : Prop := Unbroken line ∧ line.toList.head? ≠ some ' '

/-- The characters of a line at its level, under the structural options. -/
def lineChars (line : LevelLine) : List Char :=
  List.replicate (line.1 * 2) ' ' ++ line.2.toList ++ ['\n']

/-- Blanks in front of a line do not belong to it. -/
theorem dropWhile_blanks {n : Nat} {line : List Char} (first : line.head? ≠ some ' ') :
    (List.replicate n ' ' ++ line).dropWhile (· == ' ') = line := by
  rw [List.dropWhile_append_of_pos (by simp)]
  cases line with
  | nil => rfl
  | cons c rest => simp_all

theorem lineChars_inj {line line' : LevelLine} {rest rest' : List Char} (separate : Separate line.2)
    (separate' : Separate line'.2) (same : lineChars line ++ rest = lineChars line' ++ rest') :
    line = line' ∧ rest = rest' := by
  have unbroken (line : LevelLine) (separate : Separate line.2) :
      '\n' ∉ List.replicate (line.1 * 2) ' ' ++ line.2.toList := by
    simp only [List.mem_append, not_or]
    exact ⟨by simp [List.mem_replicate], separate.1⟩
  simp only [lineChars, List.append_assoc _ ['\n']] at same
  obtain ⟨front, rest⟩ :=
    append_cons_inj_of_not_mem (unbroken line separate) (unbroken line' separate') same
  have text : line.2.toList = line'.2.toList := by
    rw [← dropWhile_blanks (n := line.1 * 2) separate.2, front, dropWhile_blanks separate'.2]
  have level : line.1 = line'.1 := by
    have lengths := congrArg List.length front
    simp only [List.length_append, List.length_replicate, text] at lengths
    omega
  exact ⟨Prod.ext level (String.toList_inj.mp text), rest⟩

/-- Lines that can be told apart are told apart in the text. -/
theorem lines_inj {lines lines' : List LevelLine} (separate : ∀ line ∈ lines, Separate line.2)
    (separate' : ∀ line ∈ lines', Separate line.2)
    (same : lines.flatMap lineChars = lines'.flatMap lineChars) : lines = lines' := by
  have ends (line : LevelLine) (lines : List LevelLine) :
      (line :: lines).flatMap lineChars ≠ [] := by simp [lineChars]
  induction lines generalizing lines' with
  | nil =>
    cases lines' with
    | nil => rfl
    | cons line' rest' => exact absurd same.symm (ends line' rest')
  | cons line rest ih =>
    cases lines' with
    | nil => exact absurd same (ends line rest)
    | cons line' rest' =>
      rw [List.flatMap_cons, List.flatMap_cons] at same
      obtain ⟨rfl, others⟩ := lineChars_inj (separate line List.mem_cons_self)
        (separate' line' List.mem_cons_self) same
      rw [ih (fun line listed => separate line (List.mem_cons_of_mem _ listed))
        (fun line listed => separate' line (List.mem_cons_of_mem _ listed)) others]

/-! ### Lines of an outline -/

/-- The lines of slots with those of the children in them. -/
def slotLines (lines : OperationId → List LevelLine) (level : Nat) (entry : String × Slot) :
    List LevelLine :=
  (level + 1, slotLine entry.1 entry.2) :: entry.2.children.flatMap lines

/-- The lines of an outline under the structural options. -/
def outlineLines (t : OperationTree) : Nat → Nat → OperationId → List LevelLine
  | 0, level, _ => [(level, "...")]
  | depth + 1, level, i =>
    (level, t.header RenderOptions.structural t.structuralTaint i) ::
      match t.get? i with
      | none => []
      | some o => o.kind.slots.flatMap (slotLines (outlineLines t depth (level + 2)) level)

theorem toList_pushn (text : String) (c : Char) (n : Nat) :
    (text.pushn c n).toList = text.toList ++ List.replicate n c := by
  rw [String.pushn_eq_repeat_push]
  induction n with
  | zero => simp [Nat.repeat]
  | succ n ih => rw [Nat.repeat, String.toList_push, ih, List.append_assoc, List.replicate_succ']

theorem toList_appendLine (out : String) (level : Nat) (line : String) :
    (appendLine RenderOptions.structural out level line).toList =
      out.toList ++ lineChars (level, line) := by
  simp [appendLine, lineChars, toList_pushn, RenderOptions.structural]

theorem toList_foldl {α : Type} {append : String → α → String} {chars : α → List Char}
    (each : ∀ out a, (append out a).toList = out.toList ++ chars a) (l : List α) (out : String) :
    (l.foldl append out).toList = out.toList ++ l.flatMap chars := by
  induction l generalizing out with
  | nil => simp
  | cons a rest ih => rw [List.foldl_cons, ih, each, List.flatMap_cons, List.append_assoc]

/-- The text of an outline consists of its lines. -/
theorem toList_appendOutline (t : OperationTree) (depth level : Nat) (out : String)
    (i : OperationId) :
    (t.appendOutline RenderOptions.structural t.structuralTaint depth level out i).toList =
      out.toList ++ (outlineLines t depth level i).flatMap lineChars := by
  induction depth generalizing level out i with
  | zero => simp [appendOutline, outlineLines, toList_appendLine]
  | succ depth ih =>
    rw [appendOutline, outlineLines, List.flatMap_cons, ← List.append_assoc, ← toList_appendLine]
    cases found : t.get? i with
    | none => simp
    | some o =>
      rw [List.flatMap_assoc]
      refine toList_foldl (fun out entry => ?_) _ _
      rw [slotLines, List.flatMap_cons, ← List.append_assoc, ← toList_appendLine, List.flatMap_assoc]
      exact toList_foldl (fun out child => ih (level + 2) out child) _ _

theorem slotLine_many (name : String) (first : OperationId) (more : List OperationId) :
    slotLine name (.many (first :: more)) = name ++ "(" ++ (more.length + 1).repr ++ "):" := rfl

theorem unbroken_slotLine {name : String} (word : Alphabetic name) (slot : Slot) :
    Unbroken (slotLine name slot) := by
  cases slot with
  | one child => cases child <;> exact word.unbroken.append (by decide)
  | many children =>
    cases children with
    | nil => exact word.unbroken.append (by decide)
    | cons first more =>
      rw [slotLine_many]
      have digits : ∀ c ∈ (more.length + 1).repr.toList, Printable c := by
        intro c member
        rw [Nat.toList_repr] at member
        exact printable_of_numberChar (Json.numberChar_of_mem_toDigits member)
      exact ((word.unbroken.append (by decide)).append (unbroken_of_printable digits)).append
        (by decide)

/-- A line that starts with a word can be told from the ones around it. -/
theorem Alphabetic.separate {word line : String} {rest : List Char} (letters : Alphabetic word)
    (front : line.toList = word.toList ++ rest) (unbroken : Unbroken line) : Separate line := by
  refine ⟨unbroken, ?_⟩
  rw [front]
  cases chars : word.toList with
  | nil => exact absurd (String.toList_eq_nil_iff.mp chars) letters.1
  | cons c more =>
    intro same
    obtain rfl := Option.some.inj same
    exact absurd (letters.2 ' ' (chars ▸ List.mem_cons_self)) (by decide)

theorem separate_header (o : Operation) {p : Program} (names : p.EachName Unbroken)
    (isInvalid : Bool) : Separate (o.header p RenderOptions.structural isInvalid) :=
  o.kind.alphabetic_name.separate Operation.toList_header (Operation.unbroken_header names isInvalid)

/-- The lines of an outline can be told apart if the names of the program have no line breaks. -/
theorem separate_outlineLines {t : OperationTree} (compact : t.Compact)
    (names : t.program.EachName Unbroken) {depth level : Nat} {i : OperationId}
    (inside : i < t.size) : ∀ line ∈ outlineLines t depth level i, Separate line.2 := by
  induction depth generalizing level i with
  | zero =>
    intro line listed
    obtain rfl := List.mem_singleton.mp listed
    have separate : Separate "..." := ⟨by decide, by decide⟩
    exact separate
  | succ depth ih =>
    obtain ⟨o, found⟩ : ∃ o, t.get? i = some o := ⟨_, Array.getElem?_eq_getElem inside⟩
    intro line listed
    rw [outlineLines, header, found, List.mem_cons] at listed
    obtain rfl | listed := listed
    · exact separate_header o names _
    · obtain ⟨⟨name, slot⟩, known, listed⟩ := List.mem_flatMap.mp listed
      rw [slotLines, List.mem_cons] at listed
      obtain rfl | listed := listed
      · have word := OperationKind.alphabetic_slotName known
        have front : ∃ rest, (slotLine name slot).toList = name.toList ++ rest := by
          unfold slotLine
          split <;> exact ⟨_, by simp [String.toList_append, List.append_assoc]; rfl⟩
        obtain ⟨rest, front⟩ := front
        exact word.separate front (unbroken_slotLine word slot)
      · obtain ⟨child, held, listed⟩ := List.mem_flatMap.mp listed
        exact ih (compact.child_lt_size (isChild_of_slot found known held)) line listed

/-! ### Reading -/

section Reading

variable {t t' : OperationTree} {R : OperationId → OperationId → Prop}
  {lines lines' : OperationId → List LevelLine} {rest rest' : List LevelLine}

/-- Lists of as many children are read child by child. -/
theorem forall₂_of_lines {children children' : List OperationId}
    (each : ∀ j ∈ children, ∀ j' ∈ children', ∀ rest rest',
      lines j ++ rest = lines' j' ++ rest' → R j j' ∧ rest = rest')
    (length : children.length = children'.length)
    (same : children.flatMap lines ++ rest = children'.flatMap lines' ++ rest') :
    List.Forall₂ R children children' ∧ rest = rest' := by
  induction children generalizing children' with
  | nil =>
    obtain rfl := List.length_eq_zero_iff.mp length.symm
    exact ⟨.nil, same⟩
  | cons j more ih =>
    cases children' with
    | nil => contradiction
    | cons j' more' =>
      rw [List.flatMap_cons, List.flatMap_cons, List.append_assoc, List.append_assoc] at same
      obtain ⟨first, same⟩ := each j List.mem_cons_self j' List.mem_cons_self _ _ same
      obtain ⟨others, same⟩ := ih (fun j listed j' listed' => each j (List.mem_cons_of_mem _ listed)
        j' (List.mem_cons_of_mem _ listed')) (Nat.succ.inj length) same
      exact ⟨.cons first others, same⟩

/-- The line of a slot tells how many children it holds. -/
theorem length_children_eq {name : String} {slot slot' : Slot} (shape : slot.shape = slot'.shape)
    (same : slotLine name slot = slotLine name slot') :
    slot.children.length = slot'.children.length := by
  have empty (first : OperationId) (more : List OperationId) :
      slotLine name (.many []) ≠ slotLine name (.many (first :: more)) := by
    intro same
    rw [slotLine_many] at same
    have last := congrArg (·.toList.getLast?) same
    simp [slotLine, List.getLast?_cons, List.getLast?_append] at last
  cases slot with
  | one child =>
    cases slot' with
    | many => contradiction
    | one child' => cases child <;> cases child' <;> simp_all [slotLine, Slot.children]
  | many children =>
    cases slot' with
    | one => contradiction
    | many children' =>
      cases children with
      | nil =>
        cases children' with
        | nil => rfl
        | cons first' more' => exact absurd same (empty first' more')
      | cons first more =>
        cases children' with
        | nil => exact absurd same.symm (empty first more)
        | cons first' more' =>
          simp only [slotLine_many, String.append_left_inj, String.append_right_inj] at same
          exact Nat.repr_inj.mp same

theorem slotsAlike_of_lines {slots slots' : List (String × Slot)} {level level' : Nat}
    (shapes : List.Forall₂ (fun entry entry' : String × Slot =>
      entry.1 = entry'.1 ∧ entry.2.shape = entry'.2.shape) slots slots')
    (each : ∀ entry ∈ slots, ∀ j ∈ entry.2.children, ∀ entry' ∈ slots', ∀ j' ∈ entry'.2.children,
      ∀ rest rest', lines j ++ rest = lines' j' ++ rest' → R j j' ∧ rest = rest')
    (same : slots.flatMap (slotLines lines level) ++ rest =
      slots'.flatMap (slotLines lines' level') ++ rest') :
    SlotsAlike R slots slots' ∧ rest = rest' := by
  induction shapes with
  | nil => exact ⟨.nil, same⟩
  | @cons entry entry' more more' first _ ih =>
    obtain ⟨name, slot⟩ := entry
    obtain ⟨name', slot'⟩ := entry'
    obtain ⟨rfl, shape⟩ := first
    rw [List.flatMap_cons, List.flatMap_cons, List.append_assoc, List.append_assoc, slotLines,
      slotLines, List.cons_append, List.cons_append] at same
    obtain ⟨line, same⟩ := List.cons.inj same
    have length := length_children_eq shape (Prod.mk.inj line).2
    obtain ⟨children, same⟩ := forall₂_of_lines (R := R) (fun j held j' held' =>
      each _ List.mem_cons_self j held _ List.mem_cons_self j' held') length same
    obtain ⟨others, same⟩ := ih (fun entry listed j held entry' listed' =>
      each entry (List.mem_cons_of_mem _ listed) j held entry' (List.mem_cons_of_mem _ listed')) same
    exact ⟨.cons ⟨rfl, .of_children shape children⟩ others, same⟩

/-- Equal outlines are read in the same way: the operations are congruent, and what comes behind
them is equal, too. -/
theorem congruent_of_lines (compact : t.Compact) (compact' : t'.Compact) {depth level level' : Nat}
    {i i' : OperationId} (within : t.Within depth i) (within' : t'.Within depth i')
    (inside : i < t.size) (inside' : i' < t'.size)
    (same : outlineLines t depth level i ++ rest = outlineLines t' depth level' i' ++ rest') :
    Congruent t t' (SameLine t t') i i' ∧ rest = rest' := by
  induction depth generalizing level level' i i' rest rest' with
  | zero => exact within.elim
  | succ depth ih =>
    obtain ⟨o, found⟩ : ∃ o, t.get? i = some o := ⟨_, Array.getElem?_eq_getElem inside⟩
    obtain ⟨o', found'⟩ : ∃ o', t'.get? i' = some o' := ⟨_, Array.getElem?_eq_getElem inside'⟩
    rw [outlineLines, outlineLines, found, found', List.cons_append, List.cons_append] at same
    obtain ⟨line, same⟩ := List.cons.inj same
    have own : SameLine t t' i i' := (Prod.mk.inj line).2
    obtain ⟨slots, same⟩ := slotsAlike_of_lines
      (OperationKind.slots_of_name (own.name_eq found found'))
      (fun entry listed j held entry' listed' j' held' rest rest' same => by
        have known := isChild_of_slot found listed held
        have known' := isChild_of_slot found' listed' held'
        exact ih (within j known) (within' j' known') (compact.child_lt_size known)
          (compact'.child_lt_size known') same) same
    exact ⟨.node found found' own slots fun _ _ congruent => congruent, same⟩

/-- Trees with equal outlines are congruent if no name has a line break and nothing is left out. -/
theorem congruent_of_outline (compact : t.Compact) (compact' : t'.Compact)
    (names : t.program.EachName Unbroken) (names' : t'.program.EachName Unbroken)
    (shallow : t.Within Limits.printDepth t.root) (shallow' : t'.Within Limits.printDepth t'.root)
    (same : t.outline RenderOptions.structural t.structuralTaint =
      t'.outline RenderOptions.structural t'.structuralTaint) :
    Congruent t t' (SameLine t t') t.root t'.root := by
  have chars := congrArg String.toList same
  simp only [outline, outlineAt, toList_appendOutline] at chars
  have inside := compact.root_lt_size
  have inside' := compact'.root_lt_size
  have lines := lines_inj (separate_outlineLines compact names inside)
    (separate_outlineLines compact' names' inside') (List.append_cancel_left chars)
  have none (lines : List LevelLine) : lines ++ [] = lines := List.append_nil lines
  exact (congruent_of_lines compact compact' shallow shallow' inside inside'
    ((none _).trans (lines.trans (none _).symm))).1

end Reading

namespace Program

variable {p p' : Program} {o o' : LoweringOptions} {id id' : SyntaxId} {t t' : OperationTree}

/-- Trees that a comparison finds equal have equal outlines. Trees with equal outlines are found
equal by a comparison, if no name of a type or a symbol has a line break and no operation is too
deep to be shown. -/
theorem divergence_of_outlines (built : p.tree? o id = some t) (built' : p'.tree? o' id' = some t') :
    ((Comparison.of t t').divergence t.root t'.root = none →
      t.outline RenderOptions.structural t.structuralTaint =
        t'.outline RenderOptions.structural t'.structuralTaint) ∧
    (p.EachName Unbroken → p'.EachName Unbroken →
      (∀ i < t.size, t.depth i < Limits.printDepth) →
      (∀ i < t'.size, t'.depth i < Limits.printDepth) →
      t.outline RenderOptions.structural t.structuralTaint =
        t'.outline RenderOptions.structural t'.structuralTaint →
      (Comparison.of t t').divergence t.root t'.root = none) := by
  have compact := tree?_compact built
  have compact' := tree?_compact built'
  rw [divergence_eq_none_iff compact compact']
  refine ⟨fun congruent => congruent.outline.symm, ?_⟩
  intro names names' shallow shallow' same
  rw [← program_of_tree? built] at names
  rw [← program_of_tree? built'] at names'
  exact congruent_of_outline compact compact' names names' (compact.within_iff.mpr shallow)
    (compact'.within_iff.mpr shallow') same

/-- A variable plus a number, both of a type. -/
def localSum (types : TypeTable) (type : TypeId) : Program :=
  { empty "sum" with
    nodes := #[⟨.zero, .identifier "x"⟩, ⟨.zero, .literal "1"⟩, ⟨.zero, .binary .add 0 1⟩]
    types
    symbols := #[.plain "x" .localVariable (some type)]
    facts := (Std.TreeMap.empty.insert 0
      { Facts.unknown with type := some type, symbol := some 0 }).insert 1
      { Facts.unknown with type := some type, constant := some (.int 1) } }

theorem localSum_divergence_of_outlines :
    ∃ t t', (localSum #[⟨"int", .structType⟩] 0).tree? {} 2 = some t ∧
      (localSum #[⟨"bool", .structType⟩, ⟨"int", .structType⟩] 1).tree? {} 2 = some t' ∧
      t.size = 3 ∧ t'.size = 3 ∧ (Comparison.of t t').divergence t.root t'.root = none := by
  obtain ⟨t, built⟩ : ∃ t, (localSum #[⟨"int", .structType⟩] 0).tree? {} 2 = some t := ⟨_, rfl⟩
  obtain ⟨t', built'⟩ : ∃ t,
      (localSum #[⟨"bool", .structType⟩, ⟨"int", .structType⟩] 1).tree? {} 2 = some t := ⟨_, rfl⟩
  have size : t.size = 3 := by
    obtain rfl := Option.some.inj built
    cbv
  have size' : t'.size = 3 := by
    obtain rfl := Option.some.inj built'
    cbv
  have outlines : t.outline RenderOptions.structural t.structuralTaint =
      t'.outline RenderOptions.structural t'.structuralTaint := by
    obtain rfl := Option.some.inj built
    obtain rfl := Option.some.inj built'
    cbv
  refine ⟨t, t', built, built', size, size', ?_⟩
  refine (divergence_of_outlines built built').2 ⟨by decide, by decide⟩ ⟨by decide, by decide⟩
    (fun i _ => ?_) (fun i _ => ?_) outlines
  · exact (OperationTree.depth_le_size i).trans_lt (size ▸ by decide)
  · exact (OperationTree.depth_le_size i).trans_lt (size' ▸ by decide)

end Program

end SemanticTrees
