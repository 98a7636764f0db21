import SemanticTrees.Proofs.Rendering.Separators

/-! Contents of operations. An operation has a line that is made of what its content lists one by
one. The content can be read from the line when all names are plain and no type has the name that
stands for a missing one. -/
namespace SemanticTrees

/-- What a comparison is about, for one operation. -/
structure Content where
  kind : String
  attributes : List Attribute
  type : Option String
  constant : Option String
  isInvalid : Bool
deriving DecidableEq, Repr

def Operation.content (o : Operation) (p : Program) (isInvalid : Bool) : Content :=
  ⟨o.kind.name, p.attributes o.kind, o.type.map p.types.nameOf, o.constant.map Constant.text,
    isInvalid⟩

/-- Lines of a program can be read: its names are plain, and no type is named as if it were
missing. -/
structure Program.Unambiguous (p : Program) : Prop where
  names : p.EachName Plain
  typed : ∀ type ∈ p.types, type.name ≠ "null"

theorem Program.Unambiguous.plain_typeText {p : Program} (readable : p.Unambiguous)
    (o : Operation) : Plain (o.typeText p) :=
  composable_plain.orNull (readable.names.nameOf composable_plain) o.type

/-! ### Ends of values -/

/-- What stands behind values in two lines: another group in both of them, or the same label. -/
inductive Behind : List Char → List Char → Prop
  | group (r r' : List Char) : Behind (')' :: ' ' :: '(' :: r) (')' :: ' ' :: '(' :: r')
  | label {label : String} (word : Alphabetic label) (r r' : List Char) :
      Behind (',' :: ' ' :: (label.toList ++ ':' :: ' ' :: r))
        (',' :: ' ' :: (label.toList ++ ':' :: ' ' :: r'))

namespace Behind

variable {r r' : List Char}

theorem stops (behind : Behind r r') : Attribute.Stops r ∧ Attribute.Stops r' := by
  cases behind <;> exact ⟨Attribute.stops_cons _ (by decide), Attribute.stops_cons _ (by decide)⟩

/-- Where a plain name ends can be told. -/
theorem plain_inj (behind : Behind r r') {name name' : String} (plain : Plain name)
    (plain' : Plain name') (same : name.toList ++ r = name'.toList ++ r') :
    name = name' ∧ r = r' := by
  cases behind with
  | group r r' =>
    obtain ⟨names, rfl⟩ := append_pattern_inj (by decide) plain.1 plain'.1 same
    exact ⟨String.toList_inj.mp names, rfl⟩
  | @label label word r r' =>
    -- The first end of a label is the one of this label.
    have fresh {name : String} (plain : Plain name) :
        ¬[':', ' '] <:+: name.toList ++ ',' :: ' ' :: label.toList := by
      refine not_infix_append_cons (by decide) plain.2
        (not_infix_of_not_mem (a := ':') (by decide) ?_)
      intro member
      obtain blank | letter := List.mem_cons.mp member
      · exact absurd blank (by decide)
      · exact absurd (word.2 ':' letter) (by decide)
    have same : (name.toList ++ ',' :: ' ' :: label.toList) ++ ([':', ' '] ++ r) =
        (name'.toList ++ ',' :: ' ' :: label.toList) ++ ([':', ' '] ++ r') := by
      simpa using same
    obtain ⟨names, rfl⟩ := append_pattern_inj (by decide) (fresh plain) (fresh plain') same
    exact ⟨String.toList_inj.mp (List.append_cancel_right names), rfl⟩

/-- Where a value ends can be told. -/
theorem value_inj (behind : Behind r r') {a a' : Attribute} (label : a.label = a'.label)
    (legible : a.Legible Plain) (legible' : a'.Legible Plain)
    (same : a.value.toList ++ r = a'.value.toList ++ r') : a = a' ∧ r = r' := by
  obtain ⟨name, value⟩ := a
  obtain ⟨name', value'⟩ := a'
  obtain rfl : name = name' := label
  unfold Attribute.Legible at legible legible'
  split_ifs at legible legible' with coded
  · obtain ⟨values, rests⟩ := legible.append_inj legible' behind.stops.1 behind.stops.2 same
    obtain rfl := String.toList_inj.mp values
    exact ⟨rfl, rests⟩
  · obtain ⟨rfl, rests⟩ := behind.plain_inj legible legible' same
    exact ⟨rfl, rests⟩

end Behind

/-- A list of attributes starts with the label of the first one. -/
theorem exists_label (a : Attribute) (rest : List Attribute) (r : List Char) :
    ∃ more, [',', ' '].intercalate ((a :: rest).map Attribute.chars) ++ r =
      a.label.toList ++ ':' :: ' ' :: more := by
  cases rest <;> exact ⟨_, by simp [Attribute.chars, List.intercalate_cons_cons]; rfl⟩

/-- Attributes with the same labels can be read, with what stands behind them. -/
theorem attributes_inj {l l' : List Attribute} {r r' : List Char} (some : l ≠ [])
    (labels : l.map Attribute.label = l'.map Attribute.label)
    (words : ∀ a ∈ l, Alphabetic a.label) (legible : ∀ a ∈ l, a.Legible Plain)
    (legible' : ∀ a ∈ l', a.Legible Plain)
    (same : [',', ' '].intercalate (l.map Attribute.chars) ++ ')' :: ' ' :: '(' :: r =
      [',', ' '].intercalate (l'.map Attribute.chars) ++ ')' :: ' ' :: '(' :: r') :
    l = l' ∧ r = r' := by
  induction l generalizing l' with
  | nil => contradiction
  | cons a rest ih =>
    cases l' with
    | nil => contradiction
    | cons a' rest' =>
      obtain ⟨label, next⟩ := List.cons.inj labels
      obtain ⟨own, others⟩ := List.forall_mem_cons.mp legible
      obtain ⟨own', others'⟩ := List.forall_mem_cons.mp legible'
      cases rest with
      | nil =>
        obtain rfl := List.map_eq_nil_iff.mp next.symm
        have same : a.value.toList ++ ')' :: ' ' :: '(' :: r =
            a'.value.toList ++ ')' :: ' ' :: '(' :: r' := by
          simpa [Attribute.chars, label] using same
        obtain ⟨rfl, rests⟩ := (Behind.group r r').value_inj label own own' same
        simpa using rests
      | cons b rest =>
        cases rest' with
        | nil => contradiction
        | cons b' rest' =>
          obtain ⟨more, first⟩ := exists_label b rest (')' :: ' ' :: '(' :: r)
          obtain ⟨more', first'⟩ := exists_label b' rest' (')' :: ' ' :: '(' :: r')
          rw [← (List.cons.inj next).1] at first'
          have word : Alphabetic b.label := words b (List.mem_cons_of_mem _ List.mem_cons_self)
          have same : a.value.toList ++ ',' :: ' ' :: (b.label.toList ++ ':' :: ' ' :: more) =
              a'.value.toList ++ ',' :: ' ' :: (b.label.toList ++ ':' :: ' ' :: more') := by
            rw [← first, ← first']
            simpa [Attribute.chars, label, List.intercalate_cons_cons] using same
          obtain ⟨rfl, behind⟩ := (Behind.label word more more').value_inj label own own' same
          obtain ⟨values, rests⟩ := ih (List.cons_ne_nil b rest) next
            (fun a listed => words a (List.mem_cons_of_mem _ listed)) others others'
            (first.trans (((List.cons.inj (List.cons.inj behind).2).2).trans first'.symm))
          exact ⟨congrArg _ values, rests⟩

/-! ### Groups of a line -/

namespace Operation

/-- Groups with the end of each, where another one may start. -/
def closed (groups : List (List Char)) : List Char :=
  groups.flatMap fun group => group ++ [')', ' ', '(']

theorem closed_append (first rest : List (List Char)) :
    closed (first ++ rest) = closed first ++ closed rest :=
  List.flatMap_append

theorem grouped_append_opening (groups : List (List Char)) :
    grouped groups ++ [' ', '('] = ' ' :: '(' :: closed groups := by
  induction groups with
  | nil => rfl
  | cons group rest ih =>
    have front : grouped (group :: rest) = ' ' :: '(' :: group ++ ')' :: grouped rest := by
      simp [grouped]
    simp [front, ih, closed]

/-- The group that marks an invalid operation. -/
def taintGroups (isInvalid : Bool) : List (List Char) :=
  if isInvalid then ["IsInvalid".toList] else []

variable {text text' : List Char} {isInvalid isInvalid' : Bool}

@[simp] theorem closed_taintGroups_false : closed (taintGroups false) = [] := rfl

@[simp] theorem closed_taintGroups_true :
    closed (taintGroups true) = "IsInvalid".toList ++ [')', ' ', '('] := rfl

theorem closed_taintGroups_inj
    (same : closed (taintGroups isInvalid) = closed (taintGroups isInvalid')) :
    isInvalid = isInvalid' := by
  cases isInvalid <;> cases isInvalid' <;> simp at same ⊢

/-- Where a text ends can be told that does not end like the mark of invalid operations. -/
theorem closed_taint_inj (last : text.getLast? ≠ some 'd') (last' : text'.getLast? ≠ some 'd')
    (same : text ++ ')' :: ' ' :: '(' :: closed (taintGroups isInvalid) =
      text' ++ ')' :: ' ' :: '(' :: closed (taintGroups isInvalid')) :
    text = text' ∧ isInvalid = isInvalid' := by
  have mixed {text text' : List Char} (last : text.getLast? ≠ some 'd') :
      text ++ ')' :: ' ' :: '(' :: closed (taintGroups false) ≠
        text' ++ ')' :: ' ' :: '(' :: closed (taintGroups true) := by
    intro same
    rw [closed_taintGroups_false, closed_taintGroups_true] at same
    have same : text ++ [')', ' ', '('] =
        (text' ++ ')' :: ' ' :: '(' :: "IsInvalid".toList) ++ [')', ' ', '('] := by
      simpa only [List.append_assoc, List.cons_append] using same
    rw [List.append_cancel_right same, List.getLast?_append] at last
    exact last rfl
  cases isInvalid with
  | false =>
    cases isInvalid' with
    | false => exact ⟨List.append_cancel_right same, rfl⟩
    | true => exact absurd same (mixed last)
  | true =>
    cases isInvalid' with
    | false => exact absurd same.symm (mixed last')
    | true => exact ⟨List.append_cancel_right same, rfl⟩

end Operation

/-- No constant ends like the mark of invalid operations. -/
theorem Constant.getLast?_text (constant : Constant) : constant.text.toList.getLast? ≠ some 'd' := by
  have numeric : ¬Json.NumberChar 'd' := by
    rintro (digit | mark)
    · exact absurd digit (by decide)
    · exact absurd mark (by decide)
  cases constant with
  | null => decide
  | bool value => cases value <;> decide
  | int n =>
    intro last
    exact numeric (Json.numberChar_toString_int 'd' (List.mem_of_getLast? last))
  | float x =>
    intro last
    obtain number | nan | infinite := mem_number (List.mem_of_getLast? last)
    · exact numeric number
    · exact absurd nan (by decide)
    · exact absurd infinite (by decide)
  | char d =>
    rw [text, String.toList_ofList, List.getLast?_concat]
    decide
  | string s =>
    rw [text, String.toList_ofList, List.getLast?_concat]
    decide

namespace Operation

theorem constantChars_none : constantChars none = [] := rfl

theorem constantChars_some (constant : Constant) :
    constantChars (some constant) =
      ',' :: ' ' :: ("Constant".toList ++ ':' :: ' ' :: constant.text.toList) := rfl

/-- The type and the constant can be read, with the mark of invalid operations. -/
theorem typed_inj {type type' : String} {constant constant' : Option Constant}
    {isInvalid isInvalid' : Bool} (plain : Plain type) (plain' : Plain type')
    (same : type.toList ++ (constantChars constant ++
        ')' :: ' ' :: '(' :: closed (taintGroups isInvalid)) =
      type'.toList ++ (constantChars constant' ++
        ')' :: ' ' :: '(' :: closed (taintGroups isInvalid'))) :
    type = type' ∧ constant.map Constant.text = constant'.map Constant.text ∧
      isInvalid = isInvalid' := by
  -- A constant shows by the end of its label.
  have unmarked {type type' : String} {constant : Constant} {rest : List Char} {isInvalid : Bool}
      (plain : Plain type) : type.toList ++ (constantChars none ++
          ')' :: ' ' :: '(' :: closed (taintGroups isInvalid)) ≠
        type'.toList ++ (constantChars (some constant) ++ rest) := by
    have absent : ¬[':', ' '] <:+:
        type.toList ++ ')' :: ' ' :: '(' :: closed (taintGroups isInvalid) := by
      refine not_infix_append_cons (by decide) plain.2
        (not_infix_of_not_mem (a := ':') (by decide) ?_)
      cases isInvalid <;> decide
    intro same
    refine absent ?_
    rw [constantChars_none, List.nil_append, constantChars_some] at same
    rw [same]
    refine ⟨type'.toList ++ ',' :: ' ' :: "Constant".toList, constant.text.toList ++ rest, ?_⟩
    simp only [List.append_assoc, List.cons_append, List.nil_append]
  cases constant with
  | none =>
    cases constant' with
    | none =>
      simp only [constantChars_none, List.nil_append] at same
      obtain ⟨types, rests⟩ := (Behind.group _ _).plain_inj plain plain' same
      simp only [List.cons.injEq, true_and] at rests
      exact ⟨types, rfl, closed_taintGroups_inj rests⟩
    | some constant' => exact absurd same (unmarked plain)
  | some constant =>
    cases constant' with
    | none => exact absurd same.symm (unmarked plain')
    | some constant' =>
      have word : Alphabetic "Constant" := by decide
      simp only [constantChars_some, List.cons_append, List.append_assoc] at same
      obtain ⟨types, rests⟩ := (Behind.label word _ _).plain_inj plain plain' same
      simp only [List.cons.injEq, true_and, List.append_cancel_left_eq] at rests
      obtain ⟨texts, marks⟩ := closed_taint_inj constant.getLast?_text constant'.getLast?_text rests
      exact ⟨types, congrArg some (String.toList_inj.mp texts), marks⟩

variable {o o' : Operation} {p p' : Program} {isInvalid isInvalid' : Bool}

theorem isExpression_eq_of_name (name : o.kind.name = o'.kind.name) :
    o.isExpression = o'.isExpression := by
  rw [isExpression, isExpression, role, role, OperationKind.role_eq_of_name name]

/-- Operations with the same content have the same line. -/
theorem header_eq_of_content (same : o.content p isInvalid = o'.content p' isInvalid') :
    o.header p RenderOptions.structural isInvalid =
      o'.header p' RenderOptions.structural isInvalid' := by
  simp only [content, Content.mk.injEq] at same
  obtain ⟨name, attributes, type, constant, rfl⟩ := same
  have expression := isExpression_eq_of_name name
  have typeText : o.typeText p = o'.typeText p' := by
    have text (o : Operation) (p : Program) :
        o.typeText p = (o.type.map p.types.nameOf).getD "null" := by
      unfold Operation.typeText
      cases o.type <;> rfl
    rw [text, text, type]
  have constants : constantChars o.constant = constantChars o'.constant := by
    have chars (constant : Option Constant) : constantChars constant =
        (constant.map Constant.text).elim [] fun text => ", Constant: ".toList ++ text.toList := by
      cases constant <;> rfl
    rw [chars, chars, constant]
  rw [← String.toList_inj, toList_header, toList_header, name, groups, groups, attributeGroups,
    attributeGroups, attributes, valueGroups, valueGroups, expression, typeText, constants]

theorem type_eq_of_typeText (typed : ∀ type ∈ p.types, type.name ≠ "null")
    (typed' : ∀ type ∈ p'.types, type.name ≠ "null") (same : o.typeText p = o'.typeText p') :
    o.type.map p.types.nameOf = o'.type.map p'.types.nameOf := by
  have named {p : Program} (typed : ∀ type ∈ p.types, type.name ≠ "null") (type : TypeId) :
      p.types.nameOf type ≠ "null" := by
    unfold TypeTable.nameOf
    cases found : p.types[type]? with
    | none => decide
    | some info => exact typed info (Array.mem_of_getElem? found)
  unfold typeText at same
  cases type : o.type with
  | none =>
    cases type' : o'.type with
    | none => rfl
    | some id' =>
      rw [type, type'] at same
      exact absurd same.symm (named typed' id')
  | some id =>
    cases type' : o'.type with
    | none =>
      rw [type, type'] at same
      exact absurd same (named typed id)
    | some id' =>
      rw [type, type'] at same
      exact congrArg some same

theorem closed_attributeGroups (some : p.attributes o.kind ≠ []) :
    closed (o.attributeGroups p) =
      [',', ' '].intercalate ((p.attributes o.kind).map Attribute.chars) ++ [')', ' ', '('] := by
  unfold attributeGroups
  cases listed : p.attributes o.kind with
  | nil => exact absurd listed some
  | cons => simp [closed]

theorem closed_valueGroups (expression : o.isExpression = true) :
    closed (o.valueGroups p) = "Type: ".toList ++ ((o.typeText p).toList ++
      (constantChars o.constant ++ [')', ' ', '('])) := by
  rw [valueGroups, if_pos expression]
  simp [closed]

theorem closed_groups : closed (o.groups p isInvalid) =
    closed (o.attributeGroups p) ++ (closed (o.valueGroups p) ++ closed (taintGroups isInvalid)) := by
  rw [groups, closed_append, closed_append, List.append_assoc]
  rfl

/-- Operations with the same line have the same groups in it. -/
theorem closed_groups_eq (name : o.kind.name = o'.kind.name)
    (same : o.header p RenderOptions.structural isInvalid =
      o'.header p' RenderOptions.structural isInvalid') :
    closed (o.groups p isInvalid) = closed (o'.groups p' isInvalid') := by
  have chars := congrArg String.toList same
  rw [toList_header, toList_header, name] at chars
  have opened := congrArg (· ++ [' ', '(']) (List.append_cancel_left chars)
  simpa only [grouped_append_opening, List.cons.injEq, true_and] using opened

/-- The attributes can be read, with the groups behind them. -/
theorem attributes_eq_of_closed (names : p.EachName Plain) (names' : p'.EachName Plain)
    (name : o.kind.name = o'.kind.name) {r r' : List Char}
    (same : closed (o.attributeGroups p) ++ r = closed (o'.attributeGroups p') ++ r') :
    p.attributes o.kind = p'.attributes o'.kind ∧ r = r' := by
  have labels := OperationKind.labels_eq_of_name name p p'
  by_cases none : p.attributes o.kind = []
  · have none' : p'.attributes o'.kind = [] := by
      rw [none] at labels
      exact List.map_eq_nil_iff.mp labels.symm
    rw [attributeGroups, attributeGroups, none, none'] at same
    exact ⟨none.trans none'.symm, same⟩
  · have none' : p'.attributes o'.kind ≠ [] := by
      intro none'
      rw [none'] at labels
      exact none (List.map_eq_nil_iff.mp labels)
    rw [closed_attributeGroups none, closed_attributeGroups none'] at same
    simp only [List.append_assoc, List.cons_append, List.nil_append] at same
    exact attributes_inj none labels (fun _ listed => OperationKind.alphabetic_label listed)
      (names.legible composable_plain o.kind) (names'.legible composable_plain o'.kind) same

/-- The type, the constant and the mark of invalid operations can be read. -/
theorem values_eq_of_closed (readable : p.Unambiguous) (readable' : p'.Unambiguous)
    (valueless : o.role = .statement → o.type = none ∧ o.constant = none)
    (valueless' : o'.role = .statement → o'.type = none ∧ o'.constant = none)
    (expression : o.isExpression = o'.isExpression)
    (same : closed (o.valueGroups p) ++ closed (taintGroups isInvalid) =
      closed (o'.valueGroups p') ++ closed (taintGroups isInvalid')) :
    o.type.map p.types.nameOf = o'.type.map p'.types.nameOf ∧
      o.constant.map Constant.text = o'.constant.map Constant.text ∧ isInvalid = isInvalid' := by
  cases value : o.isExpression with
  | true =>
    rw [closed_valueGroups value, closed_valueGroups (expression ▸ value)] at same
    simp only [List.append_assoc, List.cons_append, List.nil_append,
      List.append_cancel_left_eq] at same
    obtain ⟨types, constants, marks⟩ :=
      typed_inj (readable.plain_typeText o) (readable'.plain_typeText o') same
    exact ⟨type_eq_of_typeText readable.typed readable'.typed types, constants, marks⟩
  | false =>
    have statement {o : Operation} (value : o.isExpression = false) : o.role = .statement := by
      unfold isExpression at value
      cases role : o.role <;> simp_all
    obtain ⟨type, constant⟩ := valueless (statement value)
    obtain ⟨type', constant'⟩ := valueless' (statement (expression ▸ value))
    rw [valueGroups, valueGroups, value, ← expression, value] at same
    rw [type, type', constant, constant']
    exact ⟨rfl, rfl, closed_taintGroups_inj same⟩

/-- The content of an operation can be read from its line. -/
theorem content_eq_of_header (readable : p.Unambiguous) (readable' : p'.Unambiguous)
    (valueless : o.role = .statement → o.type = none ∧ o.constant = none)
    (valueless' : o'.role = .statement → o'.type = none ∧ o'.constant = none)
    (same : o.header p RenderOptions.structural isInvalid =
      o'.header p' RenderOptions.structural isInvalid') :
    o.content p isInvalid = o'.content p' isInvalid' := by
  have name := name_eq_of_header_eq same
  have groups := closed_groups_eq name same
  rw [closed_groups, closed_groups] at groups
  obtain ⟨attributes, values⟩ := attributes_eq_of_closed readable.names readable'.names name groups
  obtain ⟨type, constant, rfl⟩ := values_eq_of_closed readable readable' valueless valueless'
    (isExpression_eq_of_name name) values
  rw [content, content, name, attributes, type, constant]

end Operation

end SemanticTrees
