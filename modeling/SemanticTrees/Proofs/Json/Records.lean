import SemanticTrees.Json.Record

/-! Records and alternatives that were written are read back: a decoder undoes an encoder when it
reads every part that the encoder wrote. -/
namespace SemanticTrees.Json

variable {α : Type}

theorem word_ofNat {n : Nat} (fits : n < Decoder.wordLimit) :
    Decoder.word (Value.ofNat n) = some n :=
  if_pos fits

theorem list_array {decode : Decoder α} {encode : α → Value} {xs : List α}
    (undone : ∀ x ∈ xs, decode (encode x) = some x) :
    Decoder.list decode (.array (xs.map encode)) = some xs := by
  rw [Decoder.list]
  induction xs with
  | nil => rfl
  | cons x xs ih =>
    rw [List.map_cons, List.mapM_cons, undone x List.mem_cons_self,
      ih fun y member => undone y (List.mem_cons_of_mem _ member)]
    rfl

namespace Record

theorem named_ofFields (fields : List (String × Value)) :
    named (fields.map fun (name, value) => (Key.ofString name, value)) = some fields := by
  unfold named
  induction fields with
  | nil => rfl
  | cons field rest ih =>
    rw [List.map_cons, List.mapM_cons, ih]
    rfl

theorem distinct_of_nodup {fields : List (String × Value)} (nodup : (fields.map Prod.fst).Nodup) :
    distinct fields = true := by
  induction fields with
  | nil => rfl
  | cons field rest ih =>
    obtain ⟨fresh, nodup⟩ := List.nodup_cons.mp nodup
    have absent : rest.lookup field.1 = none := by
      rw [List.lookup_eq_none_iff]
      rintro other member
      have : field.1 ≠ other.1 := fun same => fresh (same ▸ List.mem_map_of_mem member)
      simpa using this
    rw [distinct, absent, ih nodup]
    rfl

/-- The fields of a record, each written once, are given as they were written. -/
@[simp] theorem read_ofFields {names : List String} {fields : List (String × Value)}
    (written : fields.map Prod.fst = names) (nodup : names.Nodup) :
    read names (.ofFields fields) = some ⟨fields, false⟩ := by
  subst written
  have known : (fields.filter fun (name, _) => (fields.map Prod.fst).contains name) = fields :=
    List.filter_eq_self.mpr fun field member => by
      simpa using ⟨field.2, member⟩
  simp only [read, Value.ofFields, named_ofFields, known, distinct_of_nodup nodup, if_true]

/-! A field is looked up by its name among the fields that are given. -/

section Lookup

variable {name other : String} {v : Value} {rest : List (String × Value)} {positional : Bool}
  {decode : Decoder α}

@[simp] theorem required_head :
    required ⟨(name, v) :: rest, positional⟩ name decode = decode v := by
  simp [required]

@[simp] theorem required_tail (different : name ≠ other) :
    required ⟨(other, v) :: rest, positional⟩ name decode =
      required ⟨rest, positional⟩ name decode := by
  simp [required, List.lookup_cons, beq_false_of_ne different]

@[simp] theorem optional_head :
    optional ⟨(name, v) :: rest, positional⟩ name decode = decode.nullable v := by
  simp [optional]

@[simp] theorem optional_tail (different : name ≠ other) :
    optional ⟨(other, v) :: rest, positional⟩ name decode =
      optional ⟨rest, positional⟩ name decode := by
  simp [optional, List.lookup_cons, beq_false_of_ne different]

@[simp] theorem defaulted_head {default : α} :
    defaulted ⟨(name, v) :: rest, positional⟩ name decode default = decode v := by
  simp [defaulted]

@[simp] theorem defaulted_tail (different : name ≠ other) {default : α} :
    defaulted ⟨(other, v) :: rest, positional⟩ name decode default =
      defaulted ⟨rest, positional⟩ name decode default := by
  simp [defaulted, List.lookup_cons, beq_false_of_ne different]

@[simp] theorem omissible_head :
    omissible ⟨(name, v) :: rest, positional⟩ name decode = decode.nullable v :=
  defaulted_head

@[simp] theorem omissible_tail (different : name ≠ other) :
    omissible ⟨(other, v) :: rest, positional⟩ name decode =
      omissible ⟨rest, positional⟩ name decode :=
  defaulted_tail different

end Lookup

end Record

namespace Choice

@[simp] theorem fields_ofFields {name : String} {names : List String}
    {fields : List (String × Value)} {make : Record → Option α}
    (written : fields.map Prod.fst = names) (nodup : names.Nodup) :
    Choice.fields ⟨name, some (.ofFields fields)⟩ names make = make ⟨fields, false⟩ := by
  simp only [Choice.fields, carrying, Record.read_ofFields written nodup]

/-- A choice is found by its name among choices of different names. -/
theorem among_name {all : List α} {name : α → String} {x : α}
    (found : (all.find? fun y => name y == name x) = some x) :
    among all name (.string (name x)) = some x := by
  simp only [among, read, Option.bind_eq_bind, Option.bind_some, found]
  rfl

end Choice

end SemanticTrees.Json
