import SemanticTrees.Proofs.Lowering.Roots
import SemanticTrees.Proofs.Program.Tidy

/-! Where roots lie. Above a root are only declarations, so the only root with another one below it
is a method with the default of a parameter. -/
namespace SemanticTrees.Program

variable {p : Program} {node holder id whole root other : SyntaxId}

/-- A type declares a node as one of its members. -/
def Declares (p : Program) (type member : SyntaxId) : Prop :=
  ∃ name members, p.formOf type = some (.typeDeclaration name members) ∧ member ∈ members

/-- A root is a declaration itself, a parameter of a method or a declarator of a field. -/
inductive HeldBy (p : Program) (holder : SyntaxId) : SyntaxId → Prop
  | itself : HeldBy p holder holder
  | parameter {id : SyntaxId} {name : String} {parameters : List SyntaxId}
      {body : Option SyntaxId} (known : p.formOf holder = some (.method name parameters body))
      (listed : id ∈ parameters) : HeldBy p holder id
  | declarator {id : SyntaxId} {declarators : List SyntaxId}
      (known : p.formOf holder = some (.field declarators)) (listed : id ∈ declarators) :
      HeldBy p holder id

theorem hasPart_of_declares (declares : p.Declares node id) : p.HasPart node id := by
  obtain ⟨name, members, known, listed⟩ := declares
  exact hasPart_of_formOf known listed

/-- From a declaration to a root below it, the way leads through types. -/
theorem exists_holder {fuel : Nat} (listed : id ∈ p.rootsBelow fuel node) :
    ∃ holder, Relation.ReflTransGen p.Declares node holder ∧ p.HeldBy holder id := by
  induction fuel generalizing node with
  | zero => contradiction
  | succ fuel ih =>
    unfold rootsBelow at listed
    split at listed
    · next name members known =>
      obtain ⟨inner, member, below⟩ := List.mem_flatMap.mp listed
      obtain ⟨holder, path, held⟩ := ih below
      exact ⟨holder, .head ⟨name, members, known, member⟩ path, held⟩
    · next known =>
      obtain default | whole := List.mem_append.mp listed
      · exact ⟨node, .refl, .parameter known (List.mem_of_mem_filter default)⟩
      · split at whole
        · obtain rfl := List.mem_singleton.mp whole
          exact ⟨id, .refl, .itself⟩
        · contradiction
    · next known =>
      exact ⟨node, .refl, .declarator known (List.mem_of_mem_filter listed)⟩
    · obtain rfl := List.mem_singleton.mp listed
      exact ⟨id, .refl, .itself⟩
    · contradiction

theorem below_of_mem_rootsBelow {fuel : Nat} (listed : id ∈ p.rootsBelow fuel node) :
    p.Below node id := by
  obtain ⟨holder, path, held⟩ := exists_holder listed
  have below : p.Below node holder :=
    Relation.ReflTransGen.mono (fun _ _ => hasPart_of_declares) node holder path
  cases held with
  | itself => exact below
  | parameter form inside =>
    exact below.tail (hasPart_of_formOf form (List.mem_append_left _ inside))
  | declarator form inside => exact below.tail (hasPart_of_formOf form inside)

theorem exists_holder_of_mem_roots (listed : id ∈ p.roots) :
    ∃ member ∈ p.members, ∃ holder, Relation.ReflTransGen p.Declares member holder ∧
      p.HeldBy holder id := by
  obtain ⟨member, declared, below⟩ := List.mem_flatMap.mp listed
  exact ⟨member, declared, exists_holder below⟩

/-- What lies below different declarations is different. -/
theorem nodup_flatMap_rootsBelow {ids : List SyntaxId} {fuel : Nat}
    (disjoint : ids.Pairwise p.Disjoint) (each : ∀ id ∈ ids, (p.rootsBelow fuel id).Nodup) :
    (ids.flatMap (p.rootsBelow fuel)).Nodup := by
  refine List.nodup_flatMap.mpr ⟨each, disjoint.imp ?_⟩
  intro a b apart id left right
  exact apart id (below_of_mem_rootsBelow left) (below_of_mem_rootsBelow right)

namespace Tidy

variable (tidy : p.Tidy)
include tidy

/-- What lies above a declaration of a type is a type. -/
theorem eq_or_declares_of_below {member : SyntaxId} (top : p.IsTop member)
    (path : Relation.ReflTransGen p.Declares member holder) (below : p.Below id holder) :
    id = holder ∨ ∃ inner, p.Declares id inner := by
  induction path with
  | refl =>
    obtain same | ⟨whole, _, known⟩ := Relation.ReflTransGen.cases_tail below
    · exact .inl same.symm
    · exact absurd known (top whole)
  | @tail type holder _ declares ih =>
    by_cases same : id = holder
    · exact .inl same
    · have above := tidy.below_whole below same (hasPart_of_declares declares)
      obtain rfl | further := ih above
      · exact .inr ⟨holder, declares⟩
      · exact .inr further

/-- The whole of a root is a declaration, so it is no argument. -/
theorem not_isArgument_of_root (listed : id ∈ p.roots) (known : p.HasPart whole id) :
    ¬p.IsArgument whole := by
  rintro ⟨_, _, _, argument⟩
  obtain ⟨member, declared, holder, path, held⟩ := exists_holder_of_mem_roots listed
  cases held with
  | itself =>
    obtain rfl | ⟨type, _, declares⟩ := Relation.ReflTransGen.cases_tail path
    · exact tidy.free id declared whole known
    · obtain rfl := tidy.whole_unique known (hasPart_of_declares declares)
      obtain ⟨_, _, form, _⟩ := declares
      exact nomatch argument.symm.trans form
  | parameter form inside =>
    obtain rfl := tidy.whole_unique known (hasPart_of_formOf form (List.mem_append_left _ inside))
    exact nomatch argument.symm.trans form
  | declarator form inside =>
    obtain rfl := tidy.whole_unique known (hasPart_of_formOf form inside)
    exact nomatch argument.symm.trans form

theorem nodup_rootsBelow (fuel : Nat) (id : SyntaxId) : (p.rootsBelow fuel id).Nodup := by
  induction fuel generalizing id with
  | zero => exact List.nodup_nil
  | succ fuel ih =>
    have nodup {form : Form} (known : p.formOf id = some form) : form.children.Nodup :=
      childrenOf_of_formOf known ▸ tidy.nodup_childrenOf id
    unfold rootsBelow
    split
    · next known =>
      exact nodup_flatMap_rootsBelow (tidy.pairwise_disjoint_children known) fun id _ => ih id
    · next known =>
      refine List.nodup_append.mpr ⟨(List.nodup_append.mp (nodup known)).1.filter _, ?_, ?_⟩
      · split
        · exact List.nodup_singleton id
        · exact List.nodup_nil
      · rintro part listed _ whole rfl
        split at whole
        · obtain rfl := List.mem_singleton.mp whole
          have own := hasPart_of_formOf known
            (List.mem_append_left _ (List.mem_of_mem_filter listed))
          exact tidy.acyclic.not_below own .refl
        · contradiction
    · next known => exact (nodup known).filter _
    · exact List.nodup_singleton id
    · exact List.nodup_nil

/-- No root is listed twice. -/
theorem nodup_roots : p.roots.Nodup := by
  refine nodup_flatMap_rootsBelow ?_ fun id _ => tidy.nodup_rootsBelow _ id
  exact tidy.distinct.imp_of_mem fun left right other =>
    tidy.disjoint_tops (tidy.free _ left) (tidy.free _ right) other

/-- A root with another one below it is a method, and the other one is one of its parameters. -/
theorem method_of_nested_roots (upper : root ∈ p.roots) (lower : other ∈ p.roots)
    (below : p.Below root other) (different : root ≠ other) :
    ∃ name parameters body, p.formOf root = some (.method name parameters body) ∧
      other ∈ parameters := by
  obtain ⟨form, known, analysed⟩ := form_of_mem_roots upper
  have type_free {inner : SyntaxId} : ¬p.Declares root inner := by
    rintro ⟨name, members, same, _⟩
    obtain rfl := Option.some.inj (known.symm.trans same)
    exact analysed
  obtain ⟨member, declared, holder, path, held⟩ := exists_holder_of_mem_roots lower
  have is_holder (above : p.Below root holder) : root = holder := by
    obtain same | ⟨inner, declares⟩ :=
      tidy.eq_or_declares_of_below (tidy.free member declared) path above
    · exact same
    · exact absurd declares type_free
  cases held with
  | itself => exact absurd (is_holder below) different
  | parameter form inside =>
    have part := hasPart_of_formOf form (List.mem_append_left _ inside)
    obtain rfl := is_holder (tidy.below_whole below different part)
    exact ⟨_, _, _, form, inside⟩
  | declarator form inside =>
    obtain rfl := is_holder (tidy.below_whole below different (hasPart_of_formOf form inside))
    obtain rfl := Option.some.inj (known.symm.trans form)
    exact analysed.elim

end Tidy

end SemanticTrees.Program
