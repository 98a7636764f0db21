import SemanticTrees.Proofs.Lowering.Translating

/-! Names and member accesses are lowered alike in programs that translate one another. -/
namespace SemanticTrees.Context

variable {τ : Translation} {c c' : Context} (h : c.Translates τ c') {K : Coupling τ} {w : Stores}
  {r : SortedRelation} {id id' receiver receiver' : SyntaxId}

theorem admits_lateBound (id : SyntaxId) {kind : OperationKind}
    (fits : OperationSort.expression.admits kind = true) :
    OperationSort.expression.admits (c.lateBound kind id).kind = true := by
  unfold lateBound
  dsimp only
  split <;> simpa [valued, plain, Operation.plain] using fits

include h

theorem implicitReceiver_couples (member : SymbolId) (nodes : τ.nodes id id') :
    K.Couples w (c.implicitReceiver member id) (c'.implicitReceiver (τ.symbols member) id')
      (K.link? .expression) := by
  unfold implicitReceiver
  rw [h.symbol? member]
  cases c.symbol? member with
  | none => exact .none
  | some symbol =>
    simp only [Option.map_some, Symbol.rename]
    split
    · exact .none
    · have alike := (plain_alike h (r := fun ρ => K.link ρ w) .instanceReference nodes).withType
        symbol.containingType
      exact .some (.emit alike.implicit
        rfl)

theorem firstImplicitReceiver_couples (candidates : List SymbolId) (nodes : τ.nodes id id') :
    K.Couples w (c.firstImplicitReceiver id candidates)
      (c'.firstImplicitReceiver id' (candidates.map τ.symbols)) (K.link? .expression) := by
  induction candidates generalizing w with
  | nil => exact .none
  | cons member rest ih =>
    refine (implicitReceiver_couples h member nodes).bind fun v _ receiver receiver' linked => ?_
    cases linked with
    | none => exact ih
    | some linked => exact .pure (K.lasts_link? _) (.some linked)

theorem referenceKind_alike (symbol : SymbolId) {receiver receiver' : Option OperationId}
    (receivers : Option.Rel (r .expression) receiver receiver') :
    Option.Rel (fun kind kind' => kind.Alike τ r kind' ∧
        OperationSort.expression.admits kind = true)
      (c.referenceKind symbol receiver) (c'.referenceKind (τ.symbols symbol) receiver') := by
  unfold referenceKind
  rw [h.symbol? symbol]
  cases c.symbol? symbol with
  | none => exact .none
  | some info =>
    simp only [Option.map_some, Symbol.rename]
    cases info.kind with
    | localVariable => exact .some ⟨.localReference symbol, rfl⟩
    | parameter => exact .some ⟨.parameterReference symbol, rfl⟩
    | field => exact .some ⟨.fieldReference symbol receivers, rfl⟩
    | property => exact .some ⟨.propertyReference symbol receivers .nil, rfl⟩
    | method => exact .some ⟨.methodReference symbol info.isVirtual receivers, rfl⟩
    | indexer | constructor | type | lambda => exact .none

theorem reference_couples (symbol : SymbolId) {receiver receiver' : Option OperationId}
    (receivers : K.link? .expression w receiver receiver') (nodes : τ.nodes id id') :
    K.Couples w (c.reference id symbol receiver) (c'.reference id' (τ.symbols symbol) receiver')
      (K.link .expression) := by
  have kinds := referenceKind_alike h (r := fun ρ => K.link ρ w) symbol receivers
  unfold reference
  generalize c.referenceKind symbol receiver = kind at kinds ⊢
  generalize c'.referenceKind (τ.symbols symbol) receiver' = kind' at kinds ⊢
  cases kinds with
  | none => exact invalidExpression_couples h (forall₂_toList receivers) nodes
  | some alike => exact emitValued_couples h alike.1 alike.2 nodes

theorem lateBound_alike {kind kind' : OperationKind} (kinds : kind.Alike τ r kind')
    (nodes : τ.nodes id id') : (c.lateBound kind id).Alike τ r (c'.lateBound kind' id') := by
  have valued := valued_alike h kinds nodes
  unfold lateBound
  dsimp only
  rw [valued.type, Option.isSome_map, h.dynamicType]
  split
  · exact valued
  · exact valued.withType c.dynamicType

theorem knownContainingType_eq {receiver receiver' : Option SyntaxId}
    (receivers : Option.Rel τ.nodes receiver receiver') (candidates : List SymbolId) :
    c'.knownContainingType receiver' (candidates.map τ.symbols) =
      (c.knownContainingType receiver candidates).map τ.types := by
  have containing (symbol : SymbolId) : (c'.symbol? (τ.symbols symbol)).bind Symbol.containingType =
      ((c.symbol? symbol).bind Symbol.containingType).map τ.types := by
    rw [h.symbol? symbol]
    cases c.symbol? symbol <;> rfl
  have found : (candidates.map τ.symbols).findSome?
      (fun member => (c'.symbol? member).bind Symbol.containingType) =
        (candidates.findSome? fun member => (c.symbol? member).bind Symbol.containingType).map
          τ.types := by
    rw [List.findSome?_map, List.map_findSome?]
    exact congrArg (List.findSome? · candidates) (funext containing)
  unfold knownContainingType
  rw [found]
  cases receivers with
  | none => simp
  | some nodes =>
    simp only [Option.any_some, h.isDynamic nodes, Option.bind_some, h.typeOf nodes]
    split
    · rfl
    · rw [Option.map_or]

theorem receiver_couples
    (calls : Coupled K c c' (c.receiverParts receiver) (c'.receiverParts receiver'))
    (receivers : τ.nodes receiver receiver') :
    K.Couples w (c.expression? (if c.isTypeName receiver then none else some receiver))
      (c'.expression? (if c'.isTypeName receiver' then none else some receiver'))
      (K.link? .expression) := by
  unfold receiverParts at calls
  rw [h.isTypeName receivers] at calls ⊢
  split
  · exact .none
  · next value =>
    rw [if_neg value, if_neg value] at calls
    exact (calls.expression List.mem_cons_self List.mem_cons_self receivers).some

theorem lateBoundReceiver_couples {receiver receiver' : Option SyntaxId}
    (calls : ∀ i ∈ receiver, ∀ j ∈ receiver',
      Coupled K c c' (c.receiverParts i) (c'.receiverParts j))
    (receivers : Option.Rel τ.nodes receiver receiver') (candidates : List SymbolId)
    (nodes : τ.nodes id id') :
    K.Couples w (c.lateBoundReceiver id receiver candidates)
      (c'.lateBoundReceiver id' receiver' (candidates.map τ.symbols)) (K.link? .expression) := by
  cases receivers with
  | none => exact firstImplicitReceiver_couples h candidates nodes
  | @some receiver receiver' receivers =>
    have taken := receiver_couples h (w := w) (calls receiver rfl receiver' rfl) receivers
    unfold lateBoundReceiver
    dsimp only
    rw [h.isTypeName receivers] at taken ⊢
    split
    · exact .none
    · next value =>
      rw [if_neg value, if_neg value] at taken
      exact taken

theorem lateBoundMember_couples {receiver receiver' : Option SyntaxId}
    (calls : ∀ i ∈ receiver, ∀ j ∈ receiver',
      Coupled K c c' (c.receiverParts i) (c'.receiverParts j))
    (receivers : Option.Rel τ.nodes receiver receiver') (name : String)
    (typeArguments : List TypeId) (candidates : List SymbolId) (called : Bool)
    (nodes : τ.nodes id id') :
    K.Couples w (c.lateBoundMember id receiver name typeArguments candidates called)
      (c'.lateBoundMember id' receiver' name (typeArguments.map τ.types)
        (candidates.map τ.symbols) called) (K.link .expression) := by
  unfold lateBoundMember
  dsimp only
  refine (lateBoundReceiver_couples h calls receivers candidates nodes).bind
    fun v _ target target' linked => ?_
  have accesses : DynamicAccess.Alike τ (fun ρ => K.link ρ v)
      { DynamicAccess.unknown with
        memberName := name
        containingType := c.knownContainingType receiver candidates
        typeArguments
        receiver := target }
      { DynamicAccess.unknown with
        memberName := name
        containingType := c'.knownContainingType receiver' (candidates.map τ.symbols)
        typeArguments := typeArguments.map τ.types
        receiver := target' } :=
    ⟨rfl, knownContainingType_eq h receivers candidates, rfl, linked, .nil, rfl, rfl⟩
  rw [List.isEmpty_map, h.flagTypeArguments]
  refine .emit ((lateBound_alike h (.dynamicMemberReference accesses rfl) nodes).invalidIf _) ?_
  exact admits_lateBound id rfl

theorem name_couples (name : String) (same : τ.same id id') :
    K.Couples w (c.name id name) (c'.name id' name) (K.link .expression) := by
  have nodes := τ.nodes_of_same same
  have unknown : K.Couples w (c.invalidExpression id []) (c'.invalidExpression id' [])
      (K.link .expression) :=
    invalidExpression_couples h .nil nodes
  have known (symbol : SymbolId) : K.Couples w
      (do
        let receiver ← c.implicitReceiver symbol id
        c.reference id symbol receiver)
      (do
        let receiver ← c'.implicitReceiver (τ.symbols symbol) id'
        c'.reference id' (τ.symbols symbol) receiver)
      (K.link .expression) :=
    (implicitReceiver_couples h symbol nodes).bind fun v _ receiver receiver' linked =>
      reference_couples h symbol linked nodes
  have resolution := h.program.resolutionOf same
  unfold Context.name
  rw [h.program.symbolOf same]
  generalize c.program.symbolOf id = symbol
  generalize c.program.resolutionOf id = found at resolution ⊢
  generalize c'.program.resolutionOf id' = found' at resolution ⊢
  cases resolution with
  | none =>
    cases symbol with
    | none => exact unknown
    | some symbol => exact known symbol
  | some alike =>
    cases alike with
    | resolved member bound | failed reason candidates =>
      cases symbol with
      | none => exact unknown
      | some symbol => exact known symbol
    | lateBound candidates =>
      exact lateBoundMember_couples h (by simp) .none name [] candidates false nodes

theorem boundMember_eq (same : τ.same id id') :
    c'.boundMember id' = (c.boundMember id).map τ.symbols := by
  have resolution := h.program.resolutionOf same
  unfold boundMember
  rw [h.program.symbolOf same]
  generalize c.program.resolutionOf id = found at resolution ⊢
  generalize c'.program.resolutionOf id' = found' at resolution ⊢
  cases resolution with
  | none => rfl
  | some alike => cases alike <;> rfl

theorem isStatic_eq (symbol : SymbolId) : c'.isStatic (τ.symbols symbol) = c.isStatic symbol := by
  unfold isStatic
  rw [h.symbol? symbol, Option.any_map]
  rfl

theorem isLateBoundAccess_eq (same : τ.same id id') (receivers : τ.nodes receiver receiver') :
    c'.isLateBoundAccess id' receiver' = c.isLateBoundAccess id receiver := by
  have resolution := h.program.resolutionOf same
  unfold isLateBoundAccess
  rw [h.isDynamic receivers]
  generalize c.program.resolutionOf id = found at resolution ⊢
  generalize c'.program.resolutionOf id' = found' at resolution ⊢
  cases resolution with
  | none => rfl
  | some alike => cases alike <;> rfl

theorem candidatesOf_eq (same : τ.same id id') (otherwise : List SymbolId) :
    c'.candidatesOf id' (otherwise.map τ.symbols) =
      (c.candidatesOf id otherwise).map τ.symbols := by
  have resolution := h.program.resolutionOf same
  unfold candidatesOf
  generalize c.program.resolutionOf id = found at resolution ⊢
  generalize c'.program.resolutionOf id' = found' at resolution ⊢
  cases resolution with
  | none => rfl
  | some alike => cases alike <;> rfl

theorem memberAccess_couples
    (calls : Coupled K c c' (c.memberParts id receiver) (c'.memberParts id' receiver'))
    (receivers : τ.nodes receiver receiver') (name : String) (typeArguments : List TypeId)
    (same : τ.same id id') :
    K.Couples w (c.memberAccess id receiver name typeArguments)
      (c'.memberAccess id' receiver' name (typeArguments.map τ.types)) (K.link .expression) := by
  have nodes := τ.nodes_of_same same
  have bound : (c'.boundMember id').any c'.isStatic = (c.boundMember id).any c.isStatic := by
    rw [boundMember_eq h same, Option.any_map]
    exact congrArg (Option.any · _) (funext (isStatic_eq h))
  unfold memberAccess
  unfold memberParts at calls
  rw [isLateBoundAccess_eq h same receivers] at calls ⊢
  rw [bound] at calls
  by_cases late : c.isLateBoundAccess id receiver = true
  · simp only [late, ↓reduceIte, Bool.not_true, Bool.false_and, Bool.false_eq_true] at calls ⊢
    have candidates : c'.candidatesOf id' [] = (c.candidatesOf id []).map τ.symbols :=
      candidatesOf_eq h same []
    rw [candidates]
    refine lateBoundMember_couples h ?_ (.some receivers) name typeArguments _ false nodes
    rintro _ ⟨⟩ _ ⟨⟩
    exact calls
  · simp only [late, ↓reduceIte, Bool.not_false, Bool.true_and, Bool.false_eq_true] at calls ⊢
    rw [boundMember_eq h same]
    cases found : c.boundMember id with
    | none =>
      rw [found] at calls
      exact (receiver_couples h calls receivers).bind fun v _ target target' linked =>
        invalidExpression_couples h (forall₂_toList linked) nodes
    | some member =>
      rw [found] at calls
      have last (v : Stores) (target target' : Option OperationId)
          (linked : K.link? .expression v target target') :
          K.Couples v (c.reference id member target) (c'.reference id' (τ.symbols member) target')
            (K.link .expression) :=
        reference_couples h member linked nodes
      simp only [Option.map_some, isStatic_eq h]
      cases static : c.isStatic member with
      | true =>
        simp only [Bool.not_true, Bool.and_false, Bool.false_eq_true, ↓reduceIte]
        exact Coupling.Couples.none.bind fun v _ => last v
      | false =>
        simp only [Option.any_some, static, Bool.false_eq_true, ↓reduceIte] at calls
        have taken := receiver_couples h (w := w) calls receivers
        cases named : c.isTypeName receiver <;>
          simp only [h.isTypeName receivers, named, Bool.not_true, Bool.not_false, Bool.and_true,
            Bool.false_eq_true, ↓reduceIte] at taken ⊢ <;>
          exact taken.bind fun v _ => last v

end SemanticTrees.Context
