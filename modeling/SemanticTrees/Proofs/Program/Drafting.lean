import SemanticTrees.Proofs.Program.Placement

/-! Steps of putting a program together. A step on a sound draft leads to a sound one in which no
entry got lost, so what is known of identifiers stays known from step to step. The types and
bindings that a step finds out by itself are in the tables because all references of a draft are. -/
namespace SemanticTrees

namespace Program

variable {p q : Program} {f : Facts}

/-- Every symbol and every argument that a resolution mentions is there. -/
structure ResolutionInRange (p : Program) (r : Resolution) : Prop where
  candidate : ∀ symbol ∈ r.candidates, p.HasSymbol symbol
  binding : ∀ member bindings, r = .resolved member bindings → ∀ binding ∈ bindings,
    p.HasSymbol binding.parameter ∧ ∀ argument ∈ binding.argument, p.HasNode argument

theorem ResolutionInRange.mono {r : Resolution} (known : p.ResolutionInRange r)
    (grown : p.Grows q) : q.ResolutionInRange r where
  candidate symbol listed := (known.candidate symbol listed).mono grown
  binding member bindings resolved binding listed := by
    obtain ⟨parameter, argument⟩ := known.binding member bindings resolved binding listed
    exact ⟨parameter.mono grown, fun a given => (argument a given).mono grown⟩

namespace FactsInRange

variable (known : p.FactsInRange f)
include known

theorem withType {type : TypeId} (there : p.HasType type) :
    p.FactsInRange { f with type := some type } :=
  { known with type := fun _ same => Option.some.inj same ▸ there }

theorem withConversion {conversion : Conversion} (there : p.HasType conversion.target) :
    p.FactsInRange { f with conversion := some conversion } :=
  { known with target := fun _ same => Option.some.inj same ▸ there }

theorem withSymbol {symbol : SymbolId} (there : p.HasSymbol symbol) :
    p.FactsInRange { f with symbol := some symbol } :=
  { known with symbol := fun _ same => Option.some.inj same ▸ there }

theorem withResolution {r : Resolution} (there : p.ResolutionInRange r) :
    p.FactsInRange { f with resolution := some r } :=
  { known with
    candidate := fun _ same => Option.some.inj same ▸ there.candidate
    binding := fun member bindings same =>
      there.binding member bindings (Option.some.inj same) }

theorem withConstant (constant : Option Constant) : p.FactsInRange { f with constant } :=
  ⟨known.type, known.target, known.symbol, known.candidate, known.binding⟩

end FactsInRange

theorem symbolInRange_plain {name : String} {kind : SymbolKind} {type : Option TypeId}
    (there : ∀ t ∈ type, p.HasType t) : p.SymbolInRange (.plain name kind type) where
  type := there
  containingType _ none := nomatch none
  parameter _ none := nomatch none

/-- Parameters are bound to the arguments of the call. -/
theorem mem_of_bindParameters {arguments unnamed : List SyntaxId} {parameters : List SymbolId}
    {binding : Binding} (given : unnamed ⊆ arguments)
    (listed : binding ∈ p.bindParameters arguments parameters unnamed) :
    binding.parameter ∈ parameters ∧ ∀ argument ∈ binding.argument, argument ∈ arguments := by
  have later {id : SymbolId} {rest : List SymbolId} (known : binding.parameter ∈ rest ∧
      ∀ argument ∈ binding.argument, argument ∈ arguments) : binding.parameter ∈ id :: rest ∧
      ∀ argument ∈ binding.argument, argument ∈ arguments :=
    ⟨List.mem_cons_of_mem _ known.1, known.2⟩
  -- What is left of the arguments without a name stays among those of the call.
  fun_induction bindParameters p arguments parameters unnamed with
  | case1 => contradiction
  | case2 id rest unnamed missing ih => exact later (ih given listed)
  | case3 id rest unnamed parameter found collecting ih =>
    obtain collected | listed := List.mem_append.mp listed
    · obtain ⟨argument, left, rfl⟩ := List.mem_map.mp collected
      exact ⟨List.mem_cons_self, fun _ same => Option.some.inj same ▸ given left⟩
    · exact later (ih (List.nil_subset _) listed)
  | case4 id rest parameter found plain argument unnamed named ih =>
    obtain rfl | listed := List.mem_cons.mp listed
    · have written : argument ∈ arguments := List.mem_of_find?_eq_some named
      exact ⟨List.mem_cons_self, fun _ same => Option.some.inj same ▸ written⟩
    · exact later (ih given listed)
  | case5 id rest parameter found plain argument unnamed named ih =>
    obtain ⟨first, given⟩ := List.cons_subset.mp given
    obtain rfl | listed := List.mem_cons.mp listed
    · exact ⟨List.mem_cons_self, fun _ same => Option.some.inj same ▸ first⟩
    · exact later (ih given listed)
  | case6 id rest parameter found plain named default ih =>
    obtain rfl | listed := List.mem_cons.mp listed
    · exact ⟨List.mem_cons_self, fun _ none => nomatch none⟩
    · exact later (ih given listed)
  | case7 id rest parameter found plain named required ih => exact later (ih given listed)

/-- The bindings of a call mention symbols and nodes that are there. -/
theorem binding_inRange {member : SymbolId} {arguments : List SyntaxId}
    (symbols : ∀ (id : SymbolId) (s : Symbol), p.symbols[id]? = some s → p.SymbolInRange s)
    (nodes : ∀ argument ∈ arguments, p.HasNode argument) {binding : Binding}
    (listed : binding ∈ p.bindArguments member arguments) :
    p.HasSymbol binding.parameter ∧ ∀ argument ∈ binding.argument, p.HasNode argument := by
  unfold bindArguments at listed
  split at listed
  · contradiction
  · next s found =>
    obtain ⟨parameter, argument⟩ :=
      mem_of_bindParameters (List.filter_subset_self _) listed
    exact ⟨(symbols member s found).parameter _ parameter,
      fun a given => nodes a (argument a given)⟩

end Program

/-- The symbols that an outcome mentions. -/
def Drafting.Outcome.symbols : Outcome → List SymbolId
  | .bound member => [member]
  | .lateBound candidates => candidates
  | .failed _ candidates => candidates

namespace Draft

open Program Drafting

variable {α β : Type} {d d' : Draft} {step : Drafting α} {post mid : Program → α → Prop}

theorem InRange.factsInRange (known : d.InRange) (id : SyntaxId) :
    d.program.FactsInRange (d.program.factsOf id) := by
  unfold Program.factsOf
  rw [Std.TreeMap.getD_eq_getD_getElem?]
  cases found : d.program.facts[id]? with
  | none => exact factsInRange_unknown d.program
  | some f => exact (known.facts id f found).2

/-- What a step returns. -/
def result (d : Draft) (step : Drafting α) : α := (step.run d).1

/-- A step leads from one draft to a sound one with no entry lost, and `post` is known of what it
returns. -/
structure Leads (d : Draft) (step : Drafting α) (post : Program → α → Prop) : Prop where
  sound : (d.after step).Sound
  grown : d.program.Grows (d.after step).program
  post : post (d.after step).program (d.result step)

namespace Leads

theorem pure (sound : d.Sound) {a : α} (known : post d.program a) : d.Leads (pure a) post :=
  ⟨sound, .refl _, known⟩

theorem bind {rest : α → Drafting β} {post : Program → β → Prop} (first : d.Leads step mid)
    (next : ∀ (d' : Draft) (a : α), d'.Sound → d.program.Grows d'.program → mid d'.program a →
      d'.Leads (rest a) post) : d.Leads (step >>= rest) post := by
  have last := next _ _ first.sound first.grown first.post
  exact ⟨last.sound, first.grown.trans last.grown, last.post⟩

/-- A step that only reads can be left out. -/
theorem read {rest : α → Drafting β} {post : Program → β → Prop} (same : d.after step = d)
    (next : d.Leads (rest (d.result step)) post) : d.Leads (step >>= rest) post := by
  have last : (d.after step).Leads (rest (d.result step)) post := by rwa [same]
  have grown : d.program.Grows (d.after step).program := by
    rw [same]
    exact .refl _
  exact ⟨last.sound, grown.trans last.grown, last.post⟩

end Leads

variable {id : SyntaxId} {form : Form}

/-- A draft stays sound when no form, member or diagnostic is touched. -/
theorem Sound.extend (sound : d.Sound) (assembled : d'.Assembled)
    (forms : ∀ id form, d.program.formOf id = some form → d'.program.formOf id = some form)
    (members : d'.program.members = d.program.members)
    (diagnostics : d'.program.diagnostics = d.program.diagnostics) : d'.Sound where
  assembled := assembled
  member id listed := by
    obtain ⟨form, found, member⟩ := sound.member id (members ▸ listed)
    exact ⟨form, forms id form found, member⟩
  diagnostic x listed := sound.diagnostic x (diagnostics ▸ listed)

theorem run_look (f : Program → α) : (look f).run d = Pure.pure (f d.program, d) := rfl

theorem result_type (name : String) (kind : TypeKind) : d.result (Drafting.type name kind) =
    (d.program.types.find name).getD d.program.types.size := by
  unfold result Drafting.type
  rw [StateT.run_bind, run_look, pure_bind]
  cases d.program.types.find name <;> rfl

theorem leads_type (sound : d.Sound) (name : String) (kind : TypeKind)
    (issued : ∀ inner ∈ kind.inner, d.program.HasType inner) :
    d.Leads (Drafting.type name kind) HasType := by
  have assembled := sound.assembled.type name kind issued
  cases found : d.program.types.find name with
  | some id =>
    have same : d.after (Drafting.type name kind) = d := by rw [after_type, found]
    refine ⟨same.symm ▸ sound, same.symm ▸ .refl _, ?_⟩
    rw [result_type, found, same]
    exact (Array.findIdx?_eq_some_iff_getElem.mp found).1
  | none =>
    have next : d.after (Drafting.type name kind) = { d with program :=
        { d.program with types := d.program.types.push ⟨name, kind⟩ } } := by
      rw [after_type, found]
    rw [next] at assembled
    refine ⟨?_, ?_, ?_⟩
    · rw [next]
      exact sound.extend assembled (fun _ _ found => found) rfl rfl
    · rw [next]
      exact ⟨by simp, Nat.le_refl _, Nat.le_refl _⟩
    · rw [result_type, found, next]
      simp [HasType]

theorem leads_symbol (sound : d.Sound) {s : Symbol} (known : d.program.SymbolInRange s) :
    d.Leads (Drafting.symbol s) HasSymbol where
  sound := sound.extend (sound.assembled.symbol s known) (fun _ _ found => found) rfl rfl
  grown := ⟨Nat.le_refl _, by rw [after_symbol]; simp, Nat.le_refl _⟩
  post := by
    rw [after_symbol]
    change d.program.symbols.size < (d.program.symbols.push s).size
    simp

theorem leads_node (sound : d.Sound) (known : d.program.FormInRange form) :
    d.Leads (Drafting.node form) HasNode where
  sound := by
    refine sound.extend (sound.assembled.node form known.child known.typeNamed) ?_ rfl rfl
    intro id old found
    rw [formOf_after_node, if_neg (Nat.ne_of_lt (lt_of_formOf found))]
    exact found
  grown := ⟨Nat.le_refl _, Nat.le_refl _, by rw [after_node]; simp⟩
  post := by
    rw [after_node]
    change d.program.nodes.size < (d.program.nodes.push _).size
    simp

theorem leads_changeFacts (sound : d.Sound) (there : d.program.HasNode id) {f : Facts → Facts}
    (known : d.program.FactsInRange (f (d.program.factsOf id))) :
    d.Leads (changeFacts id f) fun _ _ => True where
  sound := sound.extend (sound.assembled.changeFacts id f there known) (fun _ _ found => found)
    rfl rfl
  grown := ⟨Nat.le_refl _, Nat.le_refl _, Nat.le_refl _⟩
  post := trivial

theorem leads_changeSymbol (sound : d.Sound) (id : SymbolId) {f : Symbol → Symbol}
    (known : ∀ s, d.program.symbols[id]? = some s → d.program.SymbolInRange (f s)) :
    d.Leads (changeSymbol id f) fun _ _ => True where
  sound := sound.extend (sound.assembled.changeSymbol id f known) (fun _ _ found => found) rfl rfl
  grown := ⟨Nat.le_refl _, by rw [after_changeSymbol]; simp, Nat.le_refl _⟩
  post := trivial

theorem leads_addMember (sound : d.Sound) (found : d.program.formOf id = some form)
    (declaration : form.isMember = true) : d.Leads (addMember id) fun _ _ => True where
  sound := by
    refine ⟨sound.assembled.addMember id (lt_of_formOf found), ?_, sound.diagnostic⟩
    intro member listed
    obtain old | new := List.mem_append.mp listed
    · exact sound.member member old
    · obtain rfl := List.mem_singleton.mp new
      exact ⟨form, found, declaration⟩
  grown := ⟨Nat.le_refl _, Nat.le_refl _, Nat.le_refl _⟩
  post := trivial

theorem leads_report (sound : d.Sound) {x : Diagnostic} (ordered : x.span.start ≤ x.span.stop) :
    d.Leads (report x) fun _ _ => True where
  sound := by
    refine ⟨sound.assembled.report x, sound.member, ?_⟩
    intro y listed
    obtain old | new := List.mem_append.mp listed
    · exact sound.diagnostic y old
    · obtain rfl := List.mem_singleton.mp new
      exact ordered
  grown := ⟨Nat.le_refl _, Nat.le_refl _, Nat.le_refl _⟩
  post := trivial

theorem leads_reportAt (sound : d.Sound) (there : d.program.HasNode id) (category : Category)
    (code : Nat) (text : String) :
    d.Leads (reportAt id category code text) fun _ _ => True where
  sound := sound.extend (sound.assembled.reportAt id category code text there)
    (fun _ _ found => found) rfl rfl
  grown := ⟨Nat.le_refl _, Nat.le_refl _, Nat.le_refl _⟩
  post := trivial

/-! ### Steps that are made of others -/

theorem leads_pointerTo (sound : d.Sound) {pointee : TypeId} (there : d.program.HasType pointee) :
    d.Leads (pointerTo pointee) HasType :=
  .read rfl (leads_type sound _ _ there.some)

theorem leads_arrayOf (sound : d.Sound) {element : TypeId} (there : d.program.HasType element) :
    d.Leads (arrayOf element) HasType :=
  .read rfl (leads_type sound _ _ there.some)

/-- A fact is recorded at a node, which is returned. -/
theorem leads_recorded (sound : d.Sound) (there : d.program.HasNode id) {f : Facts → Facts}
    (known : d.program.FactsInRange (f (d.program.factsOf id))) :
    d.Leads (do changeFacts id f; return id) HasNode := by
  refine .bind (leads_changeFacts sound there known) ?_
  intro d' _ sound grown _
  exact .pure sound (there.mono grown)

theorem leads_setType (sound : d.Sound) (there : d.program.HasNode id) {type : TypeId}
    (known : d.program.HasType type) : d.Leads (setType id type) HasNode :=
  leads_recorded sound there ((sound.assembled.inRange.factsInRange id).withType known)

theorem leads_convert (sound : d.Sound) (there : d.program.HasNode id) (kind : ConversionKind)
    {target : TypeId} (known : d.program.HasType target) :
    d.Leads (convert id kind target) HasNode :=
  leads_recorded sound there ((sound.assembled.inRange.factsInRange id).withConversion known)

theorem leads_named (sound : d.Sound) (there : d.program.HasNode id) {symbol : SymbolId}
    (known : d.program.HasSymbol symbol) : d.Leads (named id symbol) HasNode :=
  leads_recorded sound there ((sound.assembled.inRange.factsInRange id).withSymbol known)

theorem leads_resolved (sound : d.Sound) (there : d.program.HasNode id) {r : Resolution}
    (known : d.program.ResolutionInRange r) : d.Leads (resolved id r) HasNode :=
  leads_recorded sound there ((sound.assembled.inRange.factsInRange id).withResolution known)

theorem leads_typed (sound : d.Sound) (form : Form) (known : d.program.FormInRange form)
    {type : Option TypeId} (there : ∀ t ∈ type, d.program.HasType t) :
    d.Leads (typed form type) HasNode := by
  refine .bind (leads_node sound known) ?_
  intro d' id sound grown node
  cases type with
  | none => exact .pure sound node
  | some type => exact leads_setType sound node ((there type rfl).mono grown)

theorem Leads.named {step : Drafting SyntaxId} (node : d.Leads step HasNode) {symbol : SymbolId}
    (known : d.program.HasSymbol symbol) : d.Leads (do named (← step) symbol) HasNode := by
  refine node.bind ?_
  intro d' id sound grown there
  exact leads_named sound there (known.mono grown)

theorem Leads.resolved {step : Drafting SyntaxId} (node : d.Leads step HasNode) {r : Resolution}
    (known : d.program.ResolutionInRange r) : d.Leads (do resolved (← step) r) HasNode := by
  refine node.bind ?_
  intro d' id sound grown there
  exact leads_resolved sound there (known.mono grown)

/-- A type that a step returns is one that is known. -/
theorem Leads.some_type {step : Drafting TypeId} (type : d.Leads step HasType) :
    d.Leads (do return some (← step)) fun p type => ∀ t ∈ type, p.HasType t := by
  refine type.bind ?_
  intro d' type sound _ there
  exact .pure sound there.some

theorem leads_literal (sound : d.Sound) (text : String) (constant : Constant)
    {type : Option TypeId} (there : ∀ t ∈ type, d.program.HasType t) :
    d.Leads (literal text constant type) HasNode := by
  refine .bind (leads_typed sound (.literal text) (formInRange_leaf rfl rfl) there) ?_
  intro d' id sound grown node
  exact leads_recorded sound node ((sound.assembled.inRange.factsInRange id).withConstant _)

/-- A literal of a type that is not made of another one. -/
theorem leads_constant (sound : d.Sound) {text name : String} {constant : Constant}
    {kind : TypeKind} (plain : kind.inner = none) :
    d.Leads (do literal text constant (some (← Drafting.type name kind))) HasNode := by
  refine .bind (leads_type sound name kind (plain ▸ hasType_none _)) ?_
  intro d' type sound _ there
  exact leads_literal sound text constant there.some

/-! ### What steps read -/

theorem after_nameType (symbol : SymbolId) : d.after (nameType symbol) = d := by
  unfold after nameType
  rw [StateT.run_bind, run_look, pure_bind]
  dsimp only
  split
  · split <;> rfl
  · rfl

theorem result_nameType {symbol : SymbolId} {type : TypeId}
    (read : d.result (nameType symbol) = some type) :
    ∃ s, d.program.symbols[symbol]? = some s ∧ s.type = some type := by
  unfold result nameType at read
  rw [StateT.run_bind, run_look, pure_bind] at read
  dsimp only at read
  split at read
  · next s found =>
    split at read
    · contradiction
    · exact ⟨s, found, read⟩
  · contradiction

theorem Sound.hasType_nameType (sound : d.Sound) (symbol : SymbolId) :
    ∀ t ∈ d.result (nameType symbol), d.program.HasType t := by
  intro t read
  obtain ⟨s, found, typed⟩ := result_nameType read
  exact (sound.assembled.inRange.symbol symbol s found).type t typed

theorem Sound.hasType_resultType (sound : d.Sound) (symbol : SymbolId) :
    ∀ t ∈ d.result (resultType symbol), d.program.HasType t := by
  intro t read
  obtain ⟨s, found, typed⟩ := Option.bind_eq_some_iff.mp read
  exact (sound.assembled.inRange.symbol symbol s found).type t typed

theorem Sound.hasType_nodeType (sound : d.Sound) (id : SyntaxId) :
    ∀ t ∈ d.result (nodeType id), d.program.HasType t :=
  (sound.assembled.inRange.factsInRange id).type

theorem after_resolutionOf (outcome : Outcome) (arguments : List SyntaxId) :
    d.after (resolutionOf outcome arguments) = d := by
  cases outcome <;> rfl

theorem Sound.resolutionInRange (sound : d.Sound) {outcome : Outcome} {arguments : List SyntaxId}
    (symbols : ∀ symbol ∈ outcome.symbols, d.program.HasSymbol symbol)
    (nodes : ∀ argument ∈ arguments, d.program.HasNode argument) :
    d.program.ResolutionInRange (d.result (resolutionOf outcome arguments)) := by
  cases outcome with
  | bound member =>
    refine ⟨symbols, ?_⟩
    rintro _ _ ⟨⟩ binding listed
    exact binding_inRange sound.assembled.inRange.symbol nodes listed
  | lateBound candidates => exact ⟨symbols, fun _ _ other => nomatch other⟩
  | failed reason candidates => exact ⟨symbols, fun _ _ other => nomatch other⟩

/-- The type of an outcome: of the member when it is known, else one that there always is. -/
theorem leads_outcomeType (sound : d.Sound) (outcome : Outcome) :
    d.Leads (outcomeType outcome) fun p type => ∀ t ∈ type, p.HasType t := by
  cases outcome with
  | bound member => exact ⟨sound, .refl _, sound.hasType_resultType member⟩
  | lateBound candidates =>
    exact (leads_type sound "dynamic" .dynamic (hasType_none _)).some_type
  | failed reason candidates => exact (leads_type sound "?" .error (hasType_none _)).some_type

/-- An expression that may call a member: a call, or an access to an element. -/
theorem leads_call (sound : d.Sound) (form : Form) (known : d.program.FormInRange form)
    {outcome : Outcome} {arguments : List SyntaxId}
    (symbols : ∀ symbol ∈ outcome.symbols, d.program.HasSymbol symbol)
    (nodes : ∀ argument ∈ arguments, d.program.HasNode argument) :
    d.Leads (do
      let resolution ← resolutionOf outcome arguments
      let id ← typed form (← outcomeType outcome)
      resolved id resolution) HasNode := by
  refine .read (after_resolutionOf outcome arguments) ?_
  have resolution := sound.resolutionInRange symbols nodes
  refine .bind (leads_outcomeType sound outcome) ?_
  intro d' type sound grown there
  exact (leads_typed sound form (known.mono grown) there).resolved (resolution.mono grown)

end Draft

end SemanticTrees
