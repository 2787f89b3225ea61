import PapyrusAnalysis.Proofs.Binding.Distinct

/-!
# Declarations and symbols correspond

After a tree has been bound, the symbols stand for different nodes, and which node has a symbol can
be read off the tree. The members of a script are the symbols of its definitions, followed by those
of the properties of its groups and by those of the definitions of its states, each in the order of
the source.

## Main definitions

* `Binding.memberNodes`: the nodes whose symbols are the members of a script.
-/

namespace PapyrusAnalysis

namespace Binding

variable {t : Tree} {b : Binding} {symbols : SymbolTable} {node : NodeId} {id other : SymbolId}

/-! ## Different symbols have different declarations -/

/-- If no node is listed twice, it declares one symbol. -/
theorem Sound.eq_of_declaredAt (sound : Sound t symbols) (nodup : (nodes symbols).Nodup)
    (h : DeclaredAt symbols id node) (h' : DeclaredAt symbols other node) : id = other := by
  have place {id : SymbolId} (h : DeclaredAt symbols id node) : id.index < symbols.size ∧
      (symbols.get? ⟨id.index⟩).bind (·.declaration) = some node := by
    obtain ⟨symbol, hs, hd⟩ := h
    have owned := SymbolTable.owns_of_get? hs
    simp only [SymbolTable.owns, sound.base, Bool.and_eq_true, decide_eq_true_eq] at owned
    exact ⟨by omega, by simp [hs, hd]⟩
  obtain ⟨inside, found⟩ := place h
  obtain ⟨inside', found'⟩ := place h'
  have apart := List.pairwise_filterMap.1 nodup
  rw [List.pairwise_iff_getElem] at apart
  have index : id.index = other.index := by
    rcases Nat.lt_trichotomy id.index other.index with less | same | more
    · exact absurd rfl (apart _ _ (by simpa) (by simpa) less node (by simpa using found) node
        (by simpa using found'))
    · exact same
    · exact absurd rfl (apart _ _ (by simpa) (by simpa) more node (by simpa using found') node
        (by simpa using found))
  cases id
  cases other
  exact congrArg SymbolId.mk index

theorem Sound.symbolOf_iff (sound : Sound t symbols) (nodup : (nodes symbols).Nodup) :
    symbols.symbolOf node = some id ↔ DeclaredAt symbols id node := by
  refine ⟨sound.symbolOf, fun h => ?_⟩
  obtain ⟨symbol, hs, hd⟩ := h
  obtain ⟨other, found⟩ := sound.answered hs hd
  rw [found, sound.eq_of_declaredAt nodup (sound.symbolOf found) ⟨symbol, hs, hd⟩]

/-! ## The nodes that become members -/

/-- The properties of a group. -/
def groupProperties (t : Tree) (node : NodeId) : List NodeId :=
  match t.formAt node with
  | some (.group _ _ properties) => properties
  | _ => []

/-- The definitions of a state. -/
def stateDefinitions (t : Tree) (node : NodeId) : List NodeId :=
  match t.formAt node with
  | some (.state _ _ definitions) => definitions
  | _ => []

/-- The nodes whose symbols are the members of a script with some definitions. -/
def memberNodes (t : Tree) (definitions : List NodeId) : List NodeId :=
  definitions ++ definitions.flatMap (groupProperties t) ++
    definitions.flatMap (stateDefinitions t)

section Parts

variable {n : Node} {part : NodeId} {parts : List NodeId} {f : NodeId → List NodeId}

/-- A part that is listed for some part of a node is listed for itself. -/
theorem mem_own_list (wf : t.WellFormed) (hn : t.node? node = some n)
    (sub : ∀ part ∈ parts, part ∈ n.form.children) (each : ∀ part, t.Below [part] (f part))
    {x : NodeId} (hp : part ∈ n.form.children) (within : t.Within x part)
    (h : x ∈ parts.flatMap f) : part ∈ parts ∧ x ∈ f part := by
  obtain ⟨part', hp', hx⟩ := List.mem_flatMap.1 h
  have within' : t.Within x part' := by simpa using (each part').within x hx
  obtain rfl := wf.parts_disjoint hn hp (sub part' hp') within within'
  exact ⟨hp', hx⟩

theorem defines_of_mem {depth : Nat} {x : NodeId} (h : x ∈ definitionNodes t depth node) :
    defines t node := by
  have defined {form : Form} (hf : t.formAt node = some form) (wanted : isDefinition form = true)
      (hd : (t.declaration? node).isSome) : defines t node := by
    simp [defines, hd, isWanted_of_formAt hf, wanted]
  cases depth with
  | zero => cases h
  | succ depth =>
    unfold definitionNodes at h
    split at h
    case h_4 header _ hf =>
      rw [functionNodes, hf] at h
      dsimp only at h
      split at h
      · rename_i hg
        exact defined hf rfl (by simp [Tree.declaration?, hf, hg])
      · cases h
    case h_5 header _ hf =>
      rw [eventNodes, hf] at h
      dsimp only at h
      split at h
      · rename_i hg
        exact defined hf rfl (by simp [Tree.declaration?, hf, hg])
      · cases h
    case h_9 => cases h
    all_goals
      rename_i hf
      exact defined hf rfl (by simp [Tree.declaration?, hf])

/-- What has a symbol within a definition of a script is listed for this definition, and the script
has a name. -/
theorem mem_definitionNodes (wf : t.WellFormed) (top : t.ScriptsOnTop) {root header x : NodeId}
    {imports definitions : List NodeId}
    (hroot : t.formAt root = some (.script header imports definitions)) (hp : part ∈ definitions)
    (within : t.Within x part) (bound : x ∈ t.roots.flatMap (scriptNodes t)) :
    hasName t root ∧ x ∈ definitionNodes t (t.size + 1) part := by
  obtain ⟨n, hn, hform⟩ := Option.map_eq_some_iff.1 hroot
  have children : n.form.children = header :: (imports ++ definitions) := by rw [hform]; rfl
  have apart := (List.nodup_append'.1 (List.nodup_cons.1 (children ▸ wf.once.nodup hn)).2).2.2
  have hpart : part ∈ n.form.children := by simp [children, hp]
  have inRoot : root ∈ t.roots := wf.grown.mem_roots.2 ⟨n, hn, by rw [hform]; rfl⟩
  obtain ⟨root', inRoot', hx⟩ := List.mem_flatMap.1 bound
  have within' : t.Within x root' := by simpa using (below_scriptNodes wf).within x hx
  obtain rfl := root_eq_of_within wf top inRoot inRoot' (wf.within_of_part hn hpart within) within'
  rw [scriptNodes, hroot] at hx
  dsimp only at hx
  split at hx
  · rename_i identifier _ _ hg
    have hd : t.declaration? root = some (.script, identifier) := by
      simp [Tree.declaration?, hroot, hg]
    rcases List.mem_cons.1 hx with rfl | hx
    · exact absurd within (wf.not_within_part hn hpart)
    split at hx
    · rename_i named
      rcases List.mem_append.1 hx with hx | hx
      · exact ⟨by simpa [hasName, hd] using named, (mem_own_list wf hn
          (by simp +contextual [children]) (fun _ => below_definitionNodes wf) hpart within hx).2⟩
      · obtain ⟨line, hl, hx⟩ := List.mem_flatMap.1 hx
        obtain rfl := List.mem_singleton.1 (List.mem_filter.1 hx).1
        have has := Tree.Within.refl within.has
        obtain rfl := wf.parts_disjoint hn (by simp [children, hl]) hpart has within
        exact absurd hp (apart hl)
    · cases hx
  · cases hx

/-- A part of a declaration has a symbol only if the declaration has a name. -/
theorem mem_named_parts (wf : t.WellFormed) (hn : t.node? node = some n) {named : Bool}
    (sub : ∀ part ∈ parts, part ∈ n.form.children) (each : ∀ part, t.Below [part] (f part))
    (hp : part ∈ parts) (h : part ∈ node :: if named then parts.flatMap f else []) :
    named = true ∧ part ∈ f part := by
  have self := Tree.Within.refl (wf.descending.has hn (sub part hp))
  rcases List.mem_cons.1 h with rfl | h
  · exact absurd self (wf.not_within_part hn (sub part hp))
  split at h
  · rename_i named
    exact ⟨named, (mem_own_list wf hn sub each (sub part hp) self h).2⟩
  · cases h

/-- Whether a property of a group becomes a member of it. -/
def isGroupMember (t : Tree) (group part : NodeId) : Bool :=
  hasName t group && t.isWanted isProperty part

/-- Whether a definition of a state becomes a member of it. -/
def isStateMember (t : Tree) (state part : NodeId) : Bool := hasName t state && defines t part

theorem isGroupMember_of_mem (wf : t.WellFormed) {depth : Nat}
    (hp : part ∈ groupProperties t node) (h : part ∈ definitionNodes t (depth + 1) node) :
    isGroupMember t node part := by
  unfold groupProperties at hp
  split at hp
  · rename_i identifier modifiers properties hf
    obtain ⟨n, hn, hform⟩ := Option.map_eq_some_iff.1 hf
    simp only [definitionNodes, groupNodes, hf] at h
    obtain ⟨named, own⟩ := mem_named_parts wf hn (by simp +contextual [hform, Form.children])
      (fun _ => below_propertyNodes wf) hp h
    unfold propertyNodes at own
    split at own
    · rename_i hg
      simp [isGroupMember, hasName, Tree.declaration?, hf, named, isWanted_of_formAt hg, isProperty]
    · cases own
  · cases hp

theorem isStateMember_of_mem (wf : t.WellFormed) {depth : Nat}
    (hp : part ∈ stateDefinitions t node) (h : part ∈ definitionNodes t (depth + 1) node) :
    isStateMember t node part := by
  unfold stateDefinitions at hp
  split at hp
  · rename_i identifier isAuto definitions hf
    obtain ⟨n, hn, hform⟩ := Option.map_eq_some_iff.1 hf
    simp only [definitionNodes, hf] at h
    obtain ⟨named, own⟩ := mem_named_parts wf hn (by simp +contextual [hform, Form.children])
      (fun _ => below_definitionNodes wf) hp h
    simp [isStateMember, hasName, Tree.declaration?, hf, named, defines_of_mem own]
  · cases hp

theorem formAt_of_group {identifier : NodeId}
    (hd : t.declaration? node = some (.group, identifier)) :
    ∃ modifiers properties, t.formAt node = some (.group identifier modifiers properties) := by
  unfold Tree.declaration? at hd
  split at hd <;> grind

theorem formAt_of_state {identifier : NodeId}
    (hd : t.declaration? node = some (.state, identifier)) :
    ∃ isAuto definitions, t.formAt node = some (.state identifier isAuto definitions) := by
  unfold Tree.declaration? at hd
  split at hd <;> grind

/-- The nodes of one kind among some definitions are all bound. -/
theorem partsWithin_filter {kind : SymbolKind} {raw : NodeId → List NodeId}
    {member : NodeId → NodeId → Bool} (definitions : List NodeId)
    (bound : ∀ {d identifier}, t.declaration? d = some (kind, identifier) → defines t d)
    (each : ∀ d, (if (t.declaration? d).any (·.1 = kind) then memberParts t d else []) =
      (raw d).filter (member d)) :
    partsWithin t kind (definitions.filter (defines t)) =
      definitions.flatMap fun d => (raw d).filter (member d) := by
  induction definitions with
  | nil => rfl
  | cons d definitions ih =>
    rw [List.flatMap_cons, ← ih, ← each d, List.filter_cons]
    split
    · rfl
    · rename_i unbound
      rw [if_neg, List.nil_append]
      simp only [Option.any_eq_true, decide_eq_true_eq]
      rintro ⟨⟨_, identifier⟩, hd, rfl⟩
      exact unbound (bound hd)

theorem partsWithin_group (definitions : List NodeId) :
    partsWithin t .group (definitions.filter (defines t)) =
      definitions.flatMap fun d => (groupProperties t d).filter (isGroupMember t d) := by
  refine partsWithin_filter definitions (fun hd => ?_) fun d => ?_
  · obtain ⟨modifiers, properties, hf⟩ := formAt_of_group hd
    simp [defines, hd, isWanted_of_formAt hf, isDefinition]
  · unfold isGroupMember
    split
    · rename_i same
      simp only [Option.any_eq_true, decide_eq_true_eq] at same
      obtain ⟨⟨_, identifier⟩, hd, rfl⟩ := same
      obtain ⟨modifiers, properties, hf⟩ := formAt_of_group hd
      cases named : isNamed t identifier <;>
        simp [hasName, hd, memberParts, groupProperties, hf, named]
    · rename_i other
      unfold groupProperties
      split
      · rename_i hf
        exact absurd (by simp [Tree.declaration?, hf]) other
      · rfl

theorem partsWithin_state (definitions : List NodeId) :
    partsWithin t .state (definitions.filter (defines t)) =
      definitions.flatMap fun d => (stateDefinitions t d).filter (isStateMember t d) := by
  refine partsWithin_filter definitions (fun hd => ?_) fun d => ?_
  · obtain ⟨isAuto, definitions, hf⟩ := formAt_of_state hd
    simp [defines, hd, isWanted_of_formAt hf, isDefinition]
  · unfold isStateMember
    split
    · rename_i same
      simp only [Option.any_eq_true, decide_eq_true_eq] at same
      obtain ⟨⟨_, identifier⟩, hd, rfl⟩ := same
      obtain ⟨isAuto, definitions, hf⟩ := formAt_of_state hd
      cases named : isNamed t identifier <;>
        simp [hasName, hd, memberParts, stateDefinitions, hf, named]
    · rename_i other
      unfold stateDefinitions
      split
      · rename_i hf
        exact absurd (by simp [Tree.declaration?, hf]) other
      · rfl

/-- The nodes that become members of a script, without those that get no symbol. -/
def boundMemberNodes (t : Tree) (definitions : List NodeId) : List NodeId :=
  definitions.filter (defines t) ++
    definitions.flatMap (fun d => (groupProperties t d).filter (isGroupMember t d)) ++
    definitions.flatMap fun d => (stateDefinitions t d).filter (isStateMember t d)

theorem ownParts?_script {root header : NodeId} {imports definitions : List NodeId}
    (hroot : t.formAt root = some (.script header imports definitions)) :
    ownParts? t root = some (if hasName t root then boundMemberNodes t definitions else []) := by
  simp only [ownParts?, hroot, partsWithin_group, partsWithin_state, boundMemberNodes]

end Parts

theorem filterMap_filter_of {α β : Type} {l : List α} {p : α → Bool} {f : α → Option β}
    (h : ∀ a ∈ l, p a = false → f a = none) : (l.filter p).filterMap f = l.filterMap f := by
  rw [List.filterMap_filter]
  refine List.filterMap_congr fun a ha => ?_
  cases hp : p a with
  | true => simp
  | false => simp [h a ha hp]

section Members

variable (wf : t.WellFormed) (top : t.ScriptsOnTop) {root header : NodeId}
  {imports definitions : List NodeId}
  (hroot : t.formAt root = some (.script header imports definitions))

include wf in
theorem parentAt_of_groupProperties {d x : NodeId} (h : x ∈ groupProperties t d) :
    t.parentAt x = some d := by
  unfold groupProperties at h
  split at h
  · rename_i hf
    obtain ⟨n, hn, hform⟩ := Option.map_eq_some_iff.1 hf
    exact wf.parentAt hn (by simp [hform, Form.children, h])
  · cases h

include wf in
theorem parentAt_of_stateDefinitions {d x : NodeId} (h : x ∈ stateDefinitions t d) :
    t.parentAt x = some d := by
  unfold stateDefinitions at h
  split at h
  · rename_i hf
    obtain ⟨n, hn, hform⟩ := Option.map_eq_some_iff.1 hf
    exact wf.parentAt hn (by simp [hform, Form.children, h])
  · cases h

include wf hroot in
theorem parentAt_of_definition {d : NodeId} (h : d ∈ definitions) : t.parentAt d = some root := by
  obtain ⟨n, hn, hform⟩ := Option.map_eq_some_iff.1 hroot
  exact wf.parentAt hn (by simp [hform, Form.children, h])

include wf in
theorem within_parent {d x : NodeId} (h : t.parentAt x = some d) : t.Within x d :=
  (wf.grown.within_of_parentAt h).2 (.inr (.refl (wf.grown.has_of_parentAt h).2.1))

include wf top hroot in
/-- Among the nodes that may become members, just those do that get a symbol. -/
theorem filterMap_boundMemberNodes {β : Type} {f : NodeId → Option β}
    (bound : ∀ x, f x ≠ none → x ∈ t.roots.flatMap (scriptNodes t)) :
    (if hasName t root then boundMemberNodes t definitions else []).filterMap f =
      (memberNodes t definitions).filterMap f := by
  have listed {d x : NodeId} (hd : d ∈ definitions) (within : t.Within x d) (hx : f x ≠ none) :=
    mem_definitionNodes wf top hroot hd within (bound x hx)
  split
  · have defined := filterMap_filter_of (l := definitions) (p := defines t) (f := f)
      fun d hd unbound => by
        by_contra hx
        have := defines_of_mem
          (listed hd (.refl (wf.grown.has_of_parentAt (parentAt_of_definition wf hroot hd)).1) hx).2
        rw [unbound] at this
        cases this
    have grouped (d : NodeId) (hd : d ∈ definitions) :=
      filterMap_filter_of (l := groupProperties t d) (p := isGroupMember t d) (f := f)
        fun x hp unbound => by
          by_contra hx
          have := isGroupMember_of_mem wf hp
            (listed hd (within_parent wf (parentAt_of_groupProperties wf hp)) hx).2
          rw [unbound] at this
          cases this
    have stated (d : NodeId) (hd : d ∈ definitions) :=
      filterMap_filter_of (l := stateDefinitions t d) (p := isStateMember t d) (f := f)
        fun x hp unbound => by
          by_contra hx
          have := isStateMember_of_mem wf hp
            (listed hd (within_parent wf (parentAt_of_stateDefinitions wf hp)) hx).2
          rw [unbound] at this
          cases this
    simp only [boundMemberNodes, memberNodes, List.filterMap_append, List.filterMap_flatMap]
    rw [defined, List.flatMap_congr grouped, List.flatMap_congr stated]
  · rename_i unnamed
    have none (d : NodeId) (hd : d ∈ definitions) (x : NodeId) (within : t.Within x d) :
        f x = none := by
      by_contra hx
      exact unnamed (listed hd within hx).1
    refine (List.filterMap_eq_nil_iff.2 fun x hx => ?_).symm
    simp only [memberNodes, List.mem_append, List.mem_flatMap] at hx
    rcases hx with (hd | ⟨d, hd, hp⟩) | ⟨d, hd, hp⟩
    · exact none x hd x (.refl (wf.grown.has_of_parentAt (parentAt_of_definition wf hroot hd)).1)
    · exact none d hd x (within_parent wf (parentAt_of_groupProperties wf hp))
    · exact none d hd x (within_parent wf (parentAt_of_stateDefinitions wf hp))

include wf in
theorem nodup_groupProperties (d : NodeId) : (groupProperties t d).Nodup := by
  unfold groupProperties
  split
  · rename_i identifier modifiers properties hf
    obtain ⟨n, hn, hform⟩ := Option.map_eq_some_iff.1 hf
    have := wf.once.nodup hn
    rw [hform, Form.children, List.nodup_cons] at this
    exact this.2
  · exact .nil

include wf in
theorem nodup_stateDefinitions (d : NodeId) : (stateDefinitions t d).Nodup := by
  unfold stateDefinitions
  split
  · rename_i identifier isAuto definitions hf
    obtain ⟨n, hn, hform⟩ := Option.map_eq_some_iff.1 hf
    have := wf.once.nodup hn
    rw [hform, Form.children, List.nodup_cons] at this
    exact this.2
  · exact .nil

theorem nodup_flatMap_of_parent {f : NodeId → List NodeId} (nodup : definitions.Nodup)
    (each : ∀ d, (f d).Nodup) (parent : ∀ d x, x ∈ f d → t.parentAt x = some d) :
    (definitions.flatMap f).Nodup := by
  refine List.nodup_flatMap.2 ⟨fun d _ => each d, nodup.pairwise_of_forall_ne ?_⟩
  intro d _ d' _ ne x hx hx'
  exact ne (Option.some.inj ((parent d x hx).symm.trans (parent d' x hx')))

include wf hroot in
/-- No node is twice among those that may become members. -/
theorem nodup_memberNodes : (memberNodes t definitions).Nodup := by
  obtain ⟨n, hn, hform⟩ := Option.map_eq_some_iff.1 hroot
  have children : n.form.children = header :: (imports ++ definitions) := by rw [hform]; rfl
  have nodup : definitions.Nodup :=
    (List.nodup_append'.1 (List.nodup_cons.1 (children ▸ wf.once.nodup hn)).2).2.1
  have inner {d x : NodeId} (hd : d ∈ definitions) (hx : t.parentAt x = some d) :
      x ∉ definitions := by
    intro hx'
    cases hx.symm.trans (parentAt_of_definition wf hroot hx')
    exact absurd (wf.grown.has_of_parentAt (parentAt_of_definition wf hroot hd)).2.2 (by simp)
  have groups := nodup_flatMap_of_parent nodup (nodup_groupProperties wf)
    fun _ _ => parentAt_of_groupProperties wf
  have states := nodup_flatMap_of_parent nodup (nodup_stateDefinitions wf)
    fun _ _ => parentAt_of_stateDefinitions wf
  refine List.nodup_append'.2 ⟨List.nodup_append'.2 ⟨nodup, groups, ?_⟩, states, ?_⟩
  · intro x hx hx'
    obtain ⟨d, hd, hp⟩ := List.mem_flatMap.1 hx'
    exact inner hd (parentAt_of_groupProperties wf hp) hx
  · intro x hx hx'
    obtain ⟨d, hd, hp⟩ := List.mem_flatMap.1 hx'
    have parent := parentAt_of_stateDefinitions wf hp
    rcases List.mem_append.1 hx with hx | hx
    · exact inner hd parent hx
    · obtain ⟨d', -, hp'⟩ := List.mem_flatMap.1 hx
      cases parent.symm.trans (parentAt_of_groupProperties wf hp')
      unfold stateDefinitions at hp
      unfold groupProperties at hp'
      grind

end Members

/-! ## The correspondence -/

/-- The members are the symbols of the parts that they are declared at. -/
theorem eq_filterMap_of_forall₂ {members : List SymbolId} {parts : List NodeId}
    (of : ∀ {id node}, DeclaredAt symbols id node → symbols.symbolOf node = some id)
    (h : List.Forall₂ (DeclaredAt symbols) members parts) :
    members = parts.filterMap symbols.symbolOf := by
  induction h with
  | nil => rfl
  | cons head _ ih => rw [List.filterMap_cons_some (of head), ← ih]

/-- What binding a tree comes to, if its nodes come after their parts and are used once. -/
theorem ofTree_eq_ok (wf : t.WellFormed) (top : t.ScriptsOnTop) (run : ofTree t = .ok b) :
    Sound t b.symbols ∧ nodes b.symbols = t.roots.flatMap (scriptNodes t) ∧
      (nodes b.symbols).Nodup := by
  have bound := treeBound_ofTree run
  have made := bound.nodes wf.descending
  exact ⟨bound.sound, made, made.symm ▸ nodup_scriptNodes wf top⟩

theorem has_of_bodyStatements (wf : t.WellFormed) {body statement : NodeId}
    (h : statement ∈ bodyStatements t body) : t.Has statement := by
  unfold bodyStatements at h
  split at h
  case h_3 => cases h
  all_goals
    rename_i hf
    obtain ⟨n, hn, hform⟩ := Option.map_eq_some_iff.1 hf
    exact wf.descending.has hn (by simp [hform, Form.children, h])

/-- The declarations at any depth in a body are collected, so they have symbols below it. -/
theorem exists_local (wf : t.WellFormed) (sound : Sound t b.symbols) (run : ofTree t = .ok b)
    {body statement inner : NodeId} (declared : DeclaredAt b.symbols id body)
    (named : hasName t body) (hs : statement ∈ bodyStatements t body)
    (within : t.Within inner statement) (wanted : t.isWanted isDeclaration inner) :
    ∃ other symbol, b.symbols.get? other = some symbol ∧ symbol.declaration = some inner ∧
      symbol.kind = .var ∧ symbol.parent = some id := by
  obtain ⟨symbol, hsymbol, hd⟩ := declared
  have has := has_of_bodyStatements wf hs
  have found := Tree.collect_eq_ok isDeclaration wf.descending has
  obtain ⟨other, symbol', hs', hd', parent⟩ := (furnished_ofTree run hsymbol).locals hd named hs
    found inner (List.mem_filter.2 ⟨wf.mem_preorder has within has, wanted⟩) wanted
  obtain ⟨form, hf, isDecl⟩ := isWanted_iff.1 wanted
  have kind : ∃ identifier, t.declaration? inner = some (.var, identifier) := by
    cases form <;> simp_all [isDeclaration, Tree.declaration?]
  obtain ⟨identifier, hk⟩ := kind
  exact ⟨other, symbol', hs', hd', sound.kind_eq hs' hd' hk, parent⟩

/-- Declarations and symbols correspond. A node has a symbol if and only if the symbol is declared
there, every symbol is declared at one node, and no two symbols at the same one. A statement that
declares a variable, at any depth in a function or event with a name, has one symbol, which is that
of a variable below the function or event. The members of a script are the symbols of its
definitions, then those of the properties of its groups, then those of the definitions of its
states, and none comes twice. -/
theorem ofTree_one_to_one (wf : t.WellFormed) (top : t.ScriptsOnTop) (run : ofTree t = .ok b) :
    (∀ node id, b.symbols.symbolOf node = some id ↔ DeclaredAt b.symbols id node) ∧
    (∀ id symbol, b.symbols.get? id = some symbol → ∃ node, symbol.declaration = some node) ∧
    (∀ id other node, DeclaredAt b.symbols id node → DeclaredAt b.symbols other node →
      id = other) ∧
    (∀ id body statement inner, DeclaredAt b.symbols id body → hasName t body →
      statement ∈ bodyStatements t body → t.Within inner statement →
      t.isWanted isDeclaration inner →
        ∃ other symbol, b.symbols.get? other = some symbol ∧ symbol.declaration = some inner ∧
          symbol.kind = .var ∧ symbol.parent = some id ∧
          ∀ another, DeclaredAt b.symbols another inner → another = other) ∧
    ∀ id symbol root header imports definitions, b.symbols.get? id = some symbol →
      symbol.declaration = some root →
      t.formAt root = some (.script header imports definitions) →
        symbol.members.Nodup ∧
          symbol.members = (memberNodes t definitions).filterMap b.symbols.symbolOf := by
  obtain ⟨sound, made, nodup⟩ := ofTree_eq_ok wf top run
  have symbolOf {node : NodeId} {id : SymbolId} :
      b.symbols.symbolOf node = some id ↔ DeclaredAt b.symbols id node := sound.symbolOf_iff nodup
  refine ⟨fun node id => symbolOf, fun id symbol hs => ?_,
    fun id other node => sound.eq_of_declaredAt nodup, ?_, ?_⟩
  · obtain ⟨node, identifier, hd, -⟩ := (sound.fits hs).declared
    exact ⟨node, hd⟩
  · intro id body statement inner declared named hs within wanted
    obtain ⟨other, symbol, hs', hd', kind, parent⟩ :=
      exists_local wf sound run declared named hs within wanted
    exact ⟨other, symbol, hs', hd', kind, parent, fun another h =>
      sound.eq_of_declaredAt nodup h ⟨symbol, hs', hd'⟩⟩
  · intro id symbol root header imports definitions hs hd hroot
    have bound : ∀ x, b.symbols.symbolOf x ≠ none → x ∈ t.roots.flatMap (scriptNodes t) := by
      intro x hx
      obtain ⟨other, ho⟩ := Option.ne_none_iff_exists'.1 hx
      obtain ⟨symbol', hs', hd'⟩ := sound.symbolOf ho
      exact made ▸ sound.mem_nodes hs' hd'
    have members : symbol.members = (memberNodes t definitions).filterMap b.symbols.symbolOf := by
      rw [← filterMap_boundMemberNodes wf top hroot bound]
      exact eq_filterMap_of_forall₂ symbolOf.2
        ((furnished_ofTree run hs).members hd (ownParts?_script hroot))
    refine ⟨members ▸ (nodup_memberNodes wf hroot).filterMap ?_, members⟩
    intro node node' id h h'
    obtain ⟨symbol, hs, hd⟩ := sound.symbolOf h
    obtain ⟨symbol', hs', hd'⟩ := sound.symbolOf h'
    cases hs.symm.trans hs'
    exact Option.some.inj (hd.symm.trans hd')

/-- A script with a state, a function that declares a variable in a loop, a group, and a definition
that gets no symbol. -/
def workshopForms : List Form :=
  [.identifier "S", .scriptHeader ⟨0⟩ none ∅, .identifier "F", .parameterList [],
    .functionHeader none ⟨2⟩ ⟨3⟩ ∅, .identifier "int", .typeName ⟨5⟩ false, .identifier "x",
    .declaration ⟨6⟩ ⟨7⟩ none, .literal (.bool true), .literalExpression ⟨9⟩, .whileLoop ⟨10⟩ [⟨8⟩],
    .function ⟨4⟩ [⟨11⟩], .identifier "G", .identifier "int", .typeName ⟨14⟩ false,
    .identifier "P", .property ⟨15⟩ ⟨16⟩ none [] ∅, .group ⟨13⟩ ∅ [⟨17⟩], .identifier "T",
    .identifier "E", .parameterList [], .eventHeader ⟨20⟩ ⟨21⟩, .event ⟨22⟩ [],
    .state ⟨19⟩ false [⟨23⟩], .literal .none, .script ⟨1⟩ [] [⟨24⟩, ⟨25⟩, ⟨12⟩, ⟨18⟩]]

theorem workshop_corresponds : ∃ b, ofTree (.ofForms workshopForms) = .ok b ∧ b.symbols.size = 7 ∧
    (∃ other symbol, b.symbols.get? other = some symbol ∧ symbol.declaration = some ⟨8⟩ ∧
      symbol.kind = .var ∧ symbol.parent = b.symbols.symbolOf ⟨12⟩) ∧
    ∃ id symbol, b.symbols.symbolOf ⟨26⟩ = some id ∧ b.symbols.get? id = some symbol ∧
      symbol.members.length = 5 ∧ symbol.members.Nodup ∧
      symbol.members = [⟨24⟩, ⟨25⟩, ⟨12⟩, ⟨18⟩, ⟨17⟩, ⟨23⟩].filterMap b.symbols.symbolOf := by
  obtain ⟨b, run, fits⟩ := exists_ok_of_any (o := ofTree (.ofForms workshopForms))
    (f := fun b => b.symbols.size = 7 ∧ b.symbols.symbolOf ⟨12⟩ = some ⟨3⟩ ∧
      b.symbols.symbolOf ⟨26⟩ = some ⟨0⟩ ∧
      (b.symbols.get? ⟨0⟩).all fun symbol => symbol.members.length = 5)
    (by decide +kernel)
  obtain ⟨size, function, script, length⟩ := of_decide_eq_true fits
  have wf : (Tree.ofForms workshopForms).WellFormed :=
    ⟨Tree.grown_ofForms (by decide), by decide +kernel, by decide +kernel⟩
  obtain ⟨symbolOf, -, -, locals, members⟩ := ofTree_one_to_one wf (by decide +kernel) run
  obtain ⟨other, variable', hs, hd, kind, parent, -⟩ :=
    locals _ _ ⟨11⟩ ⟨8⟩ ((symbolOf _ _).1 function)
    (by decide +kernel) (by decide +kernel) (by decide +kernel) (by decide +kernel)
  obtain ⟨symbol, found, declared⟩ := (symbolOf _ _).1 script
  have form : (Tree.ofForms workshopForms).formAt ⟨26⟩ =
      some (.script ⟨1⟩ [] [⟨24⟩, ⟨25⟩, ⟨12⟩, ⟨18⟩]) := by decide +kernel
  have nodes : memberNodes (.ofForms workshopForms) [⟨24⟩, ⟨25⟩, ⟨12⟩, ⟨18⟩] =
      [⟨24⟩, ⟨25⟩, ⟨12⟩, ⟨18⟩, ⟨17⟩, ⟨23⟩] := by decide +kernel
  obtain ⟨nodup, same⟩ := members _ symbol _ _ _ _ found declared form
  rw [found] at length
  exact ⟨b, run, size, ⟨other, variable', hs, hd, kind, parent.trans function.symm⟩, _, symbol,
    script, found, of_decide_eq_true length, nodup, nodes ▸ same⟩

end Binding

end PapyrusAnalysis
