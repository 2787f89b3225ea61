import PapyrusAnalysis.Binding
import PapyrusAnalysis.Proofs.Run
import PapyrusAnalysis.Proofs.Symbol.Table
import PapyrusAnalysis.Proofs.Tree.Shape

/-!
# What binding holds on to

Binding only adds to what is there. A symbol gets its name, its place and its declaration when it
is made, and the step that makes it is the only one to change it later. A symbol answers for the
node that declares it: its kind and its name are those of the node.

## Main definitions

* `Tree.declaration?`: what a node declares, and the identifier that names it.
* `Binding.Grows`: how one state of binding may follow another.
* `Binding.Sound`: what is true of the symbols of every state.
* `Binding.Writes`: what may be written down about a symbol later.
-/

namespace PapyrusAnalysis

namespace Tree

variable {t : Tree} {id : NodeId}

/-- What a node declares: the kind of symbol, and the identifier that names it. -/
def declaration? (t : Tree) (node : NodeId) : Option (SymbolKind × NodeId) :=
  match t.formAt node with
  | some (.script header _ _) =>
    match t.formAt header with
    | some (.scriptHeader identifier _ _) => some (.script, identifier)
    | _ => none
  | some (.function header _) =>
    match t.formAt header with
    | some (.functionHeader _ identifier _ _) => some (.function, identifier)
    | _ => none
  | some (.event header _) =>
    match t.formAt header with
    | some (.eventHeader identifier _) => some (.event, identifier)
    | _ => none
  | some (.variableDefinition _ identifier _ _) | some (.declaration _ identifier _) =>
    some (.var, identifier)
  | some (.parameter _ identifier _ _) => some (.parameter, identifier)
  | some (.property _ identifier _ _ _) => some (.property, identifier)
  | some (.group identifier _ _) => some (.group, identifier)
  | some (.state identifier _ _) => some (.state, identifier)
  | some (.struct identifier _) => some (.struct, identifier)
  | some (.customEvent identifier) => some (.customEvent, identifier)
  | some (.importLine identifier) => some (.importLine, identifier)
  | _ => none

theorem isScript_of_declaration? {n : Node} {identifier : NodeId} (hn : t.node? id = some n)
    (h : t.declaration? id = some (.script, identifier)) : n.form.isScript := by
  rw [declaration?, formAt_eq hn] at h
  cases hf : n.form <;> simp only [hf] at h <;> first | rfl | grind

theorem isStruct_of_declaration? {n : Node} {identifier : NodeId} (hn : t.node? id = some n)
    (h : t.declaration? id = some (.struct, identifier)) : n.form.isStruct := by
  rw [declaration?, formAt_eq hn] at h
  cases hf : n.form <;> simp only [hf] at h <;> first | rfl | grind

theorem node?_of_declaration? {kind : SymbolKind} {identifier : NodeId}
    (h : t.declaration? id = some (kind, identifier)) : ∃ node, t.node? id = some node := by
  cases hn : t.node? id with
  | none => simp [declaration?, formAt, hn] at h
  | some node => exact ⟨node, rfl⟩

/-- The identifier of a declaration is a part of it, or of its header. -/
theorem Descending.has_identifier (descending : t.Descending) {kind : SymbolKind}
    {identifier : NodeId} (h : t.declaration? id = some (kind, identifier)) :
    t.Has identifier := by
  have part : ∀ {id child form}, t.formAt id = some form → child ∈ form.children →
      t.Has child := by
    intro id child form hf hc
    obtain ⟨node, hn, rfl⟩ := Option.map_eq_some_iff.1 hf
    exact descending.has hn hc
  unfold declaration? at h
  split at h
  case h_1 | h_2 | h_3 =>
    split at h
    · cases h
      exact part ‹_› (by simp [Form.children])
    · cases h
  case h_13 => cases h
  all_goals
    cases h
    exact part ‹_› (by simp [Form.children])

/-- The name at a node, which is empty if there is none. -/
def nameAt (t : Tree) (id : NodeId) : String := (t.nameOf id).toOption.join.getD ""

theorem nameAt_eq {name : Option String} (h : t.nameOf id = .ok name) :
    t.nameAt id = name.getD "" := by
  simp [nameAt, h, Except.toOption]

end Tree

/-- A symbol has the number, kind, name, place and declaration of another one, and belongs to an
array if that one does. -/
structure Symbol.Retains (s s' : Symbol) : Prop where
  id : s'.id = s.id
  kind : s'.kind = s.kind
  name : s'.name = s.name
  parent : s'.parent = s.parent
  qualifiedName : s'.qualifiedName = s.qualifiedName
  declaration : s'.declaration = s.declaration
  generated : s'.traits.has .generatedArray = s.traits.has .generatedArray

theorem Symbol.Retains.refl (s : Symbol) : s.Retains s := ⟨rfl, rfl, rfl, rfl, rfl, rfl, rfl⟩

theorem Symbol.Retains.trans {s t u : Symbol} (h : s.Retains t) (h' : t.Retains u) : s.Retains u :=
  ⟨h'.id.trans h.id, h'.kind.trans h.kind, h'.name.trans h.name, h'.parent.trans h.parent,
    h'.qualifiedName.trans h.qualifiedName, h'.declaration.trans h.declaration,
    h'.generated.trans h.generated⟩

/-- No trait but one makes a symbol belong to an array. -/
@[simp] theorem Trait.has_generatedArray_only {flag : Trait} (other : flag ≠ .generatedArray)
    (condition : Bool) : (FlagSet.only flag condition).has .generatedArray = false := by
  cases flag <;> cases condition <;> first | rfl | exact absurd rfl other

namespace Binding

/-- The table in which symbols of a kind are entered. -/
def tableOf : SymbolKind → Option TableKind
  | .event | .intrinsic => none
  | .state => some .states
  | .customEvent => some .customEvents
  | _ => some .locals

/-- The name that a symbol gets from what its declaration is called. -/
def title (name : String) : String := if name.isEmpty then unnamed else name

/-- The nodes that declare symbols, in the order in which the symbols were made. -/
def nodes (symbols : SymbolTable) : List NodeId :=
  (List.range symbols.size).filterMap fun i => (symbols.get? ⟨i⟩).bind (·.declaration)

theorem nodes_congr {symbols symbols' : SymbolTable} (size : symbols'.size = symbols.size)
    (same : ∀ id, (symbols'.get? id).bind (·.declaration) =
      (symbols.get? id).bind (·.declaration)) : nodes symbols' = nodes symbols := by
  simp only [nodes, size, same]

/-! ## Growth -/

/-- The symbols of a table stay as they are, but for those that are free to change. -/
structure Grows (free : SymbolId → Prop) (symbols symbols' : SymbolTable) : Prop where
  base : symbols'.base = symbols.base
  kept : ∀ {id symbol}, symbols.get? id = some symbol → ∃ symbol',
    symbols'.get? id = some symbol' ∧ symbol.Retains symbol' ∧ (¬ free id → symbol' = symbol)
  entries : ∀ {kind container key id}, (symbols.names kind container).find? key = some id →
    (symbols'.names kind container).find? key = some id
  scripts : ∀ {key id}, symbols.scripts.find? key = some id → symbols'.scripts.find? key = some id
  symbolOf : ∀ {node id}, symbols.symbolOf node = some id → ∃ id', symbols'.symbolOf node = some id'

variable {t : Tree} {free free' : SymbolId → Prop} {symbols symbols' symbols'' : SymbolTable}
  {id : SymbolId} {symbol : Symbol}

theorem Grows.refl (symbols : SymbolTable) : Grows free symbols symbols where
  base := rfl
  kept h := ⟨_, h, .refl _, fun _ => rfl⟩
  entries h := h
  scripts h := h
  symbolOf h := ⟨_, h⟩

/-- Freedom to change a symbol that was not there before is no freedom. -/
theorem Grows.restrict (h : Grows free symbols symbols') (h' : Grows free' symbols' symbols'')
    (fresh : ∀ {id symbol}, symbols.get? id = some symbol → free' id → free id) :
    Grows free symbols symbols'' where
  base := h'.base.trans h.base
  kept hs := by
    obtain ⟨s', hs', retains, same⟩ := h.kept hs
    obtain ⟨s'', hs'', retains', same'⟩ := h'.kept hs'
    exact ⟨s'', hs'', retains.trans retains', fun fixed =>
      (same' fun changed => fixed (fresh hs changed)).trans (same fixed)⟩
  entries hs := h'.entries (h.entries hs)
  scripts hs := h'.scripts (h.scripts hs)
  symbolOf hs := by
    obtain ⟨id', hs'⟩ := h.symbolOf hs
    exact h'.symbolOf hs'

theorem Grows.trans (h : Grows free symbols symbols') (h' : Grows free symbols' symbols'') :
    Grows free symbols symbols'' :=
  h.restrict h' fun _ changed => changed

theorem Grows.mono (h : Grows free symbols symbols') (le : ∀ id, free id → free' id) :
    Grows free' symbols symbols' :=
  (Grows.refl symbols).restrict h fun _ changed => le _ changed

theorem Grows.owns (h : Grows free symbols symbols') (ho : symbols.owns id) :
    symbols'.owns id := by
  obtain ⟨symbol, hs⟩ := SymbolTable.owns_iff.1 ho
  obtain ⟨symbol', hs', -⟩ := h.kept hs
  exact SymbolTable.owns_of_get? hs'

/-! ## Invariants -/

/-- Whether a symbol is that of a declaration. -/
def DeclaredAt (symbols : SymbolTable) (id : SymbolId) (node : NodeId) : Prop :=
  ∃ symbol, symbols.get? id = some symbol ∧ symbol.declaration = some node

theorem DeclaredAt.grows {node : NodeId} (h : DeclaredAt symbols id node)
    (g : Grows free symbols symbols') : DeclaredAt symbols' id node := by
  obtain ⟨symbol, hs, hd⟩ := h
  obtain ⟨symbol', hs', retains, -⟩ := g.kept hs
  exact ⟨symbol', hs', retains.declaration.trans hd⟩

/-- A symbol can be a member of another one: what declares it is not the statement of a body. -/
def CanBeMember (t : Tree) (symbols : SymbolTable) (id : SymbolId) : Prop :=
  ∃ symbol node, symbols.get? id = some symbol ∧ symbol.declaration = some node ∧
    t.isWanted isDeclaration node = false

theorem CanBeMember.grows (h : CanBeMember t symbols id) (g : Grows free symbols symbols') :
    CanBeMember t symbols' id := by
  obtain ⟨symbol, node, hs, hd, bare⟩ := h
  obtain ⟨symbol', hs', retains, -⟩ := g.kept hs
  exact ⟨symbol', node, hs', retains.declaration.trans hd, bare⟩

theorem CanBeMember.owns (h : CanBeMember t symbols id) : symbols.owns id := by
  obtain ⟨symbol, node, hs, -⟩ := h
  exact SymbolTable.owns_of_get? hs

/-- What is true of a symbol of a table. -/
structure Fits (t : Tree) (symbols : SymbolTable) (symbol : Symbol) : Prop where
  /-- A symbol answers for the node that declares it. -/
  declared : ∃ node identifier, symbol.declaration = some node ∧
    t.declaration? node = some (symbol.kind, identifier) ∧
    symbol.name = title (t.nameAt identifier)
  /-- Scripts and nothing else stand on their own. -/
  top : symbol.kind = .script ↔ symbol.parent = none
  bare : symbol.parent = none → symbol.qualifiedName = symbol.name
  qualified : ∀ parent, symbol.parent = some parent → ∃ above, symbols.get? parent = some above ∧
    symbol.qualifiedName = above.qualifiedName ++ ":" ++ symbol.name
  owned : ∀ part ∈ symbol.members ++ symbol.parameters ++ symbol.imports, symbols.owns part
  members : ∀ part ∈ symbol.members, CanBeMember t symbols part
  genuine : symbol.isGeneratedArray = false

theorem Fits.grows (h : Fits t symbols symbol) (g : Grows free symbols symbols') :
    Fits t symbols' symbol where
  declared := h.declared
  top := h.top
  bare := h.bare
  qualified parent hp := by
    obtain ⟨above, ha, hq⟩ := h.qualified parent hp
    obtain ⟨above', ha', retains, -⟩ := g.kept ha
    exact ⟨above', ha', by rw [hq, retains.qualifiedName]⟩
  owned part hp := g.owns (h.owned part hp)
  members part hp := (h.members part hp).grows g
  genuine := h.genuine

theorem Fits.retains {symbol' : Symbol} (h : Fits t symbols symbol)
    (retains : symbol.Retains symbol')
    (owned : ∀ part ∈ symbol'.members ++ symbol'.parameters ++ symbol'.imports, symbols.owns part)
    (members : ∀ part ∈ symbol'.members, CanBeMember t symbols part) :
    Fits t symbols symbol' where
  declared := by
    rw [retains.declaration, retains.kind, retains.name]
    exact h.declared
  top := by rw [retains.kind, retains.parent]; exact h.top
  bare := by rw [retains.parent, retains.qualifiedName, retains.name]; exact h.bare
  qualified := by rw [retains.parent, retains.qualifiedName, retains.name]; exact h.qualified
  owned := owned
  members := members
  genuine := retains.generated.trans h.genuine

/-- The names that a declaration makes known are kept in a container. -/
def KeptIn (t : Tree) (symbols : SymbolTable) (kind : TableKind) (container : NodeId)
    (id : SymbolId) : Prop :=
  ∃ symbol node, symbols.get? id = some symbol ∧ symbol.declaration = some node ∧
    keeper? t kind node = .ok (some container)

theorem KeptIn.grows {kind : TableKind} {container : NodeId}
    (h : KeptIn t symbols kind container id)
    (g : Grows free symbols symbols') : KeptIn t symbols' kind container id := by
  obtain ⟨symbol, node, hs, hd, kept⟩ := h
  obtain ⟨symbol', hs', retains, -⟩ := g.kept hs
  exact ⟨symbol', node, hs', retains.declaration.trans hd, kept⟩

theorem KeptIn.owns {kind : TableKind} {container : NodeId}
    (h : KeptIn t symbols kind container id) : symbols.owns id := by
  obtain ⟨symbol, node, hs, -⟩ := h
  exact SymbolTable.owns_of_get? hs

/-- What is true of the symbols of every state of binding. -/
structure Sound (t : Tree) (symbols : SymbolTable) : Prop where
  base : symbols.base = 0
  numbered : symbols.Numbered
  fits : ∀ {id symbol}, symbols.get? id = some symbol → Fits t symbols symbol
  symbolOf : ∀ {node id}, symbols.symbolOf node = some id →
    ∃ symbol, symbols.get? id = some symbol ∧ symbol.declaration = some node
  answered : ∀ {id symbol node}, symbols.get? id = some symbol →
    symbol.declaration = some node → ∃ id', symbols.symbolOf node = some id'
  names : ∀ {kind container id}, id ∈ (symbols.names kind container).values →
    KeptIn t symbols kind container id
  entries : ∀ {kind container key id}, (symbols.names kind container).find? key = some id →
    ∃ symbol, symbols.get? id = some symbol ∧ Text.lowercase symbol.name = key
  scripts : ∀ {key id}, symbols.scripts.find? key = some id → ∃ symbol,
    symbols.get? id = some symbol ∧ symbol.kind = .script ∧ Text.lowercase symbol.name = key

/-- The kind of a symbol is that of its declaration. -/
theorem Sound.kind_eq {node identifier : NodeId} {kind : SymbolKind} (h : Sound t symbols)
    (hs : symbols.get? id = some symbol) (hd : symbol.declaration = some node)
    (hk : t.declaration? node = some (kind, identifier)) : symbol.kind = kind := by
  obtain ⟨node', identifier', hd', hk', -⟩ := (h.fits hs).declared
  rw [hd] at hd'
  cases hd'
  rw [hk] at hk'
  cases hk'
  rfl

theorem Sound.empty (t : Tree) : Sound t {} := by
  have none : ∀ id : SymbolId, ({} : SymbolTable).get? id = none := fun id => by
    simp [SymbolTable.get?]
  refine ⟨rfl, ?_, ?_, ?_, ?_, ?_, ?_, ?_⟩
  · intro id symbol hs
    rw [none] at hs
    cases hs
  · intro id symbol hs
    rw [none] at hs
    cases hs
  rotate_left
  · intro id symbol node hs
    rw [none] at hs
    cases hs
  all_goals
    intros
    rename_i h
    cases h

/-- The diagnostic that refuses the name of a declaration. -/
def refusal? (t : Tree) (node : NodeId) (name : String) : Option Diagnostic :=
  (t.node? node).bind fun n => (Diagnostic.about n.range .cannotRedeclare [name]).toOption

/-! ## Reports -/

theorem about_eq (range : Range) (message : Message) (arguments : List String) :
    (∃ d, Diagnostic.about range message arguments = .ok d ∧ range.start ≤ range.stop) ∨
    Diagnostic.about range message arguments = .error (.reversedRange range.start range.stop) ∧
      ¬ range.start ≤ range.stop := by
  simp only [Diagnostic.about, Range.toSpan, Span.ofBounds]
  by_cases h : range.start ≤ range.stop
  · exact .inl ⟨_, by rw [if_pos h]; rfl, h⟩
  · exact .inr ⟨by rw [if_neg h]; rfl, h⟩

/-- A diagnostic about a range of text is a plain one with a span. -/
theorem exists_eq_plain {range : Range} {message : Message} {arguments : List String}
    {d : Diagnostic} (h : (Diagnostic.about range message arguments).toOption = some d) :
    ∃ span, d = { Diagnostic.plain message arguments with span := some span } := by
  cases about : Diagnostic.about range message arguments with
  | error e => simp [about, Except.toOption] at h
  | ok found =>
    obtain ⟨span, -, made⟩ := exists_of_bind_eq_ok about
    rw [about] at h
    cases h
    cases made
    exact ⟨span, rfl⟩

/-! ## Changes -/

/-- What is found after a step was there before, or is in order by itself. -/
theorem Sound.step (h : Sound t symbols) (g : Grows free symbols symbols')
    (numbered : symbols'.Numbered)
    (fits : ∀ {id symbol}, symbols'.get? id = some symbol → Fits t symbols' symbol)
    (symbolOf : ∀ {node id}, symbols'.symbolOf node = some id →
      symbols.symbolOf node = some id ∨
        ∃ symbol, symbols'.get? id = some symbol ∧ symbol.declaration = some node)
    (answered : ∀ {id symbol node}, symbols'.get? id = some symbol →
      symbol.declaration = some node → DeclaredAt symbols id node ∨
        ∃ id', symbols'.symbolOf node = some id')
    (names : ∀ {kind container id}, id ∈ (symbols'.names kind container).values →
      id ∈ (symbols.names kind container).values ∨ KeptIn t symbols' kind container id)
    (entries : ∀ {kind container key id}, (symbols'.names kind container).find? key = some id →
      (symbols.names kind container).find? key = some id ∨
        ∃ symbol, symbols'.get? id = some symbol ∧ Text.lowercase symbol.name = key)
    (scripts : ∀ {key id}, symbols'.scripts.find? key = some id →
      symbols.scripts.find? key = some id ∨ ∃ symbol, symbols'.get? id = some symbol ∧
        symbol.kind = .script ∧ Text.lowercase symbol.name = key) : Sound t symbols' where
  base := g.base.trans h.base
  numbered := numbered
  fits := fits
  symbolOf {node id} hs := by
    rcases symbolOf hs with old | new
    · obtain ⟨symbol, hs, hd⟩ := h.symbolOf old
      obtain ⟨symbol', hs', retains, -⟩ := g.kept hs
      exact ⟨symbol', hs', retains.declaration.trans hd⟩
    · exact new
  answered hs hd := by
    rcases answered hs hd with ⟨symbol, hs', hd'⟩ | new
    · obtain ⟨id', found⟩ := h.answered hs' hd'
      exact g.symbolOf found
    · exact new
  names hs := (names hs).elim (fun old => (h.names old).grows g) id
  entries hs := by
    rcases entries hs with old | new
    · obtain ⟨symbol, hs, hkey⟩ := h.entries old
      obtain ⟨symbol', hs', retains, -⟩ := g.kept hs
      exact ⟨symbol', hs', by rw [retains.name, hkey]⟩
    · exact new
  scripts hs := by
    rcases scripts hs with old | new
    · obtain ⟨symbol, hs, hkind, hkey⟩ := h.scripts old
      obtain ⟨symbol', hs', retains, -⟩ := g.kept hs
      exact ⟨symbol', hs', retains.kind.trans hkind, by rw [retains.name, hkey]⟩
    · exact new

theorem grows_update {f : Symbol → Symbol} (changed : free id)
    (hf : ∀ symbol, symbols.get? id = some symbol → symbol.Retains (f symbol)) :
    Grows free symbols (symbols.update id f) where
  base := by simp
  kept {other symbol} hs := by
    rw [SymbolTable.get?_update]
    split
    · subst other
      exact ⟨f symbol, by simp [hs], hf symbol hs, fun fixed => absurd changed fixed⟩
    · exact ⟨symbol, hs, .refl _, fun _ => rfl⟩
  entries h := by simpa using h
  scripts h := by simpa using h
  symbolOf {node other} h := ⟨other, by simpa using h⟩

theorem nodes_update {f : Symbol → Symbol}
    (hf : ∀ symbol, symbols.get? id = some symbol → symbol.Retains (f symbol)) :
    nodes (symbols.update id f) = nodes symbols := by
  refine nodes_congr (by simp) fun other => ?_
  rw [SymbolTable.get?_update]
  split
  · subst other
    cases hs : symbols.get? id with
    | none => rfl
    | some symbol => simp [(hf symbol hs).declaration]
  · rfl

theorem Sound.update {f : Symbol → Symbol} (h : Sound t symbols)
    (hf : ∀ symbol, symbols.get? id = some symbol → symbol.Retains (f symbol) ∧
      (∀ part ∈ (f symbol).members ++ (f symbol).parameters ++ (f symbol).imports,
        symbols.owns part) ∧ ∀ part ∈ (f symbol).members, CanBeMember t symbols part) :
    Sound t (symbols.update id f) := by
  have g : Grows (fun _ => True) symbols (symbols.update id f) :=
    grows_update trivial fun symbol hs => (hf symbol hs).1
  have numbered := h.numbered.update fun symbol hs => (hf symbol hs).1.id
  refine h.step g numbered ?_ (fun ho => .inl (by simpa using ho)) ?_
    (fun ho => .inl (by simpa using ho)) (fun ho => .inl (by simpa using ho))
    (fun ho => .inl (by simpa using ho))
  · intro other symbol' hs
    rw [SymbolTable.get?_update] at hs
    split at hs
    · subst other
      obtain ⟨symbol, hold, rfl⟩ := Option.map_eq_some_iff.1 hs
      obtain ⟨retains, owned, members⟩ := hf symbol hold
      exact ((h.fits hold).retains retains owned members).grows g
    · exact (h.fits hs).grows g
  · intro other symbol' node hs hd
    rw [SymbolTable.get?_update] at hs
    split at hs
    · subst other
      obtain ⟨symbol, hold, rfl⟩ := Option.map_eq_some_iff.1 hs
      exact .inl ⟨symbol, hold, (hf symbol hold).1.declaration.symm.trans hd⟩
    · exact .inl ⟨symbol', hs, hd⟩

/-- What is written down about a symbol leaves its declaration alone, and the symbols that it refers
to are there. -/
structure Writes (t : Tree) (symbols : SymbolTable) (f : Symbol → Symbol) : Prop where
  retains : ∀ symbol : Symbol, symbol.Retains (f symbol)
  members : ∀ symbol, ∀ part ∈ (f symbol).members,
    part ∈ symbol.members ∨ CanBeMember t symbols part
  others : ∀ symbol, ∀ part ∈ (f symbol).parameters ++ (f symbol).imports,
    part ∈ symbol.parameters ++ symbol.imports ∨ symbols.owns part

theorem Sound.writes {f : Symbol → Symbol} (h : Sound t symbols) (writes : Writes t symbols f) :
    Sound t (symbols.update id f) := by
  refine h.update fun symbol hs => ?_
  have members : ∀ part ∈ (f symbol).members, CanBeMember t symbols part := fun part hp =>
    (writes.members symbol part hp).elim ((h.fits hs).members part) fun can => can
  refine ⟨writes.retains symbol, fun part hp => ?_, members⟩
  rw [List.append_assoc, List.mem_append] at hp
  rcases hp with hp | hp
  · exact (members part hp).owns
  · refine (writes.others symbol part hp).elim (fun old => ?_) fun owned => owned
    exact (h.fits hs).owned part (by simp only [List.mem_append] at old ⊢; tauto)

/-! ## New symbols -/

theorem grows_create (symbols : SymbolTable) (kind : SymbolKind) (name : String)
    (parent : Option SymbolId) (node : NodeId) :
    Grows free symbols (symbols.create kind name parent node) where
  base := by simp
  kept {other symbol} hs := by
    have hne : other ≠ symbols.next := by
      rintro rfl
      rw [SymbolTable.get?_next] at hs
      cases hs
    rw [SymbolTable.get?_create, if_neg hne]
    exact ⟨symbol, hs, .refl _, fun _ => rfl⟩
  entries h := by simpa using h
  scripts h := by simpa using h
  symbolOf {other id} h := by
    rw [SymbolTable.symbolOf_create]
    split
    · exact ⟨_, rfl⟩
    · exact ⟨id, h⟩

theorem nodes_create (base : symbols.base = 0) (kind : SymbolKind) (name : String)
    (parent : Option SymbolId) (node : NodeId) :
    nodes (symbols.create kind name parent node) = nodes symbols ++ [node] := by
  have hnext : symbols.next = ⟨symbols.size⟩ := by simp [SymbolTable.next, base]
  simp only [nodes, SymbolTable.size_create, List.range_succ, List.filterMap_append]
  congr 1
  · refine List.filterMap_congr fun i hi => ?_
    have : (⟨i⟩ : SymbolId) ≠ symbols.next := by
      rw [hnext]
      intro e
      cases e
      simp at hi
    rw [SymbolTable.get?_create, if_neg this]
  · simp [SymbolTable.get?_create, hnext]

theorem Sound.create {kind : SymbolKind} {name : String} {parent : Option SymbolId}
    {node identifier : NodeId} (h : Sound t symbols)
    (hd : t.declaration? node = some (kind, identifier))
    (hname : name = title (t.nameAt identifier))
    (top : kind = .script ↔ parent = none) (known : ∀ p, parent = some p → symbols.owns p) :
    Sound t (symbols.create kind name parent node) := by
  have g : Grows (fun _ => False) symbols (symbols.create kind name parent node) :=
    grows_create symbols kind name parent node
  refine h.step g (h.numbered.create ..) ?_ ?_ ?_ (fun ho => .inl (by simpa using ho))
    (fun ho => .inl (by simpa using ho)) (fun ho => .inl (by simpa using ho))
  · intro id symbol hs
    rw [SymbolTable.get?_create] at hs
    split at hs
    · cases hs
      refine ⟨⟨node, identifier, rfl, hd, hname⟩, top, ?_, ?_, by simp [SymbolTable.fresh],
        by simp [SymbolTable.fresh], FlagSet.has_empty _⟩
      · intro hp
        cases (hp : parent = none)
        rfl
      · intro p hp
        cases (hp : parent = some p)
        obtain ⟨above, ha⟩ := SymbolTable.owns_iff.1 (known p rfl)
        obtain ⟨above', ha', -, same⟩ := g.kept ha
        cases same not_false
        exact ⟨above, ha', by simp [SymbolTable.fresh, ha]⟩
    · exact (h.fits hs).grows g
  · intro other id ho
    rw [SymbolTable.symbolOf_create] at ho
    split at ho
    · cases ho
      subst other
      exact .inr ⟨_, by rw [SymbolTable.get?_create, if_pos rfl], rfl⟩
    · exact .inl ho
  · intro id symbol node' hs hd'
    rw [SymbolTable.get?_create] at hs
    split at hs
    · cases hs
      cases hd'
      exact .inr ⟨_, by rw [SymbolTable.symbolOf_create, if_pos rfl]⟩
    · exact .inl ⟨symbol, hs, hd'⟩

/-! ## Names -/

theorem grows_enter {table : TableKind} {container : NodeId} {name : String}
    (free? : (symbols.names table container).contains (Text.lowercase name) = false) :
    Grows free symbols (symbols.enter table container name id) where
  base := rfl
  kept hs := ⟨_, hs, .refl _, fun _ => rfl⟩
  entries {kind place key other} h := by
    rw [SymbolTable.names_enter]
    split
    · rename_i same
      cases same
      rw [Registry.find?_insert, if_neg]
      · exact h
      · rintro rfl
        rw [Registry.contains, h] at free?
        cases free?
    · exact h
  scripts h := h
  symbolOf h := ⟨_, h⟩

theorem Sound.enter {table : TableKind} {container node : NodeId} {name : String}
    (h : Sound t symbols)
    (free? : (symbols.names table container).contains (Text.lowercase name) = false)
    (hs : symbols.get? id = some symbol) (hname : symbol.name = name)
    (hd : symbol.declaration = some node) (hkeeper : keeper? t table node = .ok (some container)) :
    Sound t (symbols.enter table container name id) := by
  have g : Grows (fun _ => False) symbols (symbols.enter table container name id) :=
    grows_enter free?
  refine h.step g h.numbered (fun ho => (h.fits ho).grows g) .inl
    (fun ho hd' => .inl ⟨_, ho, hd'⟩) ?_ ?_ .inl
  · intro kind place other ho
    rw [SymbolTable.names_enter] at ho
    split at ho
    · rename_i same
      cases same
      rcases Registry.mem_values_insert ho with rfl | old
      · exact .inr ⟨symbol, node, hs, hd, hkeeper⟩
      · exact .inl old
    · exact .inl ho
  · intro kind place key other ho
    rw [SymbolTable.names_enter] at ho
    split at ho
    · rename_i same
      cases same
      rw [Registry.find?_insert] at ho
      split at ho
      · cases ho
        exact .inr ⟨symbol, hs, by rwa [hname]⟩
      · exact .inl ho
    · exact .inl ho

/-! ## Scripts -/

theorem scripts_registerScript (symbols : SymbolTable) (name : String) (id : SymbolId) :
    (symbols.registerScript name id).scripts =
      if symbols.scripts.contains (Text.lowercase name) then symbols.scripts
      else symbols.scripts.insert (Text.lowercase name) id :=
  apply_ite SymbolTable.scripts _ _ _

theorem get?_registerScript (symbols : SymbolTable) (name : String) (id : SymbolId) :
    (symbols.registerScript name id).get? = symbols.get? := by
  unfold SymbolTable.registerScript
  split <;> rfl

theorem nodes_register (symbols : SymbolTable) (name : String) (id : SymbolId) :
    nodes (symbols.registerScript name id) = nodes symbols := by
  refine nodes_congr ?_ fun other => by rw [get?_registerScript]
  unfold SymbolTable.registerScript
  split <;> rfl

theorem grows_register (name : String) (id : SymbolId) :
    Grows free symbols (symbols.registerScript name id) := by
  unfold SymbolTable.registerScript
  split
  · exact .refl symbols
  · rename_i unknown
    refine ⟨rfl, fun hs => ⟨_, hs, .refl _, fun _ => rfl⟩, fun h => h, ?_, fun h => ⟨_, h⟩⟩
    intro key other h
    change (symbols.scripts.insert _ _).find? key = some other
    rw [Registry.find?_insert, if_neg]
    · exact h
    · rintro rfl
      exact unknown (by simp [SymbolTable.script?, h])

theorem Sound.register {name : String} (h : Sound t symbols) (hs : symbols.get? id = some symbol)
    (hkind : symbol.kind = .script) (hname : symbol.name = name) :
    Sound t (symbols.registerScript name id) := by
  have g : Grows (fun _ => False) symbols (symbols.registerScript name id) :=
    grows_register name id
  have same : (symbols.registerScript name id).get? = symbols.get? ∧
      (symbols.registerScript name id).names = symbols.names ∧
      (symbols.registerScript name id).symbolOf = symbols.symbolOf := by
    unfold SymbolTable.registerScript
    split <;> exact ⟨rfl, rfl, rfl⟩
  obtain ⟨hget, hnames, hsymbolOf⟩ := same
  refine h.step g ?_ ?_ ?_ ?_ ?_ ?_ ?_
  · intro other symbol ho
    rw [hget] at ho
    exact h.numbered ho
  · intro other symbol ho
    rw [hget] at ho
    exact (h.fits ho).grows g
  · intro node other ho
    exact .inl (hsymbolOf ▸ ho)
  · intro other symbol node ho hd
    rw [hget] at ho
    exact .inl ⟨symbol, ho, hd⟩
  · intro kind container other ho
    exact .inl (hnames ▸ ho)
  · intro kind container key other ho
    exact .inl (hnames ▸ ho)
  · intro key other ho
    rw [hget]
    unfold SymbolTable.registerScript at ho
    split at ho
    · exact .inl ho
    · change (symbols.scripts.insert _ _).find? key = some other at ho
      rw [Registry.find?_insert] at ho
      split at ho
      · cases ho
        exact .inr ⟨symbol, hs, hkind, by rwa [hname]⟩
      · exact .inl ho

end Binding

end PapyrusAnalysis
