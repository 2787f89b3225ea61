import PapyrusAnalysis.Proofs.Binding.Declarations

/-!
# Furnished symbols

Binding leaves the symbols that are there alone and makes new ones, which are furnished: a new
symbol has as members the symbols of its parts, in the order of the parts and without repetition,
and the variables of its body stand below it. Nothing is asked of the tree: a node that is bound
twice has two symbols.

While a declaration is being bound, the one symbol that it made first is free to change. It is
furnished when the declaration is done.

## Main definitions

* `Binding.Lists`: what the members of a symbol are, and where they stand.
* `Binding.Furnished`: a symbol has what its declaration asks for.
* `Binding.Adds`: symbols are kept and new ones are furnished.
* `Binding.Registers`: what binding a script does with its name.
-/

namespace PapyrusAnalysis

namespace Binding

variable {t : Tree}

/-- Whether a declaration has a name. -/
def hasName (t : Tree) (node : NodeId) : Bool := (t.declaration? node).any fun d => isNamed t d.2

/-- The statements of a function or event. -/
def bodyStatements (t : Tree) (node : NodeId) : List NodeId :=
  match t.formAt node with
  | some (.function _ statements) | some (.event _ statements) => statements
  | _ => []

/-- The member parts of those among some nodes that declare symbols of a kind. -/
def partsWithin (t : Tree) (kind : SymbolKind) (nodes : List NodeId) : List NodeId :=
  nodes.flatMap fun node =>
    if (t.declaration? node).any (·.1 = kind) then memberParts t node else []

/-- The parts that become members of the symbol of a node, in their order. -/
def ownParts? (t : Tree) (node : NodeId) : Option (List NodeId) :=
  match t.formAt node with
  | some (.group ..) | some (.state ..) | some (.struct ..) => some (memberParts t node)
  | some (.script _ _ definitions) =>
    let bound := definitions.filter (defines t)
    some (if hasName t node then
      bound ++ partsWithin t .group bound ++ partsWithin t .state bound else [])
  | _ => none

/-- The definitions of a script that are bound, without those of its groups and states. -/
def ownDefinitions (t : Tree) (node : NodeId) : List NodeId :=
  match t.formAt node with
  | some (.script _ _ definitions) => definitions.filter (defines t)
  | _ => []

/-- Nothing becomes a member of a declaration without a name. -/
theorem ownParts?_of_unnamed {node identifier : NodeId} {kind : SymbolKind} {parts : List NodeId}
    (hd : t.declaration? node = some (kind, identifier)) (unnamed : isNamed t identifier = false)
    (hp : ownParts? t node = some parts) : parts = [] := by
  unfold ownParts? memberParts at hp
  rw [hasName, hd] at hp
  unfold Tree.declaration? at hd
  split at hd <;> grind

theorem ownDefinitions_of_kind {node identifier : NodeId} {kind : SymbolKind}
    (hd : t.declaration? node = some (kind, identifier)) (other : kind ≠ .script) :
    ownDefinitions t node = [] := by
  unfold Tree.declaration? at hd
  unfold ownDefinitions
  split at hd <;> grind

/-- A symbol of a declaration stands below another one, or on its own. -/
def DeclaredUnder (symbols : SymbolTable) (parent : Option SymbolId) (id : SymbolId)
    (node : NodeId) : Prop :=
  ∃ symbol, symbols.get? id = some symbol ∧ symbol.declaration = some node ∧ symbol.parent = parent

theorem DeclaredUnder.declaredAt {parent : Option SymbolId} {symbols : SymbolTable} {id : SymbolId}
    {node : NodeId} (h : DeclaredUnder symbols parent id node) : DeclaredAt symbols id node := by
  obtain ⟨symbol, hs, hd, -⟩ := h
  exact ⟨symbol, hs, hd⟩

/-- Below a symbol there is one for a declaration. -/
def LocalBelow (symbols : SymbolTable) (id : SymbolId) (node : NodeId) : Prop :=
  ∃ other, DeclaredUnder symbols (some id) other node

/-- A symbol stands right below another one. -/
def Below (symbols : SymbolTable) (above id : SymbolId) : Prop :=
  ∃ symbol, symbols.get? id = some symbol ∧ symbol.parent = some above

theorem DeclaredUnder.below {symbols : SymbolTable} {above id : SymbolId} {node : NodeId}
    (h : DeclaredUnder symbols (some above) id node) : Below symbols above id := by
  obtain ⟨symbol, hs, -, hp⟩ := h
  exact ⟨symbol, hs, hp⟩

theorem Below.eq {symbols : SymbolTable} {above above' id : SymbolId} (h : Below symbols above id)
    (h' : Below symbols above' id) : above = above' := by
  obtain ⟨symbol, hs, hp⟩ := h
  obtain ⟨symbol', hs', hp'⟩ := h'
  cases hs.symm.trans hs'
  exact Option.some.inj (hp.symm.trans hp')

/-- The members of a symbol are the symbols of its parts. They stand below it, those of a script
also below its groups and states, and none comes twice. -/
structure Lists (symbols : SymbolTable) (id : SymbolId) (kind : SymbolKind)
    (members : List SymbolId) (parts : List NodeId) : Prop where
  declared : List.Forall₂ (DeclaredAt symbols) members parts
  nodup : members.Nodup
  below : ∀ member ∈ members, Below symbols id member ∨
    kind = .script ∧ ∃ between, Below symbols id between ∧ Below symbols between member

/-- A symbol has what its declaration asks for. -/
structure Furnished (t : Tree) (symbols : SymbolTable) (id : SymbolId) (symbol : Symbol) :
    Prop where
  declared : ∃ node identifier, symbol.declaration = some node ∧
    t.declaration? node = some (symbol.kind, identifier)
  lists : ∀ {node parts}, symbol.declaration = some node → ownParts? t node = some parts →
    Lists symbols id symbol.kind symbol.members parts
  locals : ∀ {node statement found}, symbol.declaration = some node → hasName t node →
    statement ∈ bodyStatements t node → t.collect isDeclaration statement = .ok found →
    ∀ inner ∈ found, t.isWanted isDeclaration inner → LocalBelow symbols id inner
  definitions : ∀ {node}, symbol.declaration = some node → hasName t node →
    ∀ part ∈ ownDefinitions t node, LocalBelow symbols id part

/-- What makes a symbol furnished, said about the node that declares it. -/
theorem furnished_of {symbols : SymbolTable} {id : SymbolId} {symbol : Symbol}
    {node identifier : NodeId} (hnode : symbol.declaration = some node)
    (hd : t.declaration? node = some (symbol.kind, identifier))
    (lists : ∀ parts, ownParts? t node = some parts →
      Lists symbols id symbol.kind symbol.members parts)
    (locals : hasName t node → ∀ statement ∈ bodyStatements t node, ∀ found,
      t.collect isDeclaration statement = .ok found →
        ∀ inner ∈ found, t.isWanted isDeclaration inner → LocalBelow symbols id inner)
    (definitions : hasName t node → ∀ part ∈ ownDefinitions t node, LocalBelow symbols id part) :
    Furnished t symbols id symbol := by
  refine ⟨⟨node, identifier, hnode, hd⟩, ?_, ?_, ?_⟩
  · intro node' parts hd' hp
    cases hnode.symm.trans hd'
    exact lists parts hp
  · intro node' statement found hd' named hs collected
    cases hnode.symm.trans hd'
    exact locals named statement hs found collected
  · intro node' hd' named
    cases hnode.symm.trans hd'
    exact definitions named

/-- The symbols that are there stay as they are, but for those that are free to change, and the
others that are new are furnished. -/
structure Adds (t : Tree) (free : SymbolId → Prop) (symbols symbols' : SymbolTable) : Prop extends
    Grows free symbols symbols' where
  furnished : ∀ {id symbol}, symbols.get? id = none → symbols'.get? id = some symbol → ¬ free id →
    Furnished t symbols' id symbol

section Growth

variable {free free' : SymbolId → Prop} {symbols symbols' symbols'' : SymbolTable} {id : SymbolId}
  {symbol : Symbol} {node : NodeId}

theorem DeclaredUnder.grows {parent : Option SymbolId} (h : DeclaredUnder symbols parent id node)
    (g : Grows free symbols symbols') : DeclaredUnder symbols' parent id node := by
  obtain ⟨symbol, hs, hd, hp⟩ := h
  obtain ⟨symbol', hs', retains, -⟩ := g.kept hs
  exact ⟨symbol', hs', retains.declaration.trans hd, retains.parent.trans hp⟩

theorem LocalBelow.grows (h : LocalBelow symbols id node) (g : Grows free symbols symbols') :
    LocalBelow symbols' id node := by
  obtain ⟨other, declared⟩ := h
  exact ⟨other, declared.grows g⟩

theorem Below.grows {above : SymbolId} (h : Below symbols above id)
    (g : Grows free symbols symbols') : Below symbols' above id := by
  obtain ⟨symbol, hs, hp⟩ := h
  obtain ⟨symbol', hs', retains, -⟩ := g.kept hs
  exact ⟨symbol', hs', retains.parent.trans hp⟩

theorem Lists.grows {kind : SymbolKind} {members : List SymbolId} {parts : List NodeId}
    (h : Lists symbols id kind members parts) (g : Grows free symbols symbols') :
    Lists symbols' id kind members parts where
  declared := h.declared.imp fun _ _ declared => declared.grows g
  nodup := h.nodup
  below member hm := (h.below member hm).imp (·.grows g) fun within =>
    ⟨within.1, within.2.imp fun _ two => ⟨two.1.grows g, two.2.grows g⟩⟩

theorem Furnished.members (h : Furnished t symbols id symbol) {parts : List NodeId}
    (hd : symbol.declaration = some node) (hp : ownParts? t node = some parts) :
    List.Forall₂ (DeclaredAt symbols) symbol.members parts :=
  (h.lists hd hp).declared

theorem Furnished.grows (h : Furnished t symbols id symbol) (g : Grows free symbols symbols') :
    Furnished t symbols' id symbol where
  declared := h.declared
  lists hd hp := (h.lists hd hp).grows g
  locals hd named hs collected inner hi wanted :=
    (h.locals hd named hs collected inner hi wanted).grows g
  definitions hd named part hp := (h.definitions hd named part hp).grows g

/-- What is not there later was not there before. -/
theorem Grows.get?_eq_none (g : Grows free symbols symbols') (h : symbols'.get? id = none) :
    symbols.get? id = none := by
  cases hs : symbols.get? id with
  | none => rfl
  | some symbol =>
    obtain ⟨symbol', hs', -⟩ := g.kept hs
    cases hs'.symm.trans h

/-- A step that makes no symbol furnishes none. -/
theorem Grows.adds (g : Grows free symbols symbols')
    (same : ∀ id symbol, symbols'.get? id = some symbol → ¬ free id → symbols.get? id ≠ none) :
    Adds t free symbols symbols' :=
  ⟨g, fun none some fixed => absurd none (same _ _ some fixed)⟩

theorem Adds.refl (symbols : SymbolTable) : Adds t free symbols symbols :=
  (Grows.refl symbols).adds fun _ _ some _ none => by cases some.symm.trans none

theorem Adds.trans (h : Adds t free symbols symbols') (h' : Adds t free symbols' symbols'') :
    Adds t free symbols symbols'' where
  toGrows := h.toGrows.trans h'.toGrows
  furnished {id symbol} none some fixed := by
    cases hs : symbols'.get? id with
    | none => exact h'.furnished hs some fixed
    | some symbol' =>
      obtain ⟨symbol'', hs'', -, same⟩ := h'.kept hs
      cases hs''.symm.trans some
      cases same fixed
      exact (h.furnished none hs fixed).grows h'.toGrows

/-- A step that changes no symbol may stand where one is free to change. -/
theorem Adds.relax (h : Adds t (fun _ => False) symbols symbols') :
    Adds t free symbols symbols' where
  toGrows := h.toGrows.mono fun _ => False.elim
  furnished none some _ := h.furnished none some not_false

/-- When a declaration is done its symbol is furnished, and the others have been left alone. -/
theorem Adds.close (h : Adds t (· = id) symbols symbols') (new : symbols.get? id = none)
    (done : ∀ symbol, symbols'.get? id = some symbol → Furnished t symbols' id symbol) :
    Adds t (fun _ => False) symbols symbols' where
  toGrows := by
    refine (Grows.refl symbols).restrict h.toGrows ?_
    rintro other symbol hs rfl
    cases hs.symm.trans new
  furnished {other symbol} none some _ := by
    by_cases same : other = id
    · subst same
      exact done symbol some
    · exact h.furnished none some same

end Growth

/-! ## The members of a script -/

theorem ownParts?_of_kind {node identifier : NodeId} {kind : SymbolKind}
    (hd : t.declaration? node = some (kind, identifier)) (hk : kind = .group ∨ kind = .state) :
    ownParts? t node = some (memberParts t node) := by
  unfold Tree.declaration? at hd
  unfold ownParts?
  split at hd <;> grind

section Within

variable {symbols : SymbolTable} {kind : SymbolKind} {ids : List SymbolId}
  (furnished : ∀ id ∈ ids, ∀ symbol, symbols.get? id = some symbol → Furnished t symbols id symbol)

include furnished

/-- A group or a state among some symbols lists its members. -/
theorem lists_within {id : SymbolId} {symbol : Symbol}
    (hk : symbol.kind = .group ∨ symbol.kind = .state)
    (hid : id ∈ ids) (hs : symbols.get? id = some symbol) :
    ∃ node, symbol.declaration = some node ∧
      Lists symbols id symbol.kind symbol.members (memberParts t node) := by
  have own := furnished id hid symbol hs
  obtain ⟨node, identifier, hd, hkind⟩ := own.declared
  exact ⟨node, hd, own.lists hd (ownParts?_of_kind hkind hk)⟩

/-- The members of the groups, or of the states, among some symbols are those of their parts. -/
theorem forall₂_membersWithin {parts : List NodeId} (hk : kind = .group ∨ kind = .state)
    (declared : List.Forall₂ (DeclaredAt symbols) ids parts) :
    List.Forall₂ (DeclaredAt symbols) (membersWithin symbols kind ids)
      (partsWithin t kind parts) := by
  induction declared with
  | nil => exact .nil
  | @cons id part ids parts head _ ih =>
    obtain ⟨symbol, hs, hd⟩ := head
    obtain ⟨node, identifier, hd', hkind⟩ := (furnished id (by simp) symbol hs).declared
    cases hd.symm.trans hd'
    refine List.rel_append ?_ (ih fun other ho => furnished other (by simp [ho]))
    simp only [hs, hkind, Option.any_some, decide_eq_true_eq]
    split
    · rename_i same
      obtain ⟨node, hd', lists⟩ := lists_within furnished (same ▸ hk) (by simp) hs
      cases hd.symm.trans hd'
      exact lists.declared
    · exact .nil

/-- The members of groups and of states stand right below them. -/
theorem below_of_mem_membersWithin {member : SymbolId} (hk : kind = .group ∨ kind = .state)
    (hm : member ∈ membersWithin symbols kind ids) :
    ∃ id ∈ ids, (symbols.get? id).map (·.kind) = some kind ∧ Below symbols id member := by
  obtain ⟨id, hid, symbol, hs, rfl, listed⟩ := exists_of_mem_membersWithin hm
  obtain ⟨node, -, lists⟩ := lists_within furnished hk hid hs
  refine ⟨id, hid, by rw [hs]; rfl, (lists.below member listed).resolve_right ?_⟩
  rintro ⟨script, -⟩
  simp [script] at hk

/-- No member of the groups, or of the states, among some symbols comes twice. -/
theorem nodup_membersWithin (hk : kind = .group ∨ kind = .state) (nodup : ids.Nodup) :
    (membersWithin symbols kind ids).Nodup := by
  induction ids with
  | nil => exact .nil
  | cons id ids ih =>
    obtain ⟨apart, nodup⟩ := List.nodup_cons.1 nodup
    have tail : ∀ other ∈ ids, ∀ symbol, symbols.get? other = some symbol →
        Furnished t symbols other symbol := fun other ho => furnished other (by simp [ho])
    have split : membersWithin symbols kind (id :: ids) =
        membersWithin symbols kind [id] ++ membersWithin symbols kind ids := by
      simp [membersWithin]
    have alone : (membersWithin symbols kind [id]).Nodup := by
      cases hs : symbols.get? id with
      | none => simp [membersWithin, hs]
      | some symbol =>
        by_cases same : symbol.kind = kind
        · obtain ⟨node, -, lists⟩ := lists_within furnished (same ▸ hk) (by simp) hs
          simpa [membersWithin, hs, same] using lists.nodup
        · simp [membersWithin, hs, same]
    rw [split]
    refine List.nodup_append.2 ⟨alone, ih tail nodup, ?_⟩
    -- A member in both lists would stand below two symbols.
    rintro member here _ there rfl
    obtain ⟨above, habove, -, below⟩ := below_of_mem_membersWithin
      (fun other ho => furnished other (by simp [List.mem_singleton.1 ho])) hk here
    obtain ⟨above', habove', -, below'⟩ := below_of_mem_membersWithin tail hk there
    cases List.mem_singleton.1 habove
    exact apart (below.eq below' ▸ habove')

/-- The members of a script: those that stand right below it, and those of its groups and states. -/
theorem lists_script {id : SymbolId} {parts : List NodeId}
    (under : List.Forall₂ (DeclaredUnder symbols (some id)) ids parts) (nodup : ids.Nodup)
    (apart : id ∉ ids) :
    Lists symbols id .script (ids ++ membersWithin symbols .group ids ++
      membersWithin symbols .state ids) (parts ++ partsWithin t .group parts ++
      partsWithin t .state parts) := by
  have declared := under.imp fun _ _ h => h.declaredAt
  have direct : ∀ member ∈ ids, Below symbols id member := by
    intro member hm
    obtain ⟨part, -, stands⟩ := exists_right_of_mem under hm
    exact stands.below
  have deeper {kind : SymbolKind} (hk : kind = .group ∨ kind = .state) :
      ∀ member ∈ ids, ∀ other ∈ membersWithin symbols kind ids, member ≠ other := by
    rintro member hm _ ho rfl
    obtain ⟨between, hbetween, -, below⟩ := below_of_mem_membersWithin furnished hk ho
    exact apart ((direct member hm).eq below ▸ hbetween)
  refine ⟨List.rel_append (List.rel_append declared
    (forall₂_membersWithin furnished (.inl rfl) declared))
    (forall₂_membersWithin furnished (.inr rfl) declared), ?_, ?_⟩
  · refine List.nodup_append.2 ⟨List.nodup_append.2 ⟨nodup, nodup_membersWithin furnished (.inl rfl)
      nodup, deeper (.inl rfl)⟩, nodup_membersWithin furnished (.inr rfl) nodup, ?_⟩
    intro member hm other ho
    rcases List.mem_append.1 hm with hm | hm
    · exact deeper (.inr rfl) member hm other ho
    · rintro rfl
      obtain ⟨group, -, hgroup, below⟩ := below_of_mem_membersWithin furnished (.inl rfl) hm
      obtain ⟨state, -, hstate, below'⟩ := below_of_mem_membersWithin furnished (.inr rfl) ho
      rw [below.eq below', hstate] at hgroup
      cases hgroup
  · intro member hm
    have two {kind : SymbolKind} (hk : kind = .group ∨ kind = .state)
        (hm : member ∈ membersWithin symbols kind ids) :
        ∃ between, Below symbols id between ∧ Below symbols between member := by
      obtain ⟨between, hbetween, -, below⟩ := below_of_mem_membersWithin furnished hk hm
      exact ⟨between, direct between hbetween, below⟩
    simp only [List.mem_append] at hm
    rcases hm with (hm | hm) | hm
    · exact .inl (direct member hm)
    · exact .inr ⟨rfl, two (.inl rfl) hm⟩
    · exact .inr ⟨rfl, two (.inr rfl) hm⟩

end Within

/-- What binding a script with a name does with the name: the answer has it and is registered under
it. -/
structure Registers (name : String) (answer : Option SymbolId) (symbols symbols' : SymbolTable) :
    Prop where
  nameless : answer = none ∨ name.isEmpty = true → symbols'.scripts = symbols.scripts
  named : ∀ {id}, answer = some id → name.isEmpty = false →
    symbols'.scripts = (symbols.registerScript name id).scripts ∧
      (symbols'.get? id).map (·.name) = some name

end Binding

end PapyrusAnalysis
